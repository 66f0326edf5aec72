import QuerySearch.Sql.Syntax

/-! Operator precedence.  An expression is read as a flat sequence of operands and operators and folded
into a tree by binding powers: `OR` binds weakest, then `AND`, `NOT` and the comparisons, which have
one power among them, and a null test binds strongest. -/

namespace QuerySearch.Sql

inductive Infix where
  | compare (op : Comparator)
  | logic (op : Connective)
  deriving DecidableEq

def Infix.apply (lhs : Expr α) : Infix → Expr α → Expr α
  | .compare op, rhs => .compare lhs op rhs
  | .logic op, rhs => .logic lhs op rhs

inductive Token (α : Type) where
  | operand (e : Expr α)
  | not
  | infixOp (op : Infix)
  | nullTest (negated : Bool)

def Infix.power : Infix → Nat
  | .logic .or => 10
  | .logic .and => 20
  | .compare _ => 40

def notPower : Nat := 30

def nullTestPower : Nat := 50

namespace Token

mutual

/-- Folds the operators that bind more strongly than `power` to the operand at the front.  The fuel
bounds the number of tokens taken. -/
def fold : (fuel : Nat) → (power : Nat) → List (Token α) → Option (Expr α × List (Token α))
  | 0, _, _ => none
  | n + 1, power, .operand e :: ts => extend n power e ts
  | n + 1, power, .not :: ts => do
    let (arg, rest) ← fold n (notPower - 1) ts
    extend n power (.not arg) rest
  | _ + 1, _, _ => none

def extend : (fuel : Nat) → (power : Nat) → Expr α → List (Token α) → Option (Expr α × List (Token α))
  | 0, _, _, _ => none
  | n + 1, power, lhs, .infixOp op :: ts =>
    if power < op.power then do
      let (rhs, rest) ← fold n op.power ts
      extend n power (op.apply lhs rhs) rest
    else some (lhs, .infixOp op :: ts)
  | n + 1, power, lhs, .nullTest negated :: ts =>
    if power < nullTestPower then extend n power (.isNull lhs negated) ts
    else some (lhs, .nullTest negated :: ts)
  | _ + 1, _, lhs, ts => some (lhs, ts)

end

def resolve (ts : List (Token α)) : Option (Expr α) :=
  match fold (2 * ts.length + 1) 0 ts with
  | some (e, []) => some e
  | _ => none

end Token

end QuerySearch.Sql
