import QuerySearch.Sql.Syntax

/-! Values of literals.  An integer has a value if 64 bits hold it, a decimal if the nearest number is
finite; a tree has one if all its literals do, and otherwise the first bad literal in the order of
the text is reported. -/

namespace QuerySearch.Sql

structure InvalidLiteral where
  text : String
  deriving DecidableEq

def InvalidLiteral.message (e : InvalidLiteral) : String := "Invalid literal: " ++ e.text

def signed (negative : Bool) (n : Nat) : Int := if negative then -(n : Int) else n

def minusSign (negative : Bool) : String := if negative then "-" else ""

def Literal.value : Literal → Except InvalidLiteral Constant
  | .null => .ok .null
  | .bool b => .ok (.bool b)
  | .integer negative digits =>
    let v := signed negative (Decimal.readDigits digits)
    if Int64.minValue.toInt ≤ v ∧ v ≤ Int64.maxValue.toInt then .ok (.int (Int64.ofInt v))
    else .error ⟨minusSign negative ++ String.ofList digits⟩
  | .decimal negative whole fraction =>
    let v := Binary64.ofDecimal negative whole fraction
    if v.isFinite then .ok (.real v)
    else .error ⟨minusSign negative ++ String.ofList whole ++ "." ++ String.ofList fraction⟩
  | .str s => .ok (.str s)

section Traverse

variable (f : α → Except ε β)

mutual

def Expr.mapConstants : Expr α → Except ε (Expr β)
  | .column c => return .column c
  | .constant a => return .constant (← f a)
  | .compare l op r => return .compare (← l.mapConstants) op (← r.mapConstants)
  | .logic l op r => return .logic (← l.mapConstants) op (← r.mapConstants)
  | .not e => return .not (← e.mapConstants)
  | .isNull e negated => return .isNull (← e.mapConstants) negated
  | .call name distinct star args window =>
    return .call name distinct star (← Expr.mapConstantsList args) (← Window.mapConstants? window)
  | .subquery q => return .subquery (← q.mapConstants)

def Expr.mapConstantsList : List (Expr α) → Except ε (List (Expr β))
  | [] => return []
  | e :: es => return (← e.mapConstants) :: (← Expr.mapConstantsList es)

def Expr.mapConstants? : Option (Expr α) → Except ε (Option (Expr β))
  | none => return none
  | some e => return some (← e.mapConstants)

def Window.mapConstants? : Option (Window α) → Except ε (Option (Window β))
  | none => return none
  | some ⟨partitionBy, orderBy⟩ =>
    return some ⟨← Expr.mapConstantsList partitionBy, ← SortKey.mapConstants orderBy⟩

def SortKey.mapConstants : List (SortKey α) → Except ε (List (SortKey β))
  | [] => return []
  | ⟨e, descending⟩ :: ks =>
    return ⟨← e.mapConstants, descending⟩ :: (← SortKey.mapConstants ks)

def SelectItem.mapConstants : List (SelectItem α) → Except ε (List (SelectItem β))
  | [] => return []
  | .star :: is => return .star :: (← SelectItem.mapConstants is)
  | .expr e a :: is => return .expr (← e.mapConstants) a :: (← SelectItem.mapConstants is)

def TableRef.mapConstants : TableRef α → Except ε (TableRef β)
  | .table name a => return .table name a
  | .query q a => return .query (← q.mapConstants) a
  | .join l r kind on =>
    return .join (← l.mapConstants) (← r.mapConstants) kind (← Expr.mapConstants? on)

def TableRef.mapConstantsList : List (TableRef α) → Except ε (List (TableRef β))
  | [] => return []
  | t :: ts => return (← t.mapConstants) :: (← TableRef.mapConstantsList ts)

def Select.mapConstants : Select α → Except ε (Select β)
  | ⟨distinct, items, sources, filter, groupBy, having, orderBy⟩ => return {
      distinct
      items := ← SelectItem.mapConstants items
      sources := ← TableRef.mapConstantsList sources
      filter := ← Expr.mapConstants? filter
      groupBy := ← Expr.mapConstantsList groupBy
      having := ← Expr.mapConstants? having
      orderBy := ← SortKey.mapConstants orderBy }

end

end Traverse

end QuerySearch.Sql
