import QuerySearch.Resolve.Scope

/-! Values and predicates of a statement as components.  Comparisons come down to `<`, `<=`, `=` and
`<>`, and `NOT` is pushed into the operators below it. -/

namespace QuerySearch

open Sql (Expr Constant)

def unsupported (what : Unsupported) : Except ResolveError α := .error (.unsupported what)

/-- The chain that an item makes available to keys and to enclosing queries. -/
def outputChain (item : Component) : Except ResolveError Component :=
  match item.provided with
  | chain :: _ => .ok chain
  | [] => unsupported (.selectItem item)

def referencable (c : Component) : Except ResolveError Component :=
  if c.kind.isReferencable then .ok c else unsupported (.columnReference c)

def sortDir (descending : Bool) : SortDir := if descending then .desc else .asc

def normalize : Sql.Comparator → (negated : Bool) → CompareOp × Bool
  | .eq, false | .ne, true => (.eq, false)
  | .ne, false | .eq, true => (.ne, false)
  | .lt, false | .ge, true => (.lt, false)
  | .le, false | .gt, true => (.le, false)
  | .gt, false | .le, true => (.lt, true)
  | .ge, false | .lt, true => (.le, true)

/-- The connective that stands for another one under an odd number of negations. -/
def connective : Sql.Connective → (negated : Bool) → LogicOp
  | .and, false | .or, true => .and
  | .or, false | .and, true => .or

def constantValue : Constant → Except ResolveError Component
  | .int v => .ok (.int v)
  | .real v => .ok (.float v)
  | .str s => .ok (.str s)
  | c => unsupported (.constant c)

def callValue (name : String) (isDistinct star : Bool) (args : List (Except ResolveError Component))
    (window : Option (Except ResolveError (Component × Component))) : Except ResolveError Component :=
  if star then unsupported (.starCall name)
  else match WindowFunc.ofName? name with
    | some func =>
      match window with
      | none => unsupported (.withoutOver name)
      | some window =>
        if args.isEmpty then do
          let (partition, orderBy) ← window
          return .funcWindow (.windowClause func) partition orderBy
        else unsupported (.windowArguments name)
    | none =>
      match AggFunc.ofName? name with
      | none => unsupported (.function name)
      | some func =>
        match args with
        | [arg] => do
          let call := Component.aggregation func (← referencable (← arg)) isDistinct
          match window with
          | none => return call
          | some window =>
            let (partition, orderBy) ← window
            return .aggWindow call partition orderBy
        | _ => unsupported (.argumentCount name args.length)

def listOrAbsent (build : List Component → Component) : List Component → Component
  | [] => .absent
  | items => build items

section Scoped

variable (scope : Scope)

mutual

def Sql.Expr.value : Expr Constant → Except ResolveError Component
  | .column c => scope.lookup c
  | .constant c => constantValue c
  | .call name isDistinct star args window =>
    callValue name isDistinct star (Expr.valueEach args) (Window.value? window)
  | .subquery _ => unsupported .scalarSubquery
  | e => unsupported (.value e)

def Sql.Expr.valueEach : List (Expr Constant) → List (Except ResolveError Component)
  | [] => []
  | e :: es => e.value :: Expr.valueEach es

def Sql.Window.value? :
    Option (Sql.Window Constant) → Option (Except ResolveError (Component × Component))
  | none => none
  | some ⟨partitionBy, orderBy⟩ => some do
    let groups ← (Expr.valueEach partitionBy).mapM fun v => do referencable (← v)
    let keys ← SortKey.values orderBy
    return (listOrAbsent .partitionListOf groups, listOrAbsent .sortListOf keys)

def Sql.SortKey.values : List (Sql.SortKey Constant) → Except ResolveError (List Component)
  | [] => return []
  | ⟨e, descending⟩ :: ks => do
    let chain ← referencable (← outputChain (← e.value))
    return .sortItem chain (sortDir descending) :: (← SortKey.values ks)

end

/-- `negated` says whether an odd number of negations stands around the predicate. -/
def Sql.Expr.predicate (negated : Bool) : Expr Constant → Except ResolveError Component
  | .compare lhs op rhs => do
    let l ← lhs.value scope
    let r ← rhs.value scope
    let (op, swap) := normalize op negated
    return if swap then .comparison r op l else .comparison l op r
  | .logic lhs op rhs =>
    return .connection (← lhs.predicate negated) (connective op negated) (← rhs.predicate negated)
  | .not e => e.predicate (!negated)
  | .isNull .. => unsupported .nullTest
  | .subquery _ => unsupported .predicateSubquery
  | e => unsupported (.predicate e)

end Scoped

end QuerySearch
