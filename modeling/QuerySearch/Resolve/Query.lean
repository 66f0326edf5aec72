import QuerySearch.Resolve.Expression
import QuerySearch.Schema

/-! Statements as queries.  Names are resolved from the sources upwards: a table makes its columns
visible, a derived table its outputs, a join those of both sides.  Every table that is read gets the
next identity. -/

namespace QuerySearch

open Sql (Expr Constant SelectItem TableRef Select)

abbrev Resolve := ExceptT ResolveError (StateM UInt64)

def freshId : Resolve UInt64 := modifyGet fun next => (next, next + 1)

/-- A key of a grouping or an ordering: a column, a position of the select list, counted from one, an
output name or a call. -/
def reference (scope : Scope) (select : List (SelectItem Constant)) (items : List Component) :
    Expr Constant → Except ResolveError Component
  | .constant (.int n) =>
    match if 0 < n.toInt then items[n.toInt.toNat - 1]? else none with
    | some item => do referencable (← outputChain item)
    | none => unsupported (.position n)
  | .column c =>
    match scope.lookup c with
    | .ok chain => referencable chain
    | .error (.missing _) =>
      let isNamed : SelectItem Constant → Bool
        | .expr _ (some a) => c.qualifier.isNone && a == c.name
        | _ => false
      match (select.findIdx? isNamed).bind (items[·]?) with
      | some item => do referencable (← outputChain item)
      | none => .error (.missing c)
    | .error e => .error e
  | .call name isDistinct star args window => do
    referencable (← outputChain (← (Expr.call name isDistinct star args window).value scope))
  | e => unsupported (.key e)

def selectItemValue (scope : Scope) : SelectItem Constant → Except ResolveError Component
  | .star => unsupported .star
  | .expr e _ => e.value scope

def predicateOrAbsent (scope : Scope) : Option (Expr Constant) → Except ResolveError Component
  | none => .ok .absent
  | some e => e.predicate scope false

def outputSource (scope : Scope) : SelectItem Constant → String
  | .expr (.column c) _ => scope.sourceOf c
  | _ => ""

def outputs (scope : Scope) (select : List (SelectItem Constant)) (items : List Component) :
    Except ResolveError Scope :=
  (select.zip items).mapM fun (s, item) => return ⟨outputSource scope s, s.outputName, ← outputChain item⟩

def queryOver (source : Component) (scope : Scope) (q : Select Constant) :
    Except ResolveError (Component × Scope) := do
  let items ← q.items.mapM (selectItemValue scope)
  let filter ← predicateOrAbsent scope q.filter
  let groups ← q.groupBy.mapM (reference scope q.items items)
  let having ← predicateOrAbsent scope q.having
  let keys ← q.orderBy.mapM fun k =>
    return .sortItem (← reference scope q.items items k.expr) (sortDir k.descending)
  let outputs ← outputs scope q.items items
  return (.query (.select items) source filter (listOrAbsent .groupListOf groups) having
    (listOrAbsent .sortListOf keys) q.distinct, outputs)

/-- A right join is a left join with its sides changed. -/
def joined (l r : Component) (on : Component) : Sql.JoinKind → Component
  | .inner => .join l r .inner on
  | .left => .join l r .left on
  | .full => .join l r .full on
  | .right => .join r l .left on

section Scoped

variable (schema : Schema)

mutual

def Sql.Select.resolve : Select Constant → Resolve (Component × Scope)
  | ⟨distinct, items, sources, filter, groupBy, having, orderBy⟩ => do
    let (source, scope) ← TableRef.resolveOnly sources
    liftM (queryOver source scope ⟨distinct, items, sources, filter, groupBy, having, orderBy⟩)

def Sql.TableRef.resolveOnly : List (TableRef Constant) → Resolve (Component × Scope)
  | [] => throw (.unsupported .noSource)
  | [t] => t.resolve
  | _ :: _ :: _ => throw (.unsupported .manySources)

def Sql.TableRef.resolve : TableRef Constant → Resolve (Component × Scope)
  | .table name asName =>
    match schema.table? name with
    | none => throw (.unknownTable name)
    | some t => do
      let tableName := Text.lowercase t.name
      let table : Table := ⟨tableName, t.columns, ← freshId⟩
      let visible := t.columns.map fun c =>
        ⟨asName.getD tableName, c.1, .column table c.1 c.2⟩
      return (.tableSource (.table table) asName, visible)
  | .query q asName => do
    let (query, scope) ← q.resolve
    return (.querySource query asName, match asName with
      | some a => scope.renamed a
      | none => scope)
  | .join left right kind on => do
    let (l, leftScope) ← left.resolve
    let (r, rightScope) ← right.resolve
    let scope := leftScope ++ rightScope
    match on with
    | none => throw (.unsupported .joinWithoutCondition)
    | some e => return (joined l r (← liftM (e.predicate scope false)) kind, scope)

end

end Scoped

/-- The query that a statement stands for, with the names of its outputs, and the next identity. -/
def Sql.Select.toQuery (schema : Schema) (q : Select Constant) (nextId : UInt64) :
    Except ResolveError (Component × List String) × UInt64 :=
  ((do return ((← q.resolve schema).1, q.outputNames) : Resolve (Component × List String)).run).run nextId

end QuerySearch
