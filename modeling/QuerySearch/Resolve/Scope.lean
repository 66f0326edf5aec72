import QuerySearch.Component.Printer
import QuerySearch.Sql.Printer

/-! The columns that are visible at some place of a query, and what can be wrong with a statement that
follows the grammar. -/

namespace QuerySearch

inductive Unsupported where
  | noSource
  | manySources
  | star
  | joinWithoutCondition
  | selectItem (item : Component)
  | columnReference (value : Component)
  | position (n : Int64)
  | key (e : Sql.Expr Sql.Constant)
  | constant (c : Sql.Constant)
  | scalarSubquery
  | value (e : Sql.Expr Sql.Constant)
  | starCall (name : String)
  | withoutOver (name : String)
  | windowArguments (name : String)
  | function (name : String)
  | argumentCount (name : String) (count : Nat)
  | nullTest
  | predicateSubquery
  | predicate (e : Sql.Expr Sql.Constant)

def Unsupported.text : Unsupported → String
  | noSource => "SELECT without FROM"
  | manySources => "FROM with more than one item"
  | star => "SELECT *"
  | joinWithoutCondition => "JOIN without ON"
  | selectItem c => "select item " ++ c.text
  | columnReference c => c.text ++ " as a column reference"
  | position n => "position " ++ toString n.toInt ++ " outside the select list"
  | key e => e.text ++ " as a grouping or ordering key"
  | constant c => "constant " ++ c.text
  | scalarSubquery => "scalar subquery"
  | value e => e.text ++ " as a value"
  | starCall name => name ++ "(*)"
  | withoutOver name => name ++ " without OVER"
  | windowArguments name => "arguments to " ++ name
  | function name => "function " ++ name
  | argumentCount name count => name ++ " with " ++ toString count ++ " arguments"
  | nullTest => "IS NULL"
  | predicateSubquery => "subquery in a predicate"
  | predicate e => e.text ++ " as a predicate"

inductive ResolveError where
  | unsupported (what : Unsupported)
  | missing (column : Sql.ColumnRef)
  | ambiguous (column : Sql.ColumnRef)
  | unknownTable (name : String)

def ResolveError.message : ResolveError → String
  | unsupported what => "Translation not supported: " ++ what.text ++ "."
  | missing column => "Column " ++ column.text ++ " does not exist."
  | ambiguous column => "Column reference " ++ column.text ++ " is ambiguous."
  | unknownTable name => "Table " ++ name ++ " is not in the schema."

structure VisibleColumn where
  source : String
  name : String
  chain : Component

abbrev Scope := List VisibleColumn

namespace Scope

def renamed (s : Scope) (source : String) : Scope := s.map fun v => { v with source }

def isMeant (column : Sql.ColumnRef) (v : VisibleColumn) : Bool :=
  (column.qualifier.all fun q => q == v.source) && v.name == column.name

/-- The chain that a column stands for.  It may be visible more than once, as long as that is the same
chain. -/
def lookup (s : Scope) (column : Sql.ColumnRef) : Except ResolveError Component :=
  match Component.unique ((s.filter (isMeant column)).map (·.chain)) with
  | [] => .error (.missing column)
  | [chain] => .ok chain
  | _ => .error (.ambiguous column)

def sourceOf (s : Scope) (column : Sql.ColumnRef) : String :=
  match column.qualifier with
  | some q => q
  | none => ((s.find? fun v => v.name == column.name).map (·.source)).getD ""

end Scope

end QuerySearch
