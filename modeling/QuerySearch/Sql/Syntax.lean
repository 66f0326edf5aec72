import QuerySearch.Number.Decimal

/-! Syntax of SELECT statements and table definitions.  The trees are open in their constants: a tree
just read holds literals as they were written, one whose literals are all in range holds values. -/

namespace QuerySearch.Sql

/-- A literal as written.  Numbers keep their text. -/
inductive Literal where
  | null
  | bool (value : Bool)
  | integer (negative : Bool) (digits : List Char)
  | decimal (negative : Bool) (whole fraction : List Char)
  | str (value : String)
  deriving DecidableEq

inductive Constant where
  | null
  | bool (value : Bool)
  | int (value : Int64)
  | real (value : Binary64)
  | str (value : String)
  deriving DecidableEq

inductive Comparator where
  | eq | ne | lt | le | gt | ge
  deriving DecidableEq

inductive Connective where
  | and | or
  deriving DecidableEq

inductive JoinKind where
  | inner | left | right | full
  deriving DecidableEq

structure ColumnRef where
  qualifier : Option String
  name : String
  deriving DecidableEq

mutual

inductive Expr (α : Type) where
  | column (ref : ColumnRef)
  | constant (value : α)
  | compare (lhs : Expr α) (op : Comparator) (rhs : Expr α)
  | logic (lhs : Expr α) (op : Connective) (rhs : Expr α)
  | not (arg : Expr α)
  | isNull (arg : Expr α) (negated : Bool)
  | call (name : String) (distinct star : Bool) (args : List (Expr α)) (window : Option (Window α))
  | subquery (query : Select α)

structure Window (α : Type) where
  partitionBy : List (Expr α)
  orderBy : List (SortKey α)

structure SortKey (α : Type) where
  expr : Expr α
  descending : Bool

inductive SelectItem (α : Type) where
  | star
  | expr (value : Expr α) (asName : Option String)

inductive TableRef (α : Type) where
  | table (name : String) (asName : Option String)
  | query (query : Select α) (asName : Option String)
  | join (left right : TableRef α) (kind : JoinKind) (on : Option (Expr α))

structure Select (α : Type) where
  distinct : Bool
  items : List (SelectItem α)
  sources : List (TableRef α)
  filter : Option (Expr α)
  groupBy : List (Expr α)
  having : Option (Expr α)
  orderBy : List (SortKey α)

end

structure ColumnDef where
  name : String
  typeName : String
  deriving DecidableEq

structure TableDef where
  name : String
  columns : List ColumnDef
  deriving DecidableEq

def SelectItem.outputName : SelectItem α → String
  | .expr _ (some a) => a
  | .expr (.column c) none => c.name
  | _ => "tmp"

def Select.outputNames (q : Select α) : List String := q.items.map SelectItem.outputName

end QuerySearch.Sql
