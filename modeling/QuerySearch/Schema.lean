import QuerySearch.Sql.Syntax
import QuerySearch.Text.Lowercase
import QuerySearch.Text.WhiteSpace

/-! Data types and the tables that queries read.  Tables are found by name in any case; a table defined
again replaces the earlier one. -/

namespace QuerySearch

inductive DataType where
  | number
  | str
  deriving DecidableEq

def DataType.text : DataType → String
  | .number => "number"
  | .str => "str"

def numericTypeNames : List String :=
  ["int", "integer", "bigint", "smallint", "tinyint", "decimal", "numeric", "real", "float", "double"]

/-- The type that a declared type name stands for, whatever sizes follow it.  Whatever is not numeric
is a string; none where there is no name. -/
def DataType.ofName? (name : String) : Option DataType :=
  let base := Text.lowercase (String.ofList (Text.trim (name.toList.takeWhile (· != '('))))
  if base.isEmpty then none
  else if numericTypeNames.contains base then some .number
  else some .str

def DataType.ofConstant? : Sql.Constant → Option DataType
  | .int _ | .real _ => some .number
  | .str _ => some .str
  | .bool _ | .null => none

structure TableSchema where
  name : String
  columns : List (String × DataType)
  deriving DecidableEq

def TableSchema.ofDef (d : Sql.TableDef) : TableSchema :=
  ⟨d.name, d.columns.map fun c => (c.name, (DataType.ofName? c.typeName).getD .str)⟩

structure Schema where
  entries : List (String × TableSchema)

namespace Schema

def empty : Schema := ⟨[]⟩

def insert (s : Schema) (t : TableSchema) : Schema :=
  let key := Text.lowercase t.name
  ⟨(key, t) :: s.entries.filter fun e => e.1 != key⟩

def define (s : Schema) (d : Sql.TableDef) : Schema := s.insert (.ofDef d)

def ofDefs (ds : List Sql.TableDef) : Schema := ds.foldl define empty

def table? (s : Schema) (name : String) : Option TableSchema := s.entries.lookup (Text.lowercase name)

def size (s : Schema) : Nat := s.entries.length

def isEmpty (s : Schema) : Bool := s.entries.isEmpty

end Schema

end QuerySearch
