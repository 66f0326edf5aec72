import QuerySearch.Component.Chains
import QuerySearch.Number.Decimal
import QuerySearch.Sql.Printer

/-! SQL text of components.  Where a chain is not bound to a column of a source, the name of its table
stands in for the source. -/

namespace QuerySearch

def quoteName (s : String) : String :=
  "\"" ++ String.ofList (s.toList.flatMap fun c => if c = '"' then ['"', '"'] else [c]) ++ "\""

def floatText (v : Binary64) : String :=
  if v.isNaN then "'NaN'::float8"
  else if v.isFinite then v.text .scientific
  else if v.isNegative then "'-Infinity'::float8"
  else "'Infinity'::float8"

namespace Component

def qualified (qualifier name : String) : String := quoteName qualifier ++ "." ++ quoteName name

def withAlias (text : String) : Option String → String
  | none => text
  | some a => text ++ " AS " ++ quoteName a

def clause (keyword : String) (c : Component) (text : String) : String :=
  if c.isAbsent then "" else keyword ++ text

def sideText (c : Component) (text : String) : String :=
  if c.kind == .connection then "(" ++ text ++ ")" else text

def overText (partition : Component) (partitionText : String) (orderBy : Component)
    (orderByText : String) : String :=
  " OVER (" ++ " ".intercalate ((if partition.isAbsent then [] else ["PARTITION BY " ++ partitionText]) ++
    if orderBy.isAbsent then [] else ["ORDER BY " ++ orderByText]) ++ ")"

def callText (func arg : String) : String := func ++ "(" ++ arg ++ ")"

mutual

def text : Component → String
  | .table t => quoteName t.name
  | .column t name _ => qualified t.name name
  | .aggChain func arg => callText func.text arg.text
  | .windowChain func arg => callText func.text arg.text
  | .int v => toString v.toInt
  | .float v => floatText v
  | .str s => Sql.quoteText s
  | .absent => ""
  | .distinct => "DISTINCT"
  | .compareOp op => op.text
  | .logicOp op => op.text
  | .joinType t => t.text
  | .aggFunc f => f.text
  | .windowFunc f => f.text
  | .sortDir d => d.text
  | .aggregation func arg isDistinct =>
    callText func.text ((if isDistinct then "DISTINCT " else "") ++ arg.text)
  | .windowClause f => callText f.text ""
  | .aggWindow call partition orderBy =>
    call.text ++ overText partition partition.text orderBy orderBy.text
  | .funcWindow call partition orderBy =>
    call.text ++ overText partition partition.text orderBy orderBy.text
  | .partitionList items => Sql.commaSeparated (texts items)
  | .groupList items => Sql.commaSeparated (texts items)
  | .sortList items => Sql.commaSeparated (texts items)
  | .select items => Sql.commaSeparated (texts items)
  | .sortItem chain dir => chain.text ++ " " ++ dir.text
  | .comparison l op r => l.text ++ " " ++ op.text ++ " " ++ r.text
  | .connection l op r => sideText l l.text ++ " " ++ op.text ++ " " ++ sideText r r.text
  | .named item asName => withAlias item.text (some asName)
  | .tableSource t asName => withAlias t.text asName
  | .querySource q asName => withAlias ("(" ++ q.text ++ ")") asName
  | .join l r type on =>
    l.text ++ " " ++ type.text ++ " " ++ (if r.kind == .join then "(" ++ r.text ++ ")" else r.text) ++
      " ON " ++ on.text
  | .query sel source filter groupBy having orderBy isDistinct =>
    "SELECT " ++ (if isDistinct then "DISTINCT " else "") ++ sel.text ++ " FROM " ++ source.text ++
      clause " WHERE " filter filter.text ++ clause " GROUP BY " groupBy groupBy.text ++
      clause " HAVING " having having.text ++ clause " ORDER BY " orderBy orderBy.text
  | .boundColumn qualifier name _ =>
    if qualifier.isEmpty then quoteName name else qualified qualifier name

def texts : List Component → List String
  | [] => []
  | c :: cs => c.text :: texts cs

end

theorem texts_eq (cs : List Component) : texts cs = cs.map text := by
  induction cs with
  | nil => rfl
  | cons c cs ih => simp [texts, ih]

theorem text_lists (items : List Component) :
    (partitionList items).text = Sql.commaSeparated (items.map text) ∧
      (groupList items).text = Sql.commaSeparated (items.map text) ∧
      (sortList items).text = Sql.commaSeparated (items.map text) := by
  simp [text, texts_eq]

def describe (c : Component) : String := c.kind.name ++ "(" ++ c.text ++ ")"

end Component

/-- A query without rows, with `arity` columns `c1`, `c2` and so on. -/
def placeholder (arity : Nat) : String :=
  let names := Sql.commaSeparated ((List.range arity).map fun i => quoteName ("c" ++ toString (i + 1)))
  let nulls := Sql.commaSeparated (List.replicate arity "NULL")
  "SELECT " ++ names ++ " FROM (VALUES (" ++ nulls ++ ")) AS \"T_cte_empty\"(" ++ names ++ ") WHERE 1 = 0"

end QuerySearch
