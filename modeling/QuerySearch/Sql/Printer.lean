import QuerySearch.Sql.Syntax

/-! SQL text of statements whose literals are values.  Comparisons stand bare and connectives in
parentheses, so what is nested in a connective is always delimited. -/

namespace QuerySearch.Sql

def Comparator.text : Comparator → String
  | .eq => "="
  | .ne => "<>"
  | .lt => "<"
  | .le => "<="
  | .gt => ">"
  | .ge => ">="

def Connective.text : Connective → String
  | .and => "AND"
  | .or => "OR"

def JoinKind.text : JoinKind → String
  | .inner => "INNER JOIN"
  | .left => "LEFT JOIN"
  | .right => "RIGHT JOIN"
  | .full => "FULL JOIN"

def quoteText (s : String) : String :=
  "'" ++ String.ofList (s.toList.flatMap fun c => if c = '\'' then ['\'', '\''] else [c]) ++ "'"

def Constant.text : Constant → String
  | .null => "NULL"
  | .bool true => "TRUE"
  | .bool false => "FALSE"
  | .int v => toString v.toInt
  | .real v => v.text .plain
  | .str s => quoteText s

def ColumnRef.text (c : ColumnRef) : String :=
  match c.qualifier with
  | some q => q ++ "." ++ c.name
  | none => c.name

def commaSeparated (texts : List String) : String := ", ".intercalate texts

def clause (keyword : String) (texts : List String) : String :=
  if texts.isEmpty then "" else keyword ++ commaSeparated texts

def aliased (text : String) : Option String → String
  | none => text
  | some a => text ++ " AS " ++ a

def TableRef.isJoin : TableRef α → Bool
  | .join .. => true
  | _ => false

mutual

def Expr.text : Expr Constant → String
  | .column c => c.text
  | .constant v => v.text
  | .compare l op r => l.text ++ " " ++ op.text ++ " " ++ r.text
  | .logic l op r => "(" ++ l.text ++ " " ++ op.text ++ " " ++ r.text ++ ")"
  | .not e => "NOT (" ++ e.text ++ ")"
  | .isNull e true => e.text ++ " IS NOT NULL"
  | .isNull e false => e.text ++ " IS NULL"
  | .call name distinct star args window =>
    name ++ "(" ++ (if distinct then "DISTINCT " else "") ++ (if star then "*" else "") ++
      commaSeparated (Expr.texts args) ++ ")" ++ Window.suffix window
  | .subquery q => "(" ++ q.text ++ ")"

def Expr.texts : List (Expr Constant) → List String
  | [] => []
  | e :: es => e.text :: Expr.texts es

def Window.suffix : Option (Window Constant) → String
  | none => ""
  | some ⟨partitionBy, orderBy⟩ =>
    let parts := [clause "PARTITION BY " (Expr.texts partitionBy),
      clause "ORDER BY " (SortKey.texts orderBy)]
    " OVER (" ++ " ".intercalate (parts.filter fun p => !p.isEmpty) ++ ")"

def SortKey.texts : List (SortKey Constant) → List String
  | [] => []
  | ⟨e, descending⟩ :: ks => (e.text ++ if descending then " DESC" else " ASC") :: SortKey.texts ks

def SelectItem.texts : List (SelectItem Constant) → List String
  | [] => []
  | .star :: is => "*" :: SelectItem.texts is
  | .expr e a :: is => aliased e.text a :: SelectItem.texts is

def TableRef.text : TableRef Constant → String
  | .table name a => aliased name a
  | .query q a => aliased ("(" ++ q.text ++ ")") a
  | .join l r kind on =>
    l.text ++ " " ++ kind.text ++ " " ++ (if r.isJoin then "(" ++ r.text ++ ")" else r.text) ++
      Expr.clause " ON " on

def TableRef.texts : List (TableRef Constant) → List String
  | [] => []
  | t :: ts => t.text :: TableRef.texts ts

def Expr.clause (keyword : String) : Option (Expr Constant) → String
  | none => ""
  | some e => keyword ++ e.text

def Select.text : Select Constant → String
  | ⟨distinct, items, sources, filter, groupBy, having, orderBy⟩ =>
    "SELECT " ++ (if distinct then "DISTINCT " else "") ++ commaSeparated (SelectItem.texts items) ++
      clause " FROM " (TableRef.texts sources) ++ Expr.clause " WHERE " filter ++
      clause " GROUP BY " (Expr.texts groupBy) ++ Expr.clause " HAVING " having ++
      clause " ORDER BY " (SortKey.texts orderBy)

end

theorem toList_text_subquery (q : Select Constant) :
    (Expr.subquery q).text.toList = '(' :: (q.text.toList ++ [')']) := by
  simp [Expr.text]

end QuerySearch.Sql
