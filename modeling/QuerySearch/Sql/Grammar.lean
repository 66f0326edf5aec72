import QuerySearch.Sql.Lexical
import QuerySearch.Sql.Precedence

/-! The grammar of SELECT statements and table definitions.  What stands inside parentheses is read by
the same rules one level further in; the number of opening parentheses bounds the levels. -/

namespace QuerySearch.Sql

open QuerySearch.Sql.Parser

/-- The readers for what parentheses enclose. -/
structure Inside where
  expr : Parser (Expr Literal)
  select : Parser (Select Literal)
  source : Parser (TableRef Literal)

def parenthesized (p : Parser α) : Parser α := do
  symbol "("
  skip
  let a ← p
  skip
  symbol ")"
  return a

def infixOp : Parser Infix :=
  choice
    [(do keyword "or"; return .logic .or),
     (do keyword "and"; return .logic .and),
     (do symbol "<="; return .compare .le),
     (do symbol ">="; return .compare .ge),
     (do symbol "<>"; return .compare .ne),
     (do symbol "!="; return .compare .ne),
     (do symbol "="; return .compare .eq),
     (do symbol "<"; return .compare .lt),
     (do symbol ">"; return .compare .gt)]

def aliasName : Parser String := do
  let _ ← optional (keyword "as")
  skip
  identifier

def clauseBy (word : String) (p : Parser α) : Parser α := do
  keyword word
  skip
  keyword "by"
  skip
  p

section Levels

variable (inside : Inside)

def sortKey (expr : Parser (Expr Literal)) : Parser (SortKey Literal) := do
  let e ← expr
  skip
  let direction ← optional ((do keyword "asc"; return false) <|> (do keyword "desc"; return true))
  return ⟨e, direction.getD false⟩

def windowClause : Parser (Window Literal) := do
  keyword "over"
  skip
  symbol "("
  skip
  let partitionBy ← optional (clauseBy "partition" (commaSeparated inside.expr))
  skip
  let orderBy ← optional (clauseBy "order" (commaSeparated (sortKey inside.expr)))
  skip
  symbol ")"
  return ⟨partitionBy.getD [], orderBy.getD []⟩

def callArgs : Parser (Option (List (Expr Literal))) :=
  (do symbol "*"; return none) <|> (do return some (← commaSeparated inside.expr))

def functionCall : Parser (Expr Literal) := do
  let name ← identifier
  skip
  symbol "("
  skip
  let distinct ← reads (keyword "distinct")
  skip
  let args ← optional (callArgs inside)
  skip
  symbol ")"
  skip
  let window ← optional (windowClause inside)
  let args := args.getD (some [])
  return .call name distinct args.isNone (args.getD []) window

def primary : Parser (Expr Literal) :=
  choice
    [functionCall inside,
     (do return .constant (← literal)),
     (do return .column (← columnRef)),
     (do return .subquery (← parenthesized inside.select)),
     parenthesized inside.expr]

def term : Parser (List (Token Literal)) := do
  let nots ← spaced (keyword "not")
  skip
  let e ← primary inside
  skip
  let test ← optional isNullSuffix
  return nots.map (fun _ => Token.not) ++ .operand e :: (test.map Token.nullTest).toList

def tokens : Parser (List (Token Literal)) := do
  let first ← term inside
  skip
  let others ← spaced do
    let op ← infixOp
    skip
    return .infixOp op :: (← term inside)
  return first ++ others.flatten

def expr : Parser (Expr Literal) := do
  let ts ← tokens inside
  StateT.lift (Token.resolve ts)

def selectItem : Parser (SelectItem Literal) :=
  (do symbol "*"; return .star) <|> do
    let e ← expr inside
    skip
    return .expr e (← optional aliasName)

def joinKind : Parser JoinKind :=
  let outer (word : String) (kind : JoinKind) : Parser JoinKind := do
    keyword word
    skip
    let _ ← optional (keyword "outer")
    return kind
  choice [(do keyword "inner"; return .inner), outer "left" .left, outer "right" .right,
    outer "full" .full]

def tablePrimary : Parser (TableRef Literal) :=
  choice
    [(do
      let q ← parenthesized inside.select
      skip
      return .query q (← optional aliasName)),
     (do
      let name ← identifier
      skip
      return .table name (← optional aliasName)),
     parenthesized inside.source]

def joinPart : Parser (TableRef Literal → TableRef Literal) := do
  let kind ← optional joinKind
  skip
  keyword "join"
  skip
  let right ← tablePrimary inside
  skip
  let on ← optional do
    keyword "on"
    skip
    expr inside
  return fun left => .join left right (kind.getD .inner) on

def tableRef : Parser (TableRef Literal) := do
  let first ← tablePrimary inside
  skip
  let joins ← spaced (joinPart inside)
  return joins.foldl (fun left join => join left) first

def select : Parser (Select Literal) := do
  keyword "select"
  skip
  let distinct ← reads (keyword "distinct")
  skip
  let items ← commaSeparated (selectItem inside)
  skip
  let sources ← optional (do keyword "from"; skip; commaSeparated (tableRef inside))
  skip
  let filter ← optional (do keyword "where"; skip; expr inside)
  skip
  let groupBy ← optional (clauseBy "group" (commaSeparated (expr inside)))
  skip
  let having ← optional (do keyword "having"; skip; expr inside)
  skip
  let orderBy ← optional (clauseBy "order" (commaSeparated (sortKey (expr inside))))
  return ⟨distinct, items, sources.getD [], filter, groupBy.getD [], having, orderBy.getD []⟩

end Levels

/-- The readers for `n` levels of parentheses. -/
def levels : (n : Nat) → Inside
  | 0 => ⟨failure, failure, failure⟩
  | n + 1 => ⟨expr (levels n), select (levels n), tableRef (levels n)⟩

/-- Runs a rule with as many levels as the text can need. -/
def withLevels (rule : Inside → Parser α) : Parser α :=
  fun cs => rule (levels (cs.count '(')) cs

def statement (p : Parser α) : Parser α := do
  skip
  let a ← p
  skip
  let _ ← optional (symbol ";")
  skip
  ending
  return a

def selectStatement : Parser (Select Literal) := statement (withLevels select)

def columnDef : Parser ColumnDef := do
  let name ← identifier
  skip
  return ⟨name, String.ofList ((← typeName).map Char.toLower)⟩

def createTable : Parser TableDef := do
  keyword "create"
  skip
  let _ ← optional (keyword "temporary" <|> keyword "temp")
  skip
  keyword "table"
  skip
  let name ← identifier
  skip
  return ⟨name, ← parenthesized (commaSeparated columnDef)⟩

def createStatement : Parser TableDef := statement createTable

def tableDefs : Parser (List TableDef) := do
  skip
  let defs ← spaced do
    let d ← createTable
    skip
    symbol ";"
    return d
  skip
  let last ← optional createTable
  skip
  ending
  return defs ++ last.toList

end QuerySearch.Sql
