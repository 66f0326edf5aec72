import QuerySearch.Proofs.Sql.ParseTrees
import QuerySearch.Sql.Constants
import QuerySearch.Sql.Precedence
import QuerySearch.Text.Lowercase

/-! Statements from parse trees.  The children of a node are passed through one by one, and a child of a
kind that the node does not provide for is an error, as is a child that is missing. -/

namespace QuerySearch.Sql

inductive ConvertError where
  | malformed (message : String)
  | unexpected (message : String)
  | invalidLiteral (e : InvalidLiteral)
  | misplaced
  deriving DecidableEq

def Word.ruleName : Word → String
  | .AND => "and_op"
  | .OR => "or_op"
  | .NOT => "not_op"
  | .NULL => "null_literal"
  | .TRUE => "true_literal"
  | .FALSE => "false_literal"
  | w => w.text.toUpper

def Rule.name : Rule → String
  | word w => w.ruleName
  | temporary => "TEMP"
  | bareIdentifier => "bare_identifier"
  | quotedIdentifier => "quoted_identifier"
  | identifier => "identifier"
  | decimalLiteral => "decimal_literal"
  | integerLiteral => "integer_literal"
  | quotedString => "single_quoted_string"
  | literal => "literal"
  | comparator .eq => "eq"
  | comparator .ne => "ne"
  | comparator .lt => "lt"
  | comparator .le => "le"
  | comparator .gt => "gt"
  | comparator .ge => "ge"
  | isNotNull => "is_not_null"
  | isNull => "is_null"
  | star => "star"
  | columnRef => "column_ref"
  | funcArgs => "func_args"
  | funcCall => "func_call"
  | subquery => "subquery"
  | expr => "expr"
  | overClause => "over_clause"
  | partitionClause => "partition_clause"
  | selectStmt => "select_stmt"
  | selectBody => "select_body"
  | selectItems => "select_items"
  | selectItem => "select_item"
  | fromClause => "from_clause"
  | fromItem => "from_item"
  | joinPart => "join_part"
  | joinKind => "join_kind"
  | tablePrimary => "table_primary"
  | tableSource => "table_source"
  | subquerySource => "subquery_source"
  | whereClause => "where_clause"
  | groupByClause => "group_by_clause"
  | havingClause => "having_clause"
  | orderByClause => "order_by_clause"
  | orderItem => "order_item"
  | typeName => "type_name"
  | columnDef => "column_def"
  | columnDefs => "column_defs"
  | createBody => "create_body"
  | createStmt => "create_stmt"
  | schema => "schema"
  | endOfInput => "EOI"

def Tree.unexpected (t : Tree) : ConvertError :=
  .unexpected (t.rule.name ++ " at `" ++ String.ofList t.text ++ "`")

def reported (r : Except InvalidLiteral α) : Except ConvertError α := r.mapError .invalidLiteral

namespace Convert

section Names

def name : Tree → Except ConvertError String
  | .node .bareIdentifier text _ => return Text.lowercase (String.ofList text)
  | .node .quotedIdentifier text _ => return String.ofList text.tail.dropLast
  | t => throw t.unexpected

def identifier : Tree → Except ConvertError String
  | .node .identifier _ [] => throw (.malformed "empty identifier")
  | .node .identifier _ (t :: _) => name t
  | t => name t

def columnRef (inner : List Tree) : Except ConvertError ColumnRef := do
  match ← inner.mapM identifier with
  | [name] => return ⟨none, name⟩
  | [qualifier, name] => return ⟨some qualifier, name⟩
  | parts => throw (.malformed ("bad column reference: " ++ ".".intercalate parts))

end Names

section Literals

def unsigned : List Char → Bool × List Char
  | '-' :: cs => (true, cs)
  | cs => (false, cs)

def integer (text : List Char) : Literal := .integer (unsigned text).1 (unsigned text).2

def decimal (text : List Char) : Literal :=
  let digits := (unsigned text).2
  .decimal (unsigned text).1 (digits.takeWhile (· != '.')) (digits.dropWhile (· != '.')).tail

def unquoted : List Char → List Char
  | '\'' :: '\'' :: cs => '\'' :: unquoted cs
  | c :: cs => c :: unquoted cs
  | [] => []

def constant : Tree → Except ConvertError Constant
  | .node (.word .NULL) _ _ => return .null
  | .node (.word .TRUE) _ _ => return .bool true
  | .node (.word .FALSE) _ _ => return .bool false
  | .node .integerLiteral text _ => reported (integer text).value
  | .node .decimalLiteral text _ => reported (decimal text).value
  | .node .quotedString text _ => return .str (String.ofList (unquoted text.tail.dropLast))
  | t => throw t.unexpected

def literal (inner : List Tree) : Except ConvertError Constant :=
  match inner with
  | [] => throw (.malformed "empty literal")
  | t :: _ => constant t

end Literals

section Queries

def resolved (ts : List (Token Constant)) : Except ConvertError (Expr Constant) :=
  match Token.resolve ts with
  | some e => return e
  | none => throw .misplaced

structure CallParts where
  name : String := ""
  distinct : Bool := false
  star : Bool := false
  args : List (Expr Constant) := []
  window : Option (Window Constant) := none

def CallParts.expr (c : CallParts) : Expr Constant := .call c.name c.distinct c.star c.args c.window

def emptySelect : Select Constant := ⟨false, [], [], none, [], none, []⟩

def joinKind : List Tree → JoinKind
  | .node (.word .LEFT) _ _ :: _ => .left
  | .node (.word .RIGHT) _ _ :: _ => .right
  | .node (.word .FULL) _ _ :: _ => .full
  | _ => .inner

def names : List Tree → Except ConvertError (List String)
  | [] => return []
  | .node .identifier text inner :: ts => do
    let name ← identifier (.node .identifier text inner)
    return name :: (← names ts)
  | .node (.word .AS) _ _ :: ts => names ts
  | t :: _ => throw t.unexpected

def tableSource (inner : List Tree) : Except ConvertError (TableRef Constant) := do
  match ← names inner with
  | [] => throw (.malformed "table reference without name")
  | name :: rest => return .table name rest.head?

mutual

def tokens : List Tree → Except ConvertError (List (Token Constant))
  | [] => return []
  | .node .literal _ inner :: ts => do
    let c ← literal inner
    return .operand (.constant c) :: (← tokens ts)
  | .node .columnRef _ inner :: ts => do
    let c ← columnRef inner
    return .operand (.column c) :: (← tokens ts)
  | .node .funcCall _ inner :: ts => do
    let c ← call inner {}
    return .operand c.expr :: (← tokens ts)
  | .node .subquery text inner :: ts => do
    let q ← subquery inner text
    return .operand (.subquery q) :: (← tokens ts)
  | .node .expr _ inner :: ts => do
    let e ← tokens inner >>= resolved
    return .operand e :: (← tokens ts)
  | .node (.word .NOT) _ _ :: ts => return .not :: (← tokens ts)
  | .node (.word .AND) _ _ :: ts => return .infixOp (.logic .and) :: (← tokens ts)
  | .node (.word .OR) _ _ :: ts => return .infixOp (.logic .or) :: (← tokens ts)
  | .node (.comparator op) _ _ :: ts => return .infixOp (.compare op) :: (← tokens ts)
  | .node .isNull _ _ :: ts => return .nullTest false :: (← tokens ts)
  | .node .isNotNull _ _ :: ts => return .nullTest true :: (← tokens ts)
  | .node r _ _ :: _ => throw (.unexpected r.name)

def call : List Tree → CallParts → Except ConvertError CallParts
  | [], c => return c
  | .node .identifier text inner :: ts, c => do
    let name ← identifier (.node .identifier text inner)
    call ts { c with name }
  | .node (.word .DISTINCT) _ _ :: ts, c => call ts { c with distinct := true }
  | .node .funcArgs _ inner :: ts, c => do
    let c ← args inner c
    call ts c
  | .node .overClause _ inner :: ts, c => do
    let w ← window inner ⟨[], []⟩
    call ts { c with window := some w }
  | t :: _, _ => throw t.unexpected

def args : List Tree → CallParts → Except ConvertError CallParts
  | [], c => return c
  | .node .star _ _ :: ts, c => args ts { c with star := true }
  | .node .expr _ inner :: ts, c => do
    let e ← tokens inner >>= resolved
    args ts { c with args := c.args ++ [e] }
  | t :: _, _ => throw t.unexpected

def window : List Tree → Window Constant → Except ConvertError (Window Constant)
  | [], w => return w
  | .node (.word .OVER) _ _ :: ts, w => window ts w
  | .node .partitionClause _ inner :: ts, w => do
    let es ← exprs inner
    window ts { w with partitionBy := w.partitionBy ++ es }
  | .node .orderByClause _ inner :: ts, w => do
    let orderBy ← sortKeys inner
    window ts { w with orderBy }
  | t :: _, _ => throw t.unexpected

def exprs : List Tree → Except ConvertError (List (Expr Constant))
  | [] => return []
  | .node .expr _ inner :: ts => do
    let e ← tokens inner >>= resolved
    return e :: (← exprs ts)
  | _ :: ts => exprs ts

def sortKeys : List Tree → Except ConvertError (List (SortKey Constant))
  | [] => return []
  | .node .orderItem _ inner :: ts => do
    let k ← sortKey inner none false
    return k :: (← sortKeys ts)
  | _ :: ts => sortKeys ts

def sortKey : List Tree → Option (Expr Constant) → Bool → Except ConvertError (SortKey Constant)
  | [], some e, descending => return ⟨e, descending⟩
  | [], none, _ => throw (.malformed "ORDER BY item without expression")
  | .node .expr _ inner :: ts, _, descending => do
    let e ← tokens inner >>= resolved
    sortKey ts (some e) descending
  | .node (.word .ASC) _ _ :: ts, e, _ => sortKey ts e false
  | .node (.word .DESC) _ _ :: ts, e, _ => sortKey ts e true
  | t :: _, _, _ => throw t.unexpected

def subquery : List Tree → List Char → Except ConvertError (Select Constant)
  | [], text => throw (.malformed (String.ofList text))
  | .node .selectBody _ inner :: _, _ => body inner emptySelect
  | _ :: ts, text => subquery ts text

def clauseExpr : List Tree → List Char → Except ConvertError (Expr Constant)
  | [], text => throw (.malformed (String.ofList text))
  | .node .expr _ inner :: _, _ => tokens inner >>= resolved
  | _ :: ts, text => clauseExpr ts text

def body : List Tree → Select Constant → Except ConvertError (Select Constant)
  | [], q => return q
  | .node (.word .SELECT) _ _ :: ts, q => body ts q
  | .node (.word .DISTINCT) _ _ :: ts, q => body ts { q with distinct := true }
  | .node .selectItems _ inner :: ts, q => do
    let is ← items inner
    body ts { q with items := q.items ++ is }
  | .node .fromClause _ inner :: ts, q => do
    let fs ← sources inner
    body ts { q with sources := q.sources ++ fs }
  | .node .whereClause text inner :: ts, q => do
    let e ← clauseExpr inner text
    body ts { q with filter := some e }
  | .node .groupByClause _ inner :: ts, q => do
    let es ← exprs inner
    body ts { q with groupBy := q.groupBy ++ es }
  | .node .havingClause text inner :: ts, q => do
    let e ← clauseExpr inner text
    body ts { q with having := some e }
  | .node .orderByClause _ inner :: ts, q => do
    let orderBy ← sortKeys inner
    body ts { q with orderBy }
  | t :: _, _ => throw t.unexpected

def items : List Tree → Except ConvertError (List (SelectItem Constant))
  | [] => return []
  | .node _ _ inner :: ts => do
    let i ← item inner none none
    return i :: (← items ts)

def item : List Tree → Option (Expr Constant) → Option String → Except ConvertError (SelectItem Constant)
  | [], some e, asName => return .expr e asName
  | [], none, _ => throw (.malformed "select item without expression")
  | .node .star _ _ :: _, _, _ => return .star
  | .node .expr _ inner :: ts, _, asName => do
    let e ← tokens inner >>= resolved
    item ts (some e) asName
  | .node (.word .AS) _ _ :: ts, e, asName => item ts e asName
  | .node .identifier text inner :: ts, e, _ => do
    let name ← identifier (.node .identifier text inner)
    item ts e (some name)
  | t :: _, _, _ => throw t.unexpected

def sources : List Tree → Except ConvertError (List (TableRef Constant))
  | [] => return []
  | .node .fromItem _ inner :: ts => do
    let t ← fromItem inner none
    return t :: (← sources ts)
  | _ :: ts => sources ts

def fromItem : List Tree → Option (TableRef Constant) → Except ConvertError (TableRef Constant)
  | [], some t => return t
  | [], none => throw (.malformed "empty FROM item")
  | .node .tablePrimary _ inner :: ts, _ => do
    let t ← tablePrimary inner
    fromItem ts (some t)
  | .node .joinPart _ inner :: ts, some left => do
    let t ← joinPart inner left .inner none none
    fromItem ts (some t)
  | .node .joinPart _ _ :: _, none => throw (.malformed "JOIN without left side")
  | t :: _, _ => throw t.unexpected

def joinPart : List Tree → TableRef Constant → JoinKind → Option (TableRef Constant) →
    Option (Expr Constant) → Except ConvertError (TableRef Constant)
  | [], left, kind, some right, on => return .join left right kind on
  | [], _, _, none, _ => throw (.malformed "JOIN without right side")
  | .node .joinKind _ inner :: ts, left, _, right, on => joinPart ts left (joinKind inner) right on
  | .node (.word .JOIN) _ _ :: ts, left, kind, right, on => joinPart ts left kind right on
  | .node (.word .ON) _ _ :: ts, left, kind, right, on => joinPart ts left kind right on
  | .node .tablePrimary _ inner :: ts, left, kind, _, on => do
    let t ← tablePrimary inner
    joinPart ts left kind (some t) on
  | .node .expr _ inner :: ts, left, kind, right, _ => do
    let e ← tokens inner >>= resolved
    joinPart ts left kind right (some e)
  | t :: _, _, _, _, _ => throw t.unexpected

def tablePrimary : List Tree → Except ConvertError (TableRef Constant)
  | [] => throw (.malformed "empty table reference")
  | .node .fromItem _ inner :: _ => fromItem inner none
  | .node .tableSource _ inner :: _ => tableSource inner
  | .node .subquerySource _ inner :: _ => subquerySource inner none none
  | t :: _ => throw t.unexpected

def subquerySource : List Tree → Option (Select Constant) → Option String →
    Except ConvertError (TableRef Constant)
  | [], some q, asName => return .query q asName
  | [], none, _ => throw (.malformed "missing subquery")
  | .node .subquery text inner :: ts, _, asName => do
    let q ← subquery inner text
    subquerySource ts (some q) asName
  | .node (.word .AS) _ _ :: ts, q, asName => subquerySource ts q asName
  | .node .identifier text inner :: ts, q, _ => do
    let name ← identifier (.node .identifier text inner)
    subquerySource ts q (some name)
  | t :: _, _, _ => throw t.unexpected

end

def expr (inner : List Tree) : Except ConvertError (Expr Constant) := tokens inner >>= resolved

def select : List Tree → Except ConvertError (Select Constant)
  | [] => throw (.malformed "empty input")
  | t :: _ => match t.inner.find? (·.rule = .selectBody) with
    | some b => body b.inner emptySelect
    | none => throw (.malformed "no select statement")

end Queries

section Definitions

def columnDef : Tree → Except ConvertError ColumnDef
  | .node _ _ [n, type] => do
    let name ← identifier n
    return ⟨name, Text.lowercase (String.ofList type.text)⟩
  | t => throw (.malformed (String.ofList t.text))

def createBody : List Tree → TableDef → Except ConvertError TableDef
  | [], d => return d
  | .node (.word .CREATE) _ _ :: ts, d => createBody ts d
  | .node .temporary _ _ :: ts, d => createBody ts d
  | .node (.word .TABLE) _ _ :: ts, d => createBody ts d
  | .node .identifier text inner :: ts, d => do
    let name ← identifier (.node .identifier text inner)
    createBody ts { d with name }
  | .node .columnDefs _ inner :: ts, d => do
    let cs ← inner.mapM columnDef
    createBody ts { d with columns := d.columns ++ cs }
  | t :: _, _ => throw t.unexpected

def create : List Tree → Except ConvertError TableDef
  | [] => throw (.malformed "empty input")
  | t :: _ => match t.inner.find? (·.rule = .createBody) with
    | some b => createBody b.inner ⟨"", []⟩
    | none => throw (.malformed "no create statement")

def schema : List Tree → Except ConvertError (List TableDef)
  | [] => throw (.malformed "empty input")
  | t :: _ => (t.inner.filter (·.rule = .createBody)).mapM fun b => createBody b.inner ⟨"", []⟩

end Definitions

end Convert

section Contents

mutual

def Tree.numbers : Tree → List Literal
  | .node .integerLiteral text inner => Convert.integer text :: Tree.numbersIn inner
  | .node .decimalLiteral text inner => Convert.decimal text :: Tree.numbersIn inner
  | .node _ _ inner => Tree.numbersIn inner

def Tree.numbersIn : List Tree → List Literal
  | [] => []
  | t :: ts => t.numbers ++ Tree.numbersIn ts

end

mutual

def Tree.sequences : Tree → List (List Tree)
  | .node .expr _ inner => inner :: Tree.sequencesIn inner
  | .node _ _ inner => Tree.sequencesIn inner

def Tree.sequencesIn : List Tree → List (List Tree)
  | [] => []
  | t :: ts => t.sequences ++ Tree.sequencesIn ts

end

/-- A number is in range if 64 bits hold it as an integer, or if the nearest number to it as a decimal
is finite. -/
def Literal.InRange : Literal → Prop
  | .integer negative digits =>
    Int64.minValue.toInt ≤ signed negative (Decimal.readDigits digits) ∧
      signed negative (Decimal.readDigits digits) ≤ Int64.maxValue.toInt
  | .decimal negative whole fraction => (Binary64.ofDecimal negative whole fraction).isFinite
  | _ => True

@[simp] theorem Tree.numbersIn_append (ts us : List Tree) :
    Tree.numbersIn (ts ++ us) = Tree.numbersIn ts ++ Tree.numbersIn us := by
  induction ts with
  | nil => rfl
  | cons t ts ih => simp [Tree.numbersIn, ih]

@[simp] theorem Tree.sequencesIn_append (ts us : List Tree) :
    Tree.sequencesIn (ts ++ us) = Tree.sequencesIn ts ++ Tree.sequencesIn us := by
  induction ts with
  | nil => rfl
  | cons t ts ih => simp [Tree.sequencesIn, ih]

end Contents

end QuerySearch.Sql
