import QuerySearch.Sql.Lexical

/-! The grammar as parsing expressions.  An alternative is tried only where the ones before it fail, a
repetition takes all it can, and blanks and comments may stand between the parts of a rule unless it
is atomic. -/

namespace QuerySearch.Sql

inductive Word where
  | SELECT | DISTINCT | FROM | WHERE | GROUP | BY | HAVING | ORDER | AS | ON | JOIN | INNER | LEFT | RIGHT
  | FULL | OUTER | ASC | DESC | OVER | PARTITION | CREATE | TABLE | LIMIT | AND | OR | NOT | NULL | TRUE | FALSE
  deriving DecidableEq

def Word.text : Word → String
  | SELECT => "select"
  | DISTINCT => "distinct"
  | FROM => "from"
  | WHERE => "where"
  | GROUP => "group"
  | BY => "by"
  | HAVING => "having"
  | ORDER => "order"
  | AS => "as"
  | ON => "on"
  | JOIN => "join"
  | INNER => "inner"
  | LEFT => "left"
  | RIGHT => "right"
  | FULL => "full"
  | OUTER => "outer"
  | ASC => "asc"
  | DESC => "desc"
  | OVER => "over"
  | PARTITION => "partition"
  | CREATE => "create"
  | TABLE => "table"
  | LIMIT => "limit"
  | AND => "and"
  | OR => "or"
  | NOT => "not"
  | NULL => "null"
  | TRUE => "true"
  | FALSE => "false"

def Word.all : List Word :=
  [SELECT, DISTINCT, FROM, WHERE, GROUP, BY, HAVING, ORDER, AS, ON, JOIN, INNER, LEFT, RIGHT, FULL, OUTER,
    ASC, DESC, OVER, PARTITION, CREATE, TABLE, LIMIT, AND, OR, NOT, NULL, TRUE, FALSE]

inductive Rule where
  | word (w : Word)
  | temporary
  | bareIdentifier | quotedIdentifier | identifier
  | decimalLiteral | integerLiteral | quotedString | literal
  | comparator (op : Comparator)
  | isNotNull | isNull
  | star | columnRef | funcArgs | funcCall | subquery | expr
  | overClause | partitionClause
  | selectStmt | selectBody | selectItems | selectItem
  | fromClause | fromItem | joinPart | joinKind | tablePrimary | tableSource | subquerySource
  | whereClause | groupByClause | havingClause | orderByClause | orderItem
  | typeName | columnDef | columnDefs | createBody | createStmt | schema
  | endOfInput
  deriving DecidableEq

inductive Peg where
  | text (s : String)
  | anyCase (s : String)
  | one (accepts : Char → Bool)
  | start
  | rule (r : Rule)
  | seq (a b : Peg)
  | alt (a b : Peg)
  | opt (a : Peg)
  | many (a : Peg)
  | absent (a : Peg)

namespace Peg

def word (w : Word) : Peg := rule (.word w)

def atLeastOne (a : Peg) : Peg := seq a (many a)

def commaList (a : Peg) : Peg := seq a (many (seq (text ",") a))

def wordEnd : Peg := absent (one isWordChar)

def anyChar : Peg := one fun _ => true

def blanks : Peg := atLeastOne (one Parser.isBlank)

def postfixTest : Peg := alt (rule .isNotNull) (rule .isNull)

def reserved : Peg := Word.all.foldr (fun w => alt (word w)) postfixTest

def infixOp : Peg :=
  alt (word .OR) <| alt (word .AND) <| alt (rule (.comparator .le)) <| alt (rule (.comparator .ge)) <|
    alt (rule (.comparator .ne)) <| alt (rule (.comparator .eq)) <| alt (rule (.comparator .lt)) <|
      rule (.comparator .gt)

def inParentheses (a : Peg) : Peg := seq (text "(") <| seq a <| text ")"

def primary : Peg :=
  alt (rule .funcCall) <| alt (rule .literal) <| alt (rule .columnRef) <| alt (rule .subquery) <|
    inParentheses (rule .expr)

def term : Peg := seq (many (word .NOT)) <| seq primary <| opt postfixTest

def asName : Peg := opt <| seq (opt (word .AS)) (rule .identifier)

def body : Rule → Peg
  | .word w => seq (anyCase w.text) wordEnd
  | .temporary => seq (alt (anyCase "temporary") (anyCase "temp")) wordEnd
  | .bareIdentifier =>
    seq (absent reserved) <| seq (one fun c => isLetter c || c == '_') <| many (one isWordChar)
  | .quotedIdentifier => seq (text "\"") <| seq (atLeastOne (seq (absent (text "\"")) anyChar)) <| text "\""
  | .identifier => alt (rule .quotedIdentifier) (rule .bareIdentifier)
  | .decimalLiteral =>
    seq (opt (text "-")) <| seq (atLeastOne (one isDigit)) <| seq (text ".") <| atLeastOne (one isDigit)
  | .integerLiteral => seq (opt (text "-")) <| atLeastOne (one isDigit)
  | .quotedString =>
    seq (text "'") <| seq (many (alt (text "''") (seq (absent (text "'")) anyChar))) <| text "'"
  | .literal =>
    alt (word .NULL) <| alt (word .TRUE) <| alt (word .FALSE) <| alt (rule .decimalLiteral) <|
      alt (rule .integerLiteral) <| rule .quotedString
  | .comparator .le => text "<="
  | .comparator .ge => text ">="
  | .comparator .ne => alt (text "<>") (text "!=")
  | .comparator .eq => text "="
  | .comparator .lt => text "<"
  | .comparator .gt => text ">"
  | .isNotNull =>
    seq (anyCase "is") <| seq blanks <| seq (anyCase "not") <| seq blanks <| seq (anyCase "null") wordEnd
  | .isNull => seq (anyCase "is") <| seq blanks <| seq (anyCase "null") wordEnd
  | .star => text "*"
  | .columnRef => seq (rule .identifier) <| opt (seq (text ".") (rule .identifier))
  | .funcArgs => alt (rule .star) (commaList (rule .expr))
  | .funcCall =>
    seq (rule .identifier) <| seq (text "(") <| seq (opt (word .DISTINCT)) <| seq (opt (rule .funcArgs)) <|
      seq (text ")") <| opt (rule .overClause)
  | .subquery => inParentheses (rule .selectBody)
  | .expr => seq term <| many (seq infixOp term)
  | .overClause =>
    seq (word .OVER) <| seq (text "(") <| seq (opt (rule .partitionClause)) <|
      seq (opt (rule .orderByClause)) <| text ")"
  | .partitionClause => seq (word .PARTITION) <| seq (word .BY) <| commaList (rule .expr)
  | .selectStmt => seq start <| seq (rule .selectBody) <| seq (opt (text ";")) <| rule .endOfInput
  | .selectBody =>
    seq (word .SELECT) <| seq (opt (word .DISTINCT)) <| seq (rule .selectItems) <|
      seq (opt (rule .fromClause)) <| seq (opt (rule .whereClause)) <| seq (opt (rule .groupByClause)) <|
        seq (opt (rule .havingClause)) <| opt (rule .orderByClause)
  | .selectItems => commaList (rule .selectItem)
  | .selectItem => alt (rule .star) <| seq (rule .expr) asName
  | .fromClause => seq (word .FROM) <| commaList (rule .fromItem)
  | .fromItem => seq (rule .tablePrimary) <| many (rule .joinPart)
  | .joinPart =>
    seq (opt (rule .joinKind)) <| seq (word .JOIN) <| seq (rule .tablePrimary) <|
      opt (seq (word .ON) (rule .expr))
  | .joinKind =>
    alt (word .INNER) <| alt (seq (word .LEFT) (opt (word .OUTER))) <|
      alt (seq (word .RIGHT) (opt (word .OUTER))) <| seq (word .FULL) (opt (word .OUTER))
  | .tablePrimary =>
    alt (rule .subquerySource) <| alt (rule .tableSource) <| inParentheses (rule .fromItem)
  | .tableSource => seq (rule .identifier) asName
  | .subquerySource => seq (rule .subquery) asName
  | .whereClause => seq (word .WHERE) (rule .expr)
  | .groupByClause => seq (word .GROUP) <| seq (word .BY) <| commaList (rule .expr)
  | .havingClause => seq (word .HAVING) (rule .expr)
  | .orderByClause => seq (word .ORDER) <| seq (word .BY) <| commaList (rule .orderItem)
  | .orderItem => seq (rule .expr) <| opt (alt (word .ASC) (word .DESC))
  | .typeName =>
    seq (one isLetter) <| seq (many (one isWordChar)) <| opt <|
      seq (text "(") <| seq (atLeastOne (one isDigit)) <|
        seq (opt (seq (text ",") <| seq (many (text " ")) <| atLeastOne (one isDigit))) <| text ")"
  | .columnDef => seq (rule .identifier) (rule .typeName)
  | .columnDefs => commaList (rule .columnDef)
  | .createBody =>
    seq (word .CREATE) <| seq (opt (rule .temporary)) <| seq (word .TABLE) <| seq (rule .identifier) <|
      inParentheses (rule .columnDefs)
  | .createStmt => seq start <| seq (rule .createBody) <| seq (opt (text ";")) <| rule .endOfInput
  | .schema =>
    seq start <| seq (many (seq (rule .createBody) (text ";"))) <| seq (opt (rule .createBody)) <|
      rule .endOfInput
  | .endOfInput => absent anyChar

end Peg

def Rule.isAtomic : Rule → Bool
  | word _ | temporary | bareIdentifier | quotedIdentifier | decimalLiteral | integerLiteral | quotedString
  | isNotNull | isNull | typeName => true
  | _ => false

end QuerySearch.Sql
