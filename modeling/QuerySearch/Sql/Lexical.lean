import QuerySearch.Sql.Parser
import QuerySearch.Sql.Syntax

/-! Words, names and literals.  A keyword ends at a word boundary, a bare name is a word that is not
reserved, and a quoted name keeps its case. -/

namespace QuerySearch.Sql

open QuerySearch.Sql.Parser

def isDigit (c : Char) : Bool := '0' ≤ c && c ≤ '9'

def isLetter (c : Char) : Bool := ('a' ≤ c && c ≤ 'z') || ('A' ≤ c && c ≤ 'Z')

def isWordChar (c : Char) : Bool := isLetter c || isDigit c || c == '_'

def wordEnd : Parser Unit := absent (item isWordChar)

def keyword (w : String) : Parser Unit := do
  letters w.toList
  wordEnd

def reservedWords : List String :=
  ["select", "distinct", "from", "where", "group", "by", "having", "order", "as", "on", "join",
    "inner", "left", "right", "full", "outer", "asc", "desc", "over", "partition", "create", "table",
    "limit", "and", "or", "not", "null", "true", "false"]

/-- The words of a null test.  Only blanks stand between them, no comments. -/
def nullTest : List String → Parser Unit
  | [] => failure
  | [w] => keyword w
  | w :: ws => do
    letters w.toList
    let _ ← run1 isBlank
    nullTest ws

def isNullSuffix : Parser Bool :=
  (do nullTest ["is", "not", "null"]; return true) <|> (do nullTest ["is", "null"]; return false)

def reserved : Parser Unit :=
  choice (reservedWords.map keyword) <|> (do let _ ← isNullSuffix)

def bareName : Parser (List Char) := do
  absent reserved
  let c ← item fun c => isLetter c || c == '_'
  return c :: (← run isWordChar)

def quotedName : Parser (List Char) := do
  symbol "\""
  let cs ← run1 (· != '"')
  symbol "\""
  return cs

/-- The name that is meant: a bare one folds to small letters. -/
def identifier : Parser String :=
  (do return String.ofList (← quotedName)) <|>
    (do return String.ofList ((← bareName).map Char.toLower))

def numeral : Parser (Bool × List Char) := do
  let negative ← reads (symbol "-")
  return (negative, ← run1 isDigit)

def decimalLiteral : Parser Literal := do
  let (negative, whole) ← numeral
  symbol "."
  return .decimal negative whole (← run1 isDigit)

def integerLiteral : Parser Literal := do
  let (negative, digits) ← numeral
  return .integer negative digits

def quotedText : Parser (List Char)
  | [] => none
  | '\'' :: '\'' :: cs => (quotedText cs).map fun (t, rest) => ('\'' :: t, rest)
  | '\'' :: cs => some ([], cs)
  | c :: cs => (quotedText cs).map fun (t, rest) => (c :: t, rest)

def textLiteral : Parser Literal := do
  symbol "'"
  return .str (String.ofList (← quotedText))

def literal : Parser Literal :=
  choice
    [(do keyword "null"; return .null),
     (do keyword "true"; return .bool true),
     (do keyword "false"; return .bool false),
     decimalLiteral, integerLiteral, textLiteral]

def columnRef : Parser ColumnRef := do
  let first ← identifier
  skip
  match ← optional (do symbol "."; skip; identifier) with
  | some name => return ⟨some first, name⟩
  | none => return ⟨none, first⟩

def typeName : Parser (List Char) := do
  let c ← item isLetter
  let cs ← run isWordChar
  let sizes ← optional do
    symbol "("
    let first ← run1 isDigit
    let second ← optional do
      symbol ","
      return ',' :: (← run (· == ' ')) ++ (← run1 isDigit)
    symbol ")"
    return '(' :: first ++ second.getD [] ++ [')']
  return c :: cs ++ sizes.getD []

end QuerySearch.Sql
