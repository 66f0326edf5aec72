/-! Readers of the front of a text.  A reader gives what it read together with the rest of the text,
or fails; a choice falls back to its second reader at the place where the first one started.  Blanks
and comments are passed over by `skip`, which the grammar puts between its parts. -/

namespace QuerySearch.Sql

abbrev Parser := StateT (List Char) Option

namespace Parser

def item (accepts : Char → Bool) : Parser Char
  | [] => none
  | c :: cs => if accepts c then some (c, cs) else none

def run (accepts : Char → Bool) : Parser (List Char) :=
  fun cs => some (cs.takeWhile accepts, cs.dropWhile accepts)

def run1 (accepts : Char → Bool) : Parser (List Char) := do
  let c ← item accepts
  return c :: (← run accepts)

def exactly : List Char → Parser Unit
  | [] => pure ()
  | c :: cs => do
    let _ ← item (· == c)
    exactly cs

def symbol (s : String) : Parser Unit := exactly s.toList

def letters : List Char → Parser Unit
  | [] => pure ()
  | c :: cs => do
    let _ ← item (·.toLower == c)
    letters cs

def absent (p : Parser α) : Parser Unit := fun cs =>
  match p cs with
  | none => some ((), cs)
  | some _ => none

def reads (p : Parser α) : Parser Bool := do return (← optional p).isSome

def choice : List (Parser α) → Parser α
  | [] => failure
  | p :: ps => p <|> choice ps

def repeatedUpTo (p : Parser α) : (fuel : Nat) → Parser (List α)
  | 0 => pure []
  | n + 1 => (do
      let a ← p
      return a :: (← repeatedUpTo p n)) <|> pure []

/-- Reads with `p` until it fails.  Every reading takes at least one character, so the length of the
text bounds their number. -/
def repeated (p : Parser α) : Parser (List α) := fun cs => repeatedUpTo p cs.length cs

def isBlank (c : Char) : Bool := c == ' ' || c == '\t' || c == '\r' || c == '\n'

mutual

def afterBlanks : List Char → List Char
  | [] => []
  | '-' :: '-' :: cs => afterComment cs
  | c :: cs => if isBlank c then afterBlanks cs else c :: cs

def afterComment : List Char → List Char
  | [] => []
  | '\n' :: cs => afterBlanks cs
  | _ :: cs => afterComment cs

end

def skip : Parser Unit := fun cs => some ((), afterBlanks cs)

def spaced (p : Parser α) : Parser (List α) :=
  (do
    let a ← p
    return a :: (← repeated (do skip; p))) <|> pure []

def commaSeparated (p : Parser α) : Parser (List α) := do
  let a ← p
  skip
  return a :: (← spaced (do symbol ","; skip; p))

def ending : Parser Unit
  | [] => some ((), [])
  | _ :: _ => none

def matched (p : Parser α) (text : String) : Option (String × α) :=
  (p text.toList).map fun (a, rest) =>
    (String.ofList (text.toList.take (text.toList.length - rest.length)), a)

def whole (p : Parser α) (text : String) : Option α :=
  ((do let a ← p; ending; return a : Parser α) text.toList).map (·.1)

end Parser

end QuerySearch.Sql
