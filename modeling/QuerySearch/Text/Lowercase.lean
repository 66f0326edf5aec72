import QuerySearch.Text.CaseTable

/-! Lower case over all of Unicode.  Every letter is mapped by itself, but for the capital sigma, whose
small form is another one at the end of a word. -/

namespace QuerySearch.Text

def inRanges (ranges : List (Nat × Nat)) (c : Char) : Bool :=
  ranges.any fun (first, last) => decide (first ≤ c.toNat) && decide (c.toNat ≤ last)

def isCased (c : Char) : Bool := inRanges casedRanges c

def isCaseIgnorable (c : Char) : Bool := inRanges caseIgnorableRanges c

def smallForm (c : Char) : List Char :=
  if c.toNat < 128 then [c.toLower]
  else if c = '\u0130' then ['i', '\u0307']
  else match lowercaseRuns.find? (·.covers c.toNat) with
    | some run => [Char.ofNat ((c.toNat : Int) + run.shift).toNat]
    | none => [c]

def startsCased (cs : List Char) : Bool :=
  match cs.dropWhile isCaseIgnorable with
  | [] => false
  | c :: _ => isCased c

/-- `before` holds the characters passed so far, the nearest first. -/
def lowercaseFrom (before : List Char) : List Char → List Char
  | [] => []
  | c :: cs =>
    (if c = 'Σ' then (if startsCased before && !startsCased cs then ['ς'] else ['σ'])
      else smallForm c) ++ lowercaseFrom (c :: before) cs

def lowercase (s : String) : String :=
  if s.all fun c => decide (c.toNat < 128) then s.toLower
  else String.ofList (lowercaseFrom [] s.toList)

end QuerySearch.Text
