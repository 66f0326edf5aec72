import QuerySearch.Proofs.Component.Statement
import QuerySearch.Proofs.Sql.Readers
import QuerySearch.Sql.Printer
import QuerySearch.Sql.Reading

/-! What may stand behind an operand so that the reader of the operand stops there, and names in quotes,
which read back. -/

namespace QuerySearch.Sql

open QuerySearch.Sql.Parser

inductive ClosingWord where
  | asName | source | filter | group | having | order | on | inner | left | right | full | asc | desc
  | partition
  deriving DecidableEq

def ClosingWord.name : ClosingWord → String
  | asName => "as"
  | source => "from"
  | filter => "where"
  | group => "group"
  | having => "having"
  | order => "order"
  | on => "on"
  | inner => "inner"
  | left => "left"
  | right => "right"
  | full => "full"
  | asc => "asc"
  | desc => "desc"
  | partition => "partition"

def ClosingWord.letters : ClosingWord → List Char
  | asName => ['A', 'S']
  | source => ['F', 'R', 'O', 'M']
  | filter => ['W', 'H', 'E', 'R', 'E']
  | group => ['G', 'R', 'O', 'U', 'P']
  | having => ['H', 'A', 'V', 'I', 'N', 'G']
  | order => ['O', 'R', 'D', 'E', 'R']
  | on => ['O', 'N']
  | inner => ['I', 'N', 'N', 'E', 'R']
  | left => ['L', 'E', 'F', 'T']
  | right => ['R', 'I', 'G', 'H', 'T']
  | full => ['F', 'U', 'L', 'L']
  | asc => ['A', 'S', 'C']
  | desc => ['D', 'E', 'S', 'C']
  | partition => ['P', 'A', 'R', 'T', 'I', 'T', 'I', 'O', 'N']

def Infix.text : Infix → String
  | compare op => op.text
  | logic op => op.text

def nullTestLetters (negated : Bool) : List Char :=
  'I' :: 'S' :: ' ' :: if negated then ['N', 'O', 'T', ' ', 'N', 'U', 'L', 'L'] else ['N', 'U', 'L', 'L']

section Signs

theorem ClosingWord.solid (w : ClosingWord) : Solid w.letters := by
  cases w <;> exact fun _ => rfl

theorem Infix.solid (op : Infix) : Solid op.text.toList := by
  cases op with
  | compare op => cases op <;> exact fun _ => rfl
  | logic op => cases op <;> exact fun _ => rfl

theorem infixOp_text (op : Infix) (cs : List Char) :
    infixOp (op.text.toList ++ ' ' :: cs) = some (op, ' ' :: cs) := by
  cases op with
  | compare op => cases op <;> rfl
  | logic op => cases op <;> rfl

theorem solid_nullTestLetters (negated : Bool) : Solid (nullTestLetters negated) := fun _ => rfl

end Signs

def Apart (cs : List Char) : Prop := cs.head?.all fun c => !isWordChar c

inductive Stops : List Char → Prop
  | finish : Stops []
  | comma (cs : List Char) : Stops (',' :: cs)
  | close (cs : List Char) : Stops (')' :: cs)
  | word (w : ClosingWord) {cs : List Char} (h : Apart cs) : Stops (' ' :: (w.letters ++ cs))

inductive Closes (ws : List ClosingWord) : List Char → Prop
  | finish : Closes ws []
  | close (cs : List Char) : Closes ws (')' :: cs)
  | word {w : ClosingWord} (h : w ∈ ws) {cs : List Char} (hcs : Apart cs) :
    Closes ws (' ' :: (w.letters ++ cs))

inductive Follows (ws : List ClosingWord) : List Char → Prop
  | comma (cs : List Char) : Follows ws (',' :: cs)
  | closes {cs : List Char} (h : Closes ws cs) : Follows ws cs

inductive Ends : List Char → Prop
  | stop {cs : List Char} (h : Stops cs) : Ends cs
  | operator (op : Infix) (cs : List Char) : Ends (' ' :: (op.text.toList ++ ' ' :: cs))

inductive Breaks : List Char → Prop
  | ends {cs : List Char} (h : Ends cs) : Breaks cs
  | nullTest (negated : Bool) (cs : List Char) : Breaks (' ' :: (nullTestLetters negated ++ cs))

section Behind

variable {cs u : List Char}

theorem apart_blank (cs : List Char) : Apart (' ' :: cs) := rfl

theorem apart_close (cs : List Char) : Apart (')' :: cs) := rfl

theorem Apart.append (hu : Apart u) (hcs : Apart cs) : Apart (u ++ cs) := by
  cases u with
  | nil => exact hcs
  | cons c u => exact hu

theorem Apart.wordEnd (h : Apart cs) : wordEnd cs = some ((), cs) := by
  cases cs with
  | nil => rfl
  | cons c cs =>
    have hc : isWordChar c = false := by simpa [Apart] using h
    simp [Sql.wordEnd, Parser.absent, item, hc]

theorem Breaks.head (h : Breaks cs) (accepts : Char → Bool) (hb : accepts ' ' = false)
    (hc : accepts ',' = false) (hp : accepts ')' = false) :
    cs.head?.all fun c => !accepts c := by
  cases h with
  | nullTest negated cs => simp [hb]
  | ends h =>
    cases h with
    | operator op cs => simp [hb]
    | stop h =>
      cases h with
      | finish => rfl
      | comma cs => simp [hc]
      | close cs => simp [hp]
      | word w => simp [hb]

theorem Breaks.apart (h : Breaks cs) : Apart cs := h.head isWordChar rfl rfl rfl

theorem Ends.apart (h : Ends cs) : Apart cs := (Breaks.ends h).apart

theorem Stops.apart (h : Stops cs) : Apart cs := (Ends.stop h).apart

theorem Ends.fails {α : Type} {p : Parser α} (h : Ends cs) (hend : p [] = none)
    (hcomma : ∀ cs, p (',' :: cs) = none) (hclose : ∀ cs, p (')' :: cs) = none)
    (hword : ∀ (w : ClosingWord) cs, p (w.letters ++ cs) = none)
    (hcompare : ∀ (op : Comparator) cs, p (op.text.toList ++ ' ' :: cs) = none)
    (hlogic : ∀ (op : Connective) cs, p (op.text.toList ++ ' ' :: cs) = none) :
    p (afterBlanks cs) = none := by
  cases h with
  | stop h =>
    cases h with
    | finish => exact hend
    | comma cs => exact hcomma cs
    | close cs => exact hclose cs
    | word w => rw [w.solid.afterBlank]; exact hword w _
  | operator op cs =>
    rw [op.solid.afterBlank]
    cases op with
    | compare op => exact hcompare op cs
    | logic op => exact hlogic op cs

theorem Breaks.fails {α : Type} {p : Parser α} (h : Breaks cs)
    (hends : ∀ cs, Ends cs → p (afterBlanks cs) = none)
    (htest : ∀ negated cs, p (nullTestLetters negated ++ cs) = none) : p (afterBlanks cs) = none := by
  cases h with
  | ends h => exact hends _ h
  | nullTest negated cs =>
    rw [(solid_nullTestLetters negated).afterBlank]
    exact htest negated cs

theorem Breaks.not_opening (h : Breaks cs) : symbol "(" (afterBlanks cs) = none := by
  apply h.fails _ fun _ _ => rfl
  intro cs h
  apply h.fails rfl (fun _ => rfl) (fun _ => rfl)
  · intro w cs; cases w <;> rfl
  · intro op cs; cases op <;> rfl
  · intro op cs; cases op <;> rfl

theorem Breaks.not_dot (h : Breaks cs) : symbol "." (afterBlanks cs) = none := by
  apply h.fails _ fun _ _ => rfl
  intro cs h
  apply h.fails rfl (fun _ => rfl) (fun _ => rfl)
  · intro w cs; cases w <;> rfl
  · intro op cs; cases op <;> rfl
  · intro op cs; cases op <;> rfl

theorem Breaks.not_over (h : Breaks cs) (inside : Inside) :
    windowClause inside (afterBlanks cs) = none := by
  apply h.fails _ fun _ _ => rfl
  intro cs h
  apply h.fails rfl (fun _ => rfl) (fun _ => rfl)
  · intro w cs; cases w <;> rfl
  · intro op cs; cases op <;> rfl
  · intro op cs; cases op <;> rfl

theorem Ends.not_nullTest (h : Ends cs) : isNullSuffix (afterBlanks cs) = none := by
  apply h.fails rfl (fun _ => rfl) (fun _ => rfl)
  · intro w cs; cases w <;> rfl
  · intro op cs; cases op <;> rfl
  · intro op cs; cases op <;> rfl

theorem isNullSuffix_letters (negated : Bool) (h : Ends cs) :
    isNullSuffix (nullTestLetters negated ++ cs) = some (negated, cs) := by
  have hend := h.apart.wordEnd
  cases negated with
  | true =>
    apply orElse_of_some
    have htest : nullTest ["is", "not", "null"] (nullTestLetters true ++ cs) = some ((), cs) := hend
    rw [bind_of_some htest]
    rfl
  | false =>
    have htest : nullTest ["is", "null"] (nullTestLetters false ++ cs) = some ((), cs) := hend
    rw [isNullSuffix, orElse_of_none rfl, bind_of_some htest]
    rfl

theorem Stops.not_operator (h : Stops cs) : infixOp (afterBlanks cs) = none := by
  cases h with
  | finish => rfl
  | comma cs => rfl
  | close cs => rfl
  | word w => cases w <;> rfl

end Behind

section Closing

variable {w w' : ClosingWord} {ws ws' : List ClosingWord} {cs rest : List Char}

theorem keyword_letters (w : ClosingWord) (h : Apart cs) :
    keyword w.name (w.letters ++ cs) = some ((), cs) := by
  cases w <;> exact h.wordEnd

theorem isWordChar_of_toLower {c : Char} (h : isWordChar c.toLower = true) : isWordChar c = true := by
  unfold Char.toLower at h
  split at h
  next hc =>
    have hupper : isLetter c = true := by simpa [isLetter, Char.le_def] using Or.inr hc
    simp [isWordChar, hupper]
  next => exact h

theorem keyword_asc_none (h : Apart cs) : keyword "asc" ('A' :: 'S' :: cs) = none := by
  cases cs with
  | nil => rfl
  | cons c cs =>
    have hword : isWordChar c = false := by simpa [Apart] using h
    have hc : c.toLower ≠ 'c' := by
      intro heq
      rw [isWordChar_of_toLower (heq ▸ rfl)] at hword
      cases hword
    have hitem : item (·.toLower == 'c') (c :: cs) = none := by simp [item, hc]
    have hletter : letters ['c'] (c :: cs) = none := bind_of_none hitem _
    have hletters : letters ['a', 's', 'c'] ('A' :: 'S' :: c :: cs) = none := hletter
    exact bind_of_none hletters _

theorem keyword_letters_of_ne (hne : w ≠ w') (h : Apart cs) : keyword w.name (w'.letters ++ cs) = none := by
  by_cases hasc : w = .asc ∧ w' = .asName
  · obtain ⟨rfl, rfl⟩ := hasc
    exact keyword_asc_none h
  · cases w <;> cases w' <;> first | rfl | exact absurd rfl hne | exact absurd ⟨rfl, rfl⟩ hasc

theorem identifier_of_keyword {s : String} {x : Unit × List Char} (hs : s ∈ reservedWords)
    (h : keyword s cs = some x) (hquoted : quotedName cs = none) : identifier cs = none := by
  obtain ⟨y, hy⟩ := choice_some (List.mem_map_of_mem (f := keyword) hs) h
  have hreserved : reserved cs = some y := orElse_of_some hy
  have hbare : bareName cs = none := bind_of_none (by simp [Parser.absent, hreserved]) _
  rw [identifier, orElse_of_none (bind_of_none hquoted _), bind_of_none hbare]

theorem identifier_letters (w : ClosingWord) (h : Apart cs) : identifier (w.letters ++ cs) = none :=
  identifier_of_keyword (by cases w <;> decide) (keyword_letters w h) (by cases w <;> rfl)

theorem Closes.stops (h : Closes ws rest) : Stops rest := by
  cases h with
  | finish => exact .finish
  | close cs => exact .close cs
  | word h hcs => exact .word _ hcs

theorem Follows.stops (h : Follows ws rest) : Stops rest := by
  cases h with
  | comma cs => exact .comma cs
  | closes h => exact h.stops

theorem Closes.mono (h : Closes ws rest) (hsub : ws ⊆ ws') : Closes ws' rest := by
  cases h with
  | finish => exact .finish
  | close cs => exact .close cs
  | word h hcs => exact .word (hsub h) hcs

theorem Closes.fails {α : Type} {p : Parser α} (h : Closes ws rest) (hend : p [] = none)
    (hclose : ∀ cs, p (')' :: cs) = none)
    (hword : ∀ w ∈ ws, ∀ cs, Apart cs → p (w.letters ++ cs) = none) : p (afterBlanks rest) = none := by
  cases h with
  | finish => exact hend
  | close cs => exact hclose cs
  | word h hcs =>
    rw [(ClosingWord.solid _).afterBlank]
    exact hword _ h _ hcs

theorem Closes.not_comma (h : Closes ws rest) : symbol "," (afterBlanks rest) = none := by
  apply h.fails rfl (fun _ => rfl)
  intro w _ cs _
  cases w <;> rfl

theorem Closes.not_keyword (h : Closes ws rest) (hw : w ∉ ws) : keyword w.name (afterBlanks rest) = none := by
  apply h.fails
  · cases w <;> rfl
  · intro cs
    cases w <;> rfl
  · intro w' hw' cs hcs
    exact keyword_letters_of_ne (fun heq => hw (heq ▸ hw')) hcs

end Closing

section Names

variable {s : String} {rest : List Char}

theorem toList_quoteName (h : PlainName s) : (quoteName s).toList = '"' :: (s.toList ++ ['"']) := by
  have : ∀ cs : List Char, '"' ∉ cs → (cs.flatMap fun c => if c = '"' then ['"', '"'] else [c]) = cs := by
    intro cs
    induction cs with
    | nil => intro _; rfl
    | cons c cs ih =>
      intro hcs
      simp only [List.mem_cons, not_or] at hcs
      simp [ih hcs.2, Ne.symm hcs.1]
  simp [quoteName, this _ h.2]

theorem quotedName_append (h : PlainName s) (rest : List Char) :
    quotedName ('"' :: (s.toList ++ '"' :: rest)) = some (s.toList, rest) := by
  have hq : symbol "\"" ('"' :: (s.toList ++ '"' :: rest)) = some ((), s.toList ++ '"' :: rest) := rfl
  have hne : s.toList ≠ [] := fun hs => h.1 (String.toList_eq_nil_iff.1 hs)
  have hrun : run1 (· != '"') (s.toList ++ '"' :: rest) = some (s.toList, '"' :: rest) := by
    apply run1_append _ hne rfl
    intro c hc
    exact bne_iff_ne.2 fun heq => h.2 (heq ▸ hc)
  rw [quotedName, bind_of_some hq, bind_of_some hrun]
  rfl

theorem identifier_quoteName (h : PlainName s) (rest : List Char) :
    identifier ((quoteName s).toList ++ rest) = some (s, rest) := by
  have : (quoteName s).toList ++ rest = '"' :: (s.toList ++ '"' :: rest) := by
    simp [toList_quoteName h]
  rw [this]
  apply orElse_of_some
  rw [bind_of_some (quotedName_append h rest)]
  simp [pure_apply]

theorem identifier_none {c : Char} (hq : c ≠ '"') (hl : isLetter c = false) (hu : c ≠ '_')
    (cs : List Char) : identifier (c :: cs) = none := by
  have hquoted : quotedName (c :: cs) = none := by
    apply bind_of_none
    exact exactly_of_ne hq
  have hitem : item (fun c => isLetter c || c == '_') (c :: cs) = none := by
    simp [item, hl, hu]
  have hbare : bareName (c :: cs) = none := by
    cases h : reserved (c :: cs) with
    | none => rw [bareName, bind_of_some (absent_of_none h), bind_of_none hitem]
    | some x => exact bind_of_none (by simp [absent, h]) _
  rw [identifier, orElse_of_none (bind_of_none hquoted _), bind_of_none hbare]

end Names

end QuerySearch.Sql
