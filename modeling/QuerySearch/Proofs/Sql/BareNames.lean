import QuerySearch.Proofs.Sql.Literals

/-! Names without quotes.  A word is read as the name it folds to, unless this is reserved. -/

namespace QuerySearch.Sql

open QuerySearch.Sql.Parser

section Words

variable {t u cs rest : List Char} {w : String}

theorem takeWhile_append (ht : ∀ c ∈ t, isWordChar c = true) (h : Apart rest) :
    (t ++ rest).takeWhile isWordChar = t := by
  have := run_append ht h
  simp only [run, Option.some_inj, Prod.mk.injEq] at this
  exact this.1

theorem word_unique (ht : ∀ c ∈ t, isWordChar c = true) (hrest : Apart rest)
    (hu : ∀ c ∈ u, isWordChar c = true) (hcs : Apart cs) (h : t ++ rest = u ++ cs) : t = u := by
  rw [← takeWhile_append ht hrest, h, takeWhile_append hu hcs]

theorem isWordChar_of_lower {ws : List Char} (h : u.map Char.toLower = ws)
    (hws : ∀ c ∈ ws, isWordChar c = true) : ∀ c ∈ u, isWordChar c = true := by
  subst h
  intro c hc
  exact isWordChar_of_toLower (hws _ (List.mem_map_of_mem hc))

theorem apart_of_wordEnd {x : Unit × List Char} (h : wordEnd cs = some x) : Apart cs := by
  cases cs with
  | nil => rfl
  | cons c cs =>
    by_contra hc
    have hc : isWordChar c = true := by simpa [Apart] using hc
    simp [wordEnd, Parser.absent, item, hc] at h

theorem keyword_some {x : Unit × List Char} (h : keyword w cs = some x) :
    ∃ front mid, front.map Char.toLower = w.toList ∧ front ++ mid = cs ∧ Apart mid := by
  cases hletters : letters w.toList cs with
  | none =>
    rw [keyword, bind_of_none hletters] at h
    cases h
  | some y =>
    obtain ⟨⟨⟩, mid⟩ := y
    rw [keyword, bind_of_some hletters] at h
    obtain ⟨front, hlower, hfront⟩ := letters_some hletters
    exact ⟨front, mid, hlower, hfront, apart_of_wordEnd h⟩

theorem lower_of_keyword {x : Unit × List Char} (ht : ∀ c ∈ t, isWordChar c = true) (hrest : Apart rest)
    (hw : ∀ c ∈ w.toList, isWordChar c = true) (h : keyword w (t ++ rest) = some x) :
    t.map Char.toLower = w.toList := by
  obtain ⟨front, mid, hlower, hfront, hmid⟩ := keyword_some h
  rw [word_unique ht hrest (isWordChar_of_lower hlower hw) hmid hfront.symm, hlower]

theorem BehindName.no_test (h : BehindName rest) {ws : List String}
    (hws : ws = ["not", "null"] ∨ ws = ["null"]) :
    (do let _ ← run1 isBlank; nullTest ws : Parser Unit) rest = none := by
  rcases hws with rfl | rfl
  all_goals cases h with
  | dot cs => rfl
  | opening cs => rfl
  | breaks h =>
    cases h with
    | nullTest negated cs => rfl
    | ends h =>
      cases h with
      | operator op cs =>
        cases op with
        | compare op => cases op <;> rfl
        | logic op => cases op <;> rfl
      | stop h =>
        cases h with
        | finish => rfl
        | comma cs => rfl
        | close cs => rfl
        | word w => cases w <;> rfl

theorem BehindName.apart (h : BehindName rest) : Apart rest := by
  cases h with
  | breaks h => exact h.apart
  | dot cs => rfl
  | opening cs => rfl

theorem nullTest_none (ht : ∀ c ∈ t, isWordChar c = true) (h : BehindName rest) {ws : List String}
    (hws : ws = ["not", "null"] ∨ ws = ["null"]) : nullTest ("is" :: ws) (t ++ rest) = none := by
  have hunfold : nullTest ("is" :: ws) (t ++ rest) =
      (do letters "is".toList; let _ ← run1 isBlank; nullTest ws : Parser Unit) (t ++ rest) := by
    rcases hws with rfl | rfl <;> rfl
  rw [hunfold]
  cases hletters : letters "is".toList (t ++ rest) with
  | none => exact bind_of_none hletters _
  | some y =>
    obtain ⟨⟨⟩, mid⟩ := y
    obtain ⟨front, hlower, hfront⟩ := letters_some hletters
    rw [bind_of_some hletters]
    cases mid with
    | nil => rfl
    | cons c cs =>
      cases hc : isBlank c with
      | false => exact bind_of_none (bind_of_none (by simp [item, hc]) _) _
      | true =>
        have hapart : Apart (c :: cs) := by
          simp only [isBlank, Bool.or_eq_true, beq_iff_eq] at hc
          rcases hc with ((rfl | rfl) | rfl) | rfl <;> rfl
        have hword := isWordChar_of_lower hlower (List.all_eq_true.1 rfl)
        have heq := word_unique ht h.apart hword hapart hfront.symm
        rw [← heq, List.append_cancel_left_eq] at hfront
        rw [hfront]
        exact h.no_test hws

theorem keyword_none (ht : ∀ c ∈ t, isWordChar c = true) (hrest : Apart rest)
    (hname : String.ofList (t.map Char.toLower) ∉ reservedWords) (hw : w ∈ reservedWords) :
    keyword w (t ++ rest) = none := by
  by_contra hsome
  obtain ⟨x, hx⟩ := Option.ne_none_iff_exists'.1 hsome
  have hwords : (reservedWords.all fun w => w.toList.all isWordChar) = true := by decide
  have hword := List.all_eq_true.1 (List.all_eq_true.1 hwords w hw)
  rw [lower_of_keyword ht hrest hword hx, String.ofList_toList] at hname
  exact hname hw

theorem reserved_none (ht : ∀ c ∈ t, isWordChar c = true) (h : BehindName rest)
    (hname : String.ofList (t.map Char.toLower) ∉ reservedWords) : reserved (t ++ rest) = none := by
  have hkeywords : choice (reservedWords.map keyword) (t ++ rest) = none := by
    apply choice_eq_none.2
    simp only [List.mem_map, forall_exists_index, and_imp]
    rintro p w hw rfl
    exact keyword_none ht h.apart hname hw
  have htest : isNullSuffix (t ++ rest) = none := by
    rw [isNullSuffix, orElse_of_none (bind_of_none (nullTest_none ht h (.inl rfl)) _)]
    exact bind_of_none (nullTest_none ht h (.inr rfl)) _
  rw [reserved, orElse_of_none hkeywords]
  exact bind_of_none htest _

end Words

section Names

variable {t rest : List Char} {c : Char}

theorem first_cases (h : (isLetter c || c == '_') = true) :
    isWordChar c = true ∧ isBlank c = false ∧ isDigit c = false ∧ c ∉ ['-', '"', '\'', '('] := by
  have hne (d : Char) (hd : (isLetter d || d == '_') = false) : c ≠ d := by
    rintro rfl
    rw [h] at hd
    cases hd
  refine ⟨?_, ?_, ?_, ?_⟩
  · simp only [Bool.or_eq_true] at h
    rcases h with h | h <;> simp [isWordChar, h]
  · simp [isBlank, hne ' ' rfl, hne '\t' rfl, hne '\r' rfl, hne '\n' rfl]
  · rw [← Bool.not_eq_true]
    intro hdigit
    rcases digit_cases hdigit with rfl | rfl | rfl | rfl | rfl | rfl | rfl | rfl | rfl | rfl <;> cases h
  · simp [hne '-' rfl, hne '"' rfl, hne '\'' rfl, hne '(' rfl]

theorem nameText_bare {s : String} (hc : (isLetter c || c == '_') = true) (ht : ∀ d ∈ t, isWordChar d = true)
    (hlower : (c :: t).map Char.toLower = s.toList) (hs : s ∉ reservedWords) : NameText (c :: t) s := by
  obtain ⟨hword, hblank, hdigit, hsign⟩ := first_cases hc
  simp only [List.mem_cons, List.not_mem_nil, or_false, not_or] at hsign
  obtain ⟨hminus, hquote, htick, hopen⟩ := hsign
  have hchars : ∀ d ∈ c :: t, isWordChar d = true := by
    intro d hd
    cases hd with
    | head => exact hword
    | tail _ hd => exact ht d hd
  have hfold : String.ofList ((c :: t).map Char.toLower) = s := by rw [hlower, String.ofList_toList]
  have hname : String.ofList ((c :: t).map Char.toLower) ∉ reservedWords := hfold ▸ hs
  have hkeyword (w : String) (hw : w ∈ reservedWords) (cs : List Char) (hcs : Apart cs) :
      keyword w (c :: t ++ cs) = none := keyword_none hchars hcs hname hw
  have hnumeral (cs : List Char) : numeral (c :: t ++ cs) = none := by
    have hsign : reads (symbol "-") (c :: t ++ cs) = some (false, c :: t ++ cs) :=
      reads_of_none (exactly_of_ne hminus)
    rw [numeral, bind_of_some hsign]
    exact bind_of_none (bind_of_none (by simp [item, hdigit]) _) _
  refine ⟨⟨⟨.cons hblank hminus t, ?_, ?_⟩, ?_⟩, ?_, ?_, fun _ => exactly_of_ne hopen⟩
  · exact hkeyword "distinct" (by decide)
  · exact hkeyword "select" (by decide)
  · exact hkeyword "not" (by decide)
  · intro rest hrest
    have hbare : bareName (c :: t ++ rest) = some (c :: t, rest) := by
      have hitem : item (fun c => isLetter c || c == '_') (c :: (t ++ rest)) = some (c, t ++ rest) := by
        simp only [item, hc, if_true]
      rw [bareName, bind_of_some (absent_of_none (reserved_none hchars hrest hname)), List.cons_append,
        bind_of_some hitem, bind_of_some (run_append ht hrest.apart)]
      rfl
    have hquoted : quotedName (c :: t ++ rest) = none := bind_of_none (exactly_of_ne hquote) _
    rw [identifier, orElse_of_none (bind_of_none hquoted _), bind_of_some hbare, hfold]
    rfl
  · intro rest hrest
    have hdecimal : decimalLiteral (c :: t ++ rest) = none := bind_of_none (hnumeral rest) _
    have hinteger : integerLiteral (c :: t ++ rest) = none := bind_of_none (hnumeral rest) _
    rw [literal, choice_of_none (bind_of_none (hkeyword "null" (by decide) rest hrest) _),
      choice_of_none (bind_of_none (hkeyword "true" (by decide) rest hrest) _),
      choice_of_none (bind_of_none (hkeyword "false" (by decide) rest hrest) _),
      choice_of_none hdecimal, choice_of_none hinteger]
    exact choice_of_none (bind_of_none (exactly_of_ne htick) _)

def capitals : AggFunc → List Char
  | .count => ['C', 'O', 'U', 'N', 'T']
  | .sum => ['S', 'U', 'M']
  | .avg => ['A', 'V', 'G']
  | .max => ['M', 'A', 'X']
  | .min => ['M', 'I', 'N']
  | .bitAnd => ['B', 'I', 'T', '_', 'A', 'N', 'D']
  | .bitOr => ['B', 'I', 'T', '_', 'O', 'R']

theorem toList_aggFunc (f : AggFunc) : f.text.toList = capitals f := by
  cases f <;> simp [AggFunc.text, AggFunc.name, capitals, String.toUpper]

theorem nameText_aggFunc (f : AggFunc) : NameText f.text.toList f.name := by
  rw [toList_aggFunc]
  cases f <;> exact nameText_bare rfl (List.all_eq_true.1 rfl) (by decide) (by decide)

theorem toList_windowFunc (f : WindowFunc) :
    f.text.toList = ['D', 'E', 'N', 'S', 'E', '_', 'R', 'A', 'N', 'K'] := by
  cases f
  simp [WindowFunc.text, WindowFunc.name, String.toUpper]

theorem nameText_windowFunc (f : WindowFunc) : NameText f.text.toList f.name := by
  rw [toList_windowFunc]
  cases f
  exact nameText_bare rfl (List.all_eq_true.1 rfl) (by decide) (by decide)

end Names

end QuerySearch.Sql
