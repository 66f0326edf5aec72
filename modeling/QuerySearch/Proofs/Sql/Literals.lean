import QuerySearch.Proofs.Number.Shortest
import QuerySearch.Proofs.Sql.Operands

/-! Reading literals from the texts of their values: numbers, texts in quotes, and the words for truth
values and null. -/

namespace QuerySearch.Sql

open QuerySearch.Sql.Parser

structure LiteralText (t : List Char) (l : Literal) : Prop where
  front : OperandFront t
  no_name : ∀ rest, Apart rest → identifier (t ++ rest) = none
  literal : ∀ rest, Breaks rest → literal (t ++ rest) = some (l, rest)

theorem LiteralText.operand {inside : Inside} {t : List Char} {l : Literal} (h : LiteralText t l) :
    Operand inside t (.constant l) :=
  ⟨h.front, fun rest hb => .of_eq (primary_of_literal (h.no_name rest hb.apart) (h.literal rest hb))⟩

section Digits

variable {ds rest : List Char} {c : Char}

theorem isDigit_iff (c : Char) : isDigit c = true ↔ c.isDigit = true := by
  simp [Char.isDigit, isDigit, Char.le_def]

theorem isDigit_of_mem_toDigits {n : Nat} {d : Char} (h : d ∈ Nat.toDigits 10 n) : isDigit d = true :=
  (isDigit_iff d).2 (Nat.isDigit_of_mem_toDigits (by decide) (by decide) h)

theorem digit_cases {d : Char} (h : isDigit d = true) :
    d = '0' ∨ d = '1' ∨ d = '2' ∨ d = '3' ∨ d = '4' ∨ d = '5' ∨ d = '6' ∨ d = '7' ∨ d = '8' ∨
      d = '9' := by
  simp only [isDigit, Bool.and_eq_true, decide_eq_true_eq, Char.le_def, UInt32.le_iff_toNat_le] at h
  simp only [Char.ext_iff, ← UInt32.toNat_inj]
  change 48 ≤ d.val.toNat ∧ d.val.toNat ≤ 57 at h
  change d.val.toNat = 48 ∨ d.val.toNat = 49 ∨ d.val.toNat = 50 ∨ d.val.toNat = 51 ∨
    d.val.toNat = 52 ∨ d.val.toNat = 53 ∨ d.val.toNat = 54 ∨ d.val.toNat = 55 ∨
    d.val.toNat = 56 ∨ d.val.toNat = 57
  omega

def signText (negative : Bool) : List Char := if negative then ['-'] else []

theorem numeral_append (negative : Bool) (h : ∀ d ∈ ds, isDigit d = true) (hne : ds ≠ [])
    (hr : rest.head?.all fun c => !isDigit c) :
    numeral (signText negative ++ (ds ++ rest)) = some ((negative, ds), rest) := by
  have hrun : run1 isDigit (ds ++ rest) = some (ds, rest) := run1_append h hne hr
  have hsign : reads (symbol "-") (signText negative ++ (ds ++ rest)) =
      some (negative, ds ++ rest) := by
    cases negative with
    | true => rfl
    | false =>
      apply reads_of_none
      cases ds with
      | nil => exact absurd rfl hne
      | cons d ds =>
        rcases digit_cases (h d (.head _)) with
          rfl | rfl | rfl | rfl | rfl | rfl | rfl | rfl | rfl | rfl <;> rfl
  rw [numeral, bind_of_some hsign, bind_of_some hrun]
  rfl

theorem no_word_at_number (hc : c = '-' ∨ isDigit c = true) (cs : List Char) : identifier (c :: cs) = none ∧
    ∀ w ∈ ["distinct", "select", "not", "null", "true", "false"], keyword w (c :: cs) = none := by
  simp only [List.mem_cons, List.not_mem_nil, or_false, forall_eq_or_imp, forall_eq]
  rcases hc with rfl | hc
  · exact ⟨identifier_none (by decide) rfl (by decide) _, rfl, rfl, rfl, rfl, rfl, rfl⟩
  · rcases digit_cases hc with rfl | rfl | rfl | rfl | rfl | rfl | rfl | rfl | rfl | rfl <;>
      exact ⟨identifier_none (by decide) rfl (by decide) _, rfl, rfl, rfl, rfl, rfl, rfl⟩

theorem solid_number (negative : Bool) (h : ∀ d ∈ ds, isDigit d = true) (hne : ds ≠ []) :
    Solid (signText negative ++ ds) := by
  cases ds with
  | nil => exact absurd rfl hne
  | cons d ds =>
    have hd := h d (.head _)
    have hminus : d ≠ '-' := by rintro rfl; cases hd
    have hblank : isBlank d = false := by
      rcases digit_cases hd with rfl | rfl | rfl | rfl | rfl | rfl | rfl | rfl | rfl | rfl <;> rfl
    cases negative with
    | true => exact .minus hminus ds
    | false => exact .cons hblank hminus ds

theorem literalText_number (negative : Bool) (h : ∀ d ∈ ds, isDigit d = true) (hne : ds ≠ []) (u : List Char)
    {l : Literal} (hnumber : ∀ rest, Breaks rest →
      choice [decimalLiteral, integerLiteral, textLiteral] (signText negative ++ (ds ++ (u ++ rest))) =
        some (l, rest)) : LiteralText (signText negative ++ (ds ++ u)) l := by
  obtain ⟨c, cs, htext, hc⟩ : ∃ c cs, signText negative ++ ds = c :: cs ∧ (c = '-' ∨ isDigit c = true) := by
    cases negative with
    | true => exact ⟨'-', ds, rfl, .inl rfl⟩
    | false =>
      obtain ⟨d, ds, rfl⟩ := List.exists_cons_of_ne_nil hne
      exact ⟨d, ds, rfl, .inr (h d (.head _))⟩
  have hsolid := (solid_number negative h hne).append u
  have happend (rest : List Char) : signText negative ++ (ds ++ (u ++ rest)) = c :: (cs ++ (u ++ rest)) := by
    rw [← List.append_assoc, htext, List.cons_append]
  rw [htext, List.cons_append] at hsolid
  rw [← List.append_assoc, htext, List.cons_append]
  refine ⟨⟨⟨hsolid, ?_, ?_⟩, ?_⟩, ?_, ?_⟩
  · exact fun _ _ => (no_word_at_number hc _).2 _ (by simp)
  · exact fun _ _ => (no_word_at_number hc _).2 _ (by simp)
  · exact fun _ _ => (no_word_at_number hc _).2 _ (by simp)
  · exact fun _ _ => (no_word_at_number hc _).1
  · intro rest hb
    obtain ⟨-, hword⟩ := no_word_at_number hc (cs ++ (u ++ rest))
    rw [List.cons_append, List.append_assoc, Sql.literal,
      choice_of_none (bind_of_none (hword "null" (by simp)) _),
      choice_of_none (bind_of_none (hword "true" (by simp)) _),
      choice_of_none (bind_of_none (hword "false" (by simp)) _), ← happend rest]
    exact hnumber rest hb

theorem literalText_integer (negative : Bool) (h : ∀ d ∈ ds, isDigit d = true) (hne : ds ≠ []) :
    LiteralText (signText negative ++ ds) (.integer negative ds) := by
  have hnumber : LiteralText (signText negative ++ (ds ++ [])) (.integer negative ds) := by
    refine literalText_number negative h hne [] fun rest hb => ?_
    have hnum := numeral_append negative h hne (hb.head isDigit rfl rfl rfl)
    have hdot : symbol "." rest = none := by
      have hhead := hb.head (· == '.') rfl rfl rfl
      cases rest with
      | nil => rfl
      | cons c cs =>
        have hc : c ≠ '.' := by simpa using hhead
        exact exactly_of_ne hc
    have hdecimal : decimalLiteral (signText negative ++ (ds ++ rest)) = none := by
      rw [decimalLiteral, bind_of_some hnum]
      exact bind_of_none hdot _
    rw [List.nil_append, choice_of_none hdecimal]
    apply choice_of_some
    rw [integerLiteral, bind_of_some hnum]
    rfl
  rwa [List.append_nil] at hnumber

theorem literalText_decimal (negative : Bool) {whole fraction : List Char} (hwhole : whole ≠ [])
    (hfraction : fraction ≠ []) (h : ∀ d ∈ whole ++ fraction, isDigit d = true) :
    LiteralText (signText negative ++ (whole ++ '.' :: fraction)) (.decimal negative whole fraction) := by
  have hdigits : ∀ d ∈ whole, isDigit d = true := fun d hd => h d (List.mem_append_left _ hd)
  refine literalText_number negative hdigits hwhole _ fun rest hb => ?_
  have hnum : numeral (signText negative ++ (whole ++ '.' :: (fraction ++ rest))) =
      some ((negative, whole), '.' :: (fraction ++ rest)) := numeral_append negative hdigits hwhole rfl
  have hdot : symbol "." ('.' :: (fraction ++ rest)) = some ((), fraction ++ rest) := rfl
  have hrun : run1 isDigit (fraction ++ rest) = some (fraction, rest) :=
    run1_append (fun d hd => h d (List.mem_append_right _ hd)) hfraction (hb.head isDigit rfl rfl rfl)
  apply choice_of_some
  rw [List.cons_append, decimalLiteral, bind_of_some hnum]
  apply (bind_of_some hdot _).trans
  rw [bind_of_some hrun]
  rfl

end Digits

section Texts

variable {rest : List Char}

theorem quotedText_append (s : List Char) (h : rest.head?.all fun c => !(c == '\'')) :
    quotedText ((s.flatMap fun c => if c = '\'' then ['\'', '\''] else [c]) ++ '\'' :: rest) =
      some (s, rest) := by
  induction s with
  | nil =>
    cases rest with
    | nil => rfl
    | cons c cs =>
      have : c ≠ '\'' := by simpa using h
      simp [quotedText, this]
  | cons c cs ih =>
    by_cases hc : c = '\''
    · subst hc
      simp [quotedText, ih]
    · simp [hc, quotedText, ih]

theorem toList_quoteText (s : String) : (quoteText s).toList =
    '\'' :: ((s.toList.flatMap fun c => if c = '\'' then ['\'', '\''] else [c]) ++ ['\'']) := by
  simp [quoteText]

theorem literal_quoteText (s : String) (h : rest.head?.all fun c => !(c == '\'')) :
    literal ((quoteText s).toList ++ rest) = some (.str s, rest) := by
  have hquote (cs : List Char) : symbol "'" ('\'' :: cs) = some ((), cs) := rfl
  rw [toList_quoteText]
  simp only [List.cons_append, List.append_assoc, List.nil_append]
  rw [literal, choice_of_none rfl, choice_of_none rfl, choice_of_none rfl, choice_of_none rfl,
    choice_of_none rfl]
  apply choice_of_some
  rw [textLiteral, bind_of_some (hquote _), bind_of_some (quotedText_append s.toList h)]
  simp [pure_apply]

theorem literalText_quoteText (s : String) : LiteralText (quoteText s).toList (.str s) := by
  refine ⟨?_, ?_, fun rest hb => literal_quoteText s (hb.head (· == '\'') rfl rfl rfl)⟩
  · rw [toList_quoteText]
    exact ⟨⟨.cons rfl (by decide) _, fun _ _ => rfl, fun _ _ => rfl⟩, fun _ _ => rfl⟩
  · rw [toList_quoteText]
    exact fun _ _ => identifier_none (by decide) rfl (by decide) _

theorem literalText_null : LiteralText ['N', 'U', 'L', 'L'] .null := by
  have hkeyword (rest : List Char) (h : Apart rest) :
      keyword "null" (['N', 'U', 'L', 'L'] ++ rest) = some ((), rest) := h.wordEnd
  refine ⟨⟨⟨fun _ => rfl, fun _ _ => rfl, fun _ _ => rfl⟩, fun _ _ => rfl⟩, ?_, ?_⟩
  · exact fun rest h => identifier_of_keyword (by decide) (hkeyword rest h) rfl
  · intro rest hb
    rw [literal]
    exact choice_of_some (bind_of_some (hkeyword rest hb.apart) _)

def boolLetters (b : Bool) : List Char := if b then ['T', 'R', 'U', 'E'] else ['F', 'A', 'L', 'S', 'E']

theorem literalText_bool (b : Bool) : LiteralText (boolLetters b) (.bool b) := by
  have htrue (rest : List Char) (h : Apart rest) :
      keyword "true" (boolLetters true ++ rest) = some ((), rest) := h.wordEnd
  have hfalse (rest : List Char) (h : Apart rest) :
      keyword "false" (boolLetters false ++ rest) = some ((), rest) := h.wordEnd
  cases b with
  | true =>
    refine ⟨⟨⟨fun _ => rfl, fun _ _ => rfl, fun _ _ => rfl⟩, fun _ _ => rfl⟩, ?_, ?_⟩
    · exact fun rest h => identifier_of_keyword (by decide) (htrue rest h) rfl
    · intro rest hb
      rw [literal, choice_of_none rfl]
      exact choice_of_some (bind_of_some (htrue rest hb.apart) _)
  | false =>
    refine ⟨⟨⟨fun _ => rfl, fun _ _ => rfl, fun _ _ => rfl⟩, fun _ _ => rfl⟩, ?_, ?_⟩
    · exact fun rest h => identifier_of_keyword (by decide) (hfalse rest h) rfl
    · intro rest hb
      rw [literal, choice_of_none rfl, choice_of_none rfl]
      exact choice_of_some (bind_of_some (hfalse rest hb.apart) _)

end Texts

section Values

theorem toList_toString_int (v : Int) :
    (toString v).toList = signText (decide (v < 0)) ++ Nat.toDigits 10 v.natAbs := by
  cases v with
  | ofNat n => simp [toString, Int.repr, signText]
  | negSucc n => simp [toString, Int.repr, signText, Int.negSucc_lt_zero]

def writtenInteger (v : Int64) : Literal :=
  .integer (decide (v.toInt < 0)) (Nat.toDigits 10 v.toInt.natAbs)

theorem literalText_writtenInteger (v : Int64) :
    LiteralText (toString v.toInt).toList (writtenInteger v) := by
  rw [toList_toString_int]
  exact literalText_integer _ (fun d hd => isDigit_of_mem_toDigits hd) Nat.toDigits_ne_nil

theorem value_writtenInteger (v : Int64) : (writtenInteger v).value = .ok (.int v) := by
  have hsigned : signed (decide (v.toInt < 0)) (Decimal.readDigits (Nat.toDigits 10 v.toInt.natAbs)) =
      v.toInt := by
    rw [Decimal.readDigits_toDigits, signed]
    split
    · rename_i h
      have := of_decide_eq_true h
      omega
    · rename_i h
      have : ¬v.toInt < 0 := by simpa using h
      omega
  simp only [writtenInteger, Literal.value, hsigned]
  rw [if_pos ⟨v.minValue_le_toInt, v.toInt_le⟩, Int64.ofInt_toInt]

def Constant.Legible : Constant → Prop
  | .real v => '.' ∈ (v.text .plain).toList
  | _ => True

def Constant.Finite : Constant → Prop
  | .real v => v.isFinite = true
  | _ => True

theorem Constant.Legible.literalText {c : Constant} (h : c.Legible) (hfinite : c.Finite) :
    ∃ l, LiteralText c.text.toList l ∧ l.value = .ok c := by
  cases c with
  | null => exact ⟨.null, by simpa [Constant.text] using literalText_null, rfl⟩
  | bool b =>
    refine ⟨.bool b, ?_, rfl⟩
    have htext : (Constant.bool b).text.toList = boolLetters b := by
      cases b <;> simp [Constant.text, boolLetters]
    rw [htext]
    exact literalText_bool b
  | int v => exact ⟨writtenInteger v, literalText_writtenInteger v, value_writtenInteger v⟩
  | str s => exact ⟨.str s, literalText_quoteText s, rfl⟩
  | real v =>
    obtain ⟨whole, fraction, htext, hwhole, hfraction, hdigits, hvalue⟩ := Binary64.text_point hfinite h
    refine ⟨.decimal v.isNegative whole fraction, ?_, ?_⟩
    · rw [Constant.text, htext]
      exact literalText_decimal _ hwhole hfraction fun d hd => (isDigit_iff d).2 (hdigits d hd)
    · have hfinite : v.isFinite = true := hfinite
      simp only [Literal.value, hvalue, if_pos hfinite]

end Values

end QuerySearch.Sql
