import QuerySearch.Proofs.Sql.BareNames
import QuerySearch.Proofs.Sql.Quotes

/-! The texts at which a name without quotes stands.  A reserved word is told by the leading word of the
text alone, whatever stands behind it; only a null test looks further, over the blanks between its words. -/

namespace QuerySearch.Sql

open QuerySearch.Sql.Parser QuerySearch.Sql.Peg

def leadingWord (cs : List Char) : List Char := cs.takeWhile isWordChar

/-- The text starts with these words, in either case, with nothing but blanks between them, and the last
one does not go on. -/
inductive Begins : List String → List Char → Prop
  | word {w : String} {front rest : List Char} (hw : front.map Char.toLower = w.toList) (hrest : Apart rest) :
    Begins [w] (front ++ rest)
  | blanks {w : String} {ws : List String} {front blanks rest : List Char}
    (hw : front.map Char.toLower = w.toList) (hne : blanks ≠ []) (hblanks : ∀ c ∈ blanks, isBlank c = true)
    (h : Begins ws rest) : Begins (w :: ws) (front ++ (blanks ++ rest))

/-- The texts that start with a name without quotes. -/
structure StartsName (cs : List Char) : Prop where
  first : cs.head?.any fun c => isLetter c || c == '_'
  unreserved : String.ofList ((leadingWord cs).map Char.toLower) ∉ reservedWords
  not_null : ¬ Begins ["is", "null"] cs
  not_notNull : ¬ Begins ["is", "not", "null"] cs

def Spelled (w : String) : Prop := w ≠ "" ∧ ∀ c ∈ w.toList, isWordChar c = true

section Words

variable {w : String} {ws : List String} {cs front : List Char}

theorem apart_dropWhile (cs : List Char) : Apart (cs.dropWhile isWordChar) := by
  have := List.head?_dropWhile_not isWordChar cs
  rw [Apart]
  cases h : (cs.dropWhile isWordChar).head? <;> simp_all

theorem isBlank_of_isWordChar {c : Char} (h : isWordChar c = true) : isBlank c = false := by
  rw [← Bool.not_eq_true]
  intro hblank
  simp only [isBlank, Bool.or_eq_true, beq_iff_eq] at hblank
  obtain ((rfl | rfl) | rfl) | rfl := hblank <;> cases h

theorem Spelled.head (hw : Spelled w) (hfront : front.map Char.toLower = w.toList) (rest : List Char) :
    (front ++ rest).head?.all fun c => !isBlank c := by
  cases front with
  | nil => exact absurd (String.toList_eq_nil_iff.1 hfront.symm) hw.1
  | cons c front =>
    have hc := isWordChar_of_lower hfront hw.2 c (.head front)
    simp [isBlank_of_isWordChar hc]

theorem Begins.head (h : Begins ws cs) (hws : ∀ w ∈ ws, Spelled w) : cs.head?.all fun c => !isBlank c := by
  cases h with
  | word hw hrest => exact (hws _ (.head _)).head hw _
  | blanks hw hne hblanks h => exact (hws _ (.head _)).head hw _

theorem begins_word (hw : ∀ c ∈ w.toList, isWordChar c = true) :
    Begins [w] cs ↔ String.ofList ((leadingWord cs).map Char.toLower) = w := by
  rw [← String.toList_inj, String.toList_ofList]
  constructor
  · intro h
    cases h with
    | word hfront hrest => rw [leadingWord, takeWhile_append (isWordChar_of_lower hfront hw) hrest, hfront]
    | blanks hfront hne hblanks h => cases h
  · intro h
    have hbegins := Begins.word h (apart_dropWhile cs)
    rwa [leadingWord, List.takeWhile_append_dropWhile] at hbegins

theorem begins_of_nullTest {x : Unit × List Char} (h : nullTest ws cs = some x) : Begins ws cs := by
  fun_induction nullTest ws generalizing cs with
  | case1 => cases h
  | case2 w =>
    obtain ⟨front, mid, hlower, rfl, hmid⟩ := keyword_some h
    exact .word hlower hmid
  | case3 w ws hws ih =>
    cases hletters : letters w.toList cs with
    | none =>
      rw [bind_of_none hletters] at h
      cases h
    | some y =>
      obtain ⟨⟨⟩, mid⟩ := y
      rw [bind_of_some hletters] at h
      obtain ⟨front, hlower, rfl⟩ := letters_some hletters
      cases hrun : run1 isBlank mid with
      | none =>
        rw [bind_of_none hrun] at h
        cases h
      | some z =>
        obtain ⟨blanks, rest⟩ := z
        rw [bind_of_some hrun] at h
        obtain ⟨hne, hblanks, rfl⟩ := run1_some hrun
        exact .blanks hlower hne hblanks (ih h)

theorem Begins.nullTest (h : Begins ws cs) (hws : ∀ w ∈ ws, Spelled w) :
    ∃ rest, nullTest ws cs = some ((), rest) := by
  induction h with
  | @word w front rest hw hrest =>
    have hread : keyword w (front ++ rest) = some ((), rest) := by
      rw [keyword, bind_of_some (letters_of_lower hw), hrest.wordEnd]
    exact ⟨rest, hread⟩
  | @blanks w ws front blanks rest hw hne hblanks h ih =>
    rw [List.forall_mem_cons] at hws
    have hrun : run1 isBlank (blanks ++ rest) = some (blanks, rest) :=
      run1_append hblanks hne (h.head hws.2)
    obtain ⟨behind, hread⟩ := ih hws.2
    have hcons : ws ≠ [] := by
      rintro rfl
      cases h
    refine ⟨behind, ?_⟩
    rw [Sql.nullTest, bind_of_some (letters_of_lower hw), bind_of_some hrun, hread]
    exact hcons

theorem nullTest_eq_none (hws : ∀ w ∈ ws, Spelled w) : nullTest ws cs = none ↔ ¬ Begins ws cs := by
  constructor
  · intro hnone h
    obtain ⟨rest, hread⟩ := h.nullTest hws
    cases hnone.symm.trans hread
  · intro h
    by_contra hsome
    obtain ⟨x, hx⟩ := Option.ne_none_iff_exists'.1 hsome
    exact h (begins_of_nullTest hx)

theorem spelled_reservedWords (hw : w ∈ reservedWords) : Spelled w := by
  have hne : "" ∉ reservedWords := by decide
  have hwords : (reservedWords.all fun w => w.toList.all isWordChar) = true := by decide
  exact ⟨ne_of_mem_of_not_mem hw hne, List.all_eq_true.1 (List.all_eq_true.1 hwords w hw)⟩

theorem spelled_nullTest : ∀ w ∈ ["is", "not", "null"], Spelled w := by
  simp only [List.forall_mem_cons]
  refine ⟨⟨by decide, List.all_eq_true.1 rfl⟩, ?_, ?_, by simp⟩
  all_goals exact spelled_reservedWords (by decide)

end Words

section Reserved

variable {w : String} {cs : List Char}

theorem keyword_eq_none (hw : w ∈ reservedWords) :
    keyword w cs = none ↔ String.ofList ((leadingWord cs).map Char.toLower) ≠ w := by
  have hspelled := spelled_reservedWords hw
  rw [← nullTest, nullTest_eq_none (List.forall_mem_singleton.2 hspelled), begins_word hspelled.2]

theorem isNullSuffix_eq_none :
    isNullSuffix cs = none ↔ ¬ Begins ["is", "not", "null"] cs ∧ ¬ Begins ["is", "null"] cs := by
  have hnull : ∀ w ∈ ["is", "null"], Spelled w :=
    fun w hw => spelled_nullTest w (List.cons_subset_cons _ (List.subset_cons_self _ _) hw)
  rw [isNullSuffix, orElse_eq_none, bind_pure_eq_none, bind_pure_eq_none, nullTest_eq_none spelled_nullTest,
    nullTest_eq_none hnull]

theorem reserved_eq_none : reserved cs = none ↔
    String.ofList ((leadingWord cs).map Char.toLower) ∉ reservedWords ∧
      ¬ Begins ["is", "not", "null"] cs ∧ ¬ Begins ["is", "null"] cs := by
  rw [reserved, orElse_eq_none, bind_pure_eq_none, isNullSuffix_eq_none, choice_eq_none, List.forall_mem_map]
  refine and_congr_left' ⟨fun h hw => (keyword_eq_none hw).1 (h _ hw) rfl, fun h w hw => ?_⟩
  exact (keyword_eq_none hw).2 fun heq => h (heq ▸ hw)

theorem startsName_of_bareName {x : List Char × List Char} (h : bareName cs = some x) : StartsName cs := by
  cases hreserved : reserved cs with
  | some y =>
    have hnone : bareName cs = none := bind_of_none (by simp [Parser.absent, hreserved]) _
    cases hnone.symm.trans h
  | none =>
    obtain ⟨hunreserved, hnotNull, hnull⟩ := reserved_eq_none.1 hreserved
    rw [bareName, bind_of_some (absent_of_none hreserved)] at h
    cases hitem : item (fun c => isLetter c || c == '_') cs with
    | none =>
      rw [bind_of_none hitem] at h
      cases h
    | some y =>
      obtain ⟨hc, rfl⟩ := item_some hitem
      exact ⟨hc, hunreserved, hnull, hnotNull⟩

theorem StartsName.read (h : StartsName cs) :
    bareName cs = some (leadingWord cs, cs.dropWhile isWordChar) := by
  have hreserved := reserved_eq_none.2 ⟨h.unreserved, h.not_notNull, h.not_null⟩
  obtain ⟨c, hhead, hc⟩ := (Option.any_eq_true _ _).1 h.first
  obtain ⟨behind, rfl⟩ := List.head?_eq_some_iff.1 hhead
  have hitem : item (fun c => isLetter c || c == '_') (c :: behind) = some (c, behind) := by
    simp only [item, hc, if_true]
  have hword := (first_cases hc).1
  rw [bareName, bind_of_some (absent_of_none hreserved), bind_of_some hitem, leadingWord,
    List.takeWhile_cons_of_pos hword, List.dropWhile_cons_of_pos hword]
  rfl

theorem leadingWord_append (cs : List Char) : leadingWord cs ++ cs.dropWhile isWordChar = cs :=
  List.takeWhile_append_dropWhile

theorem agrees_bareIdentifier {whole : List Char} {n : Nat} : Agrees whole n false (.rule .bareIdentifier)
    bareName (Leaf .bareIdentifier fun front cs => front = cs) :=
  (agrees_bareName.imp fun _ _ _ h => h.1).leaf rfl

end Reserved

section Matches

variable {text front : String}

theorem matches_bareIdentifier {inner : List Tree} : Matches .bareIdentifier text front inner ↔
    StartsName text.toList ∧ front.toList = leadingWord text.toList ∧ inner = [] := by
  constructor
  · intro h
    obtain ⟨name, rest, hread, -, _, _, htree, hfront⟩ := h.reads fun _ => agrees_bareIdentifier
    cases htree
    have hstarts := startsName_of_bareName hread
    cases hread.symm.trans hstarts.read
    exact ⟨hstarts, hfront, rfl⟩
  · rintro ⟨hstarts, hfront, rfl⟩
    have hnode (n : Nat) : Agrees text.toList n false (.rule .bareIdentifier) bareName
        (Node .bareIdentifier fun inner _ => inner = []) :=
      agrees_bareIdentifier.imp fun _ _ _ ⟨t, h, _⟩ => ⟨t, [], h, rfl⟩
    obtain ⟨_, hmatch, rfl⟩ := matches_of_read front hnode hstarts.read
      (hfront ▸ leadingWord_append text.toList)
    exact hmatch

theorem StartsName.matched (h : StartsName text.toList) : bareName.matched text =
    some (String.ofList (leadingWord text.toList), leadingWord text.toList) := by
  apply matched_of_append h.read
  rw [String.toList_ofList, leadingWord_append]

theorem matched_bareName {name : List Char} : bareName.matched text = some (front, name) ↔
    StartsName text.toList ∧ front.toList = leadingWord text.toList ∧ name = front.toList := by
  constructor
  · intro h
    obtain ⟨x, hread, -⟩ := Option.map_eq_some_iff.1 h
    have hstarts := startsName_of_bareName hread
    cases h.symm.trans hstarts.matched
    exact ⟨hstarts, String.toList_ofList, String.toList_ofList.symm⟩
  · rintro ⟨hstarts, hfront, rfl⟩
    rw [hstarts.matched, ← hfront, String.ofList_toList]

end Matches

/-- The rule of a name without quotes and its reader match at the texts that start with one, and what they
take there is the leading word. -/
theorem bareIdentifier_iff (text front : String) :
    (∀ inner, Matches .bareIdentifier text front inner ↔
      StartsName text.toList ∧ front.toList = leadingWord text.toList ∧ inner = []) ∧
    ∀ name, bareName.matched text = some (front, name) ↔
      StartsName text.toList ∧ front.toList = leadingWord text.toList ∧ name = front.toList :=
  ⟨fun _ => matches_bareIdentifier, fun _ => matched_bareName⟩

example : bareName.matched "Order_by" = some ("Order_by", "Order_by".toList) ∧
    bareName.matched "is nullable" = some ("is", "is".toList) ∧
    bareName.matched "IS \t NULL" = none := by
  decide +kernel

end QuerySearch.Sql
