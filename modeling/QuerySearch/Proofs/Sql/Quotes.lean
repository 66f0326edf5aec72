import QuerySearch.Proofs.Sql.Grammatical
import QuerySearch.Proofs.Sql.Lexemes

/-! Quotes around texts and names.  A text in quotes is read back whatever follows it, unless that is one
more quote, and each value has one text in quotes only.  A name that has been read can be written in
double quotes. -/

namespace QuerySearch.Sql

open QuerySearch.Sql.Parser QuerySearch.Sql.Peg

def Matches (r : Rule) (text front : String) (inner : List Tree) : Prop :=
  Parses r text [.node r front.toList inner]

section Matches

variable {α : Type} {r : Rule} {p : Parser α} {text front : String} {rest : List Char} {inner : List Tree}
  {x : α}

theorem matched_of_append (h : p text.toList = some (x, rest)) (hfront : front.toList ++ rest = text.toList) :
    p.matched text = some (front, x) := by
  rw [matched, h, Option.map_some]
  simp only [← hfront, List.length_append, Nat.add_sub_cancel, List.take_left, String.ofList_toList]

theorem Matches.reads {R : Reading α} (h : Matches r text front inner)
    (hp : ∀ n, Agrees text.toList n false (.rule r) p R) :
    ∃ x rest, p text.toList = some (x, rest) ∧ front.toList ++ rest = text.toList ∧
      ∃ front', R front' [.node r front.toList inner] x := by
  obtain ⟨rest, hrun⟩ := h
  cases hp (text.toList.count '(' + 1) _ (Nat.lt_succ_self _) with
  | failed _ hnone => cases hrun.unique hnone
  | took front' hread _ hrun' hreading =>
    cases hrun.unique hrun'
    exact ⟨_, rest, hread, hrun.text_append, front', hreading⟩

theorem matches_of_read (front : String) {S : List Tree → α → Prop}
    (hp : ∀ n, Agrees text.toList n false (.rule r) p (Node r S)) (h : p text.toList = some (x, rest))
    (hfront : front.toList ++ rest = text.toList) :
    ∃ inner, Matches r text front inner ∧ S inner x := by
  cases hp (text.toList.count '(' + 1) _ (Nat.lt_succ_self _) with
  | failed hnone =>
    rw [h] at hnone
    cases hnone
  | took _ hread _ hrun hnode =>
    cases h.symm.trans hread
    obtain ⟨t, inner, rfl, hinner⟩ := hnode
    have ht := hrun.text_append
    rw [← hfront, List.append_cancel_right_eq] at ht
    exact ⟨inner, ⟨rest, ht ▸ hrun⟩, hinner⟩

end Matches

section Texts

variable {cs rest : List Char}

theorem eq_of_quotedText {t : List Char} (h : quotedText cs = some (t, rest)) :
    (t.flatMap fun c => if c = '\'' then ['\'', '\''] else [c]) ++ '\'' :: rest = cs := by
  fun_induction quotedText cs generalizing t with
  | case1 => cases h
  | case2 cs ih =>
    obtain ⟨⟨u, _⟩, hu, heq⟩ := Option.map_eq_some_iff.1 h
    cases heq
    simp [← ih hu]
  | case3 cs =>
    cases h
    rfl
  | case4 c cs hquotes hquote ih =>
    obtain ⟨⟨u, _⟩, hu, heq⟩ := Option.map_eq_some_iff.1 h
    cases heq
    have hc : c ≠ '\'' := fun h => hquote h
    simp [hc, ← ih hu]

theorem eq_of_textLiteral {l : Literal} (h : textLiteral cs = some (l, rest)) :
    ∃ s, l = .str s ∧ (quoteText s).toList ++ rest = cs := by
  cases hquote : symbol "'" cs with
  | none =>
    rw [textLiteral, bind_of_none hquote] at h
    cases h
  | some x =>
    obtain ⟨⟨⟩, behind⟩ := x
    rw [textLiteral, bind_of_some hquote] at h
    cases htext : quotedText behind with
    | none =>
      rw [bind_of_none htext] at h
      cases h
    | some y =>
      obtain ⟨t, _⟩ := y
      rw [bind_of_some htext] at h
      cases h
      refine ⟨String.ofList t, rfl, ?_⟩
      rw [toList_quoteText, String.toList_ofList, ← exactly_some hquote, ← eq_of_quotedText htext]
      simp

end Texts

section Names

theorem yields_item (accepts : Char → Bool) : Yields (item accepts) fun c => accepts c = true :=
  fun _ _ _ h => (item_some h).1

theorem yields_run (accepts : Char → Bool) : Yields (run accepts) fun cs => ∀ c ∈ cs, accepts c = true := by
  intro cs front rest h
  cases h
  exact List.all_eq_true.1 List.all_takeWhile

theorem toLower_ne_quote {c : Char} (h : isWordChar c = true) : c.toLower ≠ '"' := by
  unfold Char.toLower
  split
  next hc =>
    intro heq
    have hval : c.val + 32 = 34 := congrArg Char.val heq
    have hbound : (65 : UInt32) ≤ c.val ∧ c.val ≤ 90 := hc
    rw [UInt32.le_iff_toNat_le, UInt32.le_iff_toNat_le] at hbound
    rw [← UInt32.toNat_inj, UInt32.toNat_add] at hval
    simp at hval hbound
    omega
  next =>
    rintro rfl
    cases h

theorem plainName_of_chars {c : Char} {cs : List Char} (hc : c ≠ '"') (hcs : ∀ d ∈ cs, d ≠ '"') :
    PlainName (String.ofList (c :: cs)) := by
  refine ⟨fun h => ?_, ?_⟩
  · simpa using congrArg String.toList h
  · rw [String.toList_ofList, List.mem_cons]
    rintro (h | h)
    · exact hc h.symm
    · exact hcs _ h rfl

theorem yields_identifier : Yields identifier PlainName := by
  refine .orElse (.bind (P := fun cs => PlainName (String.ofList cs)) ?_ fun _ h => .pure h)
    (.bind (P := fun cs => PlainName (String.ofList (cs.map Char.toLower))) ?_ fun _ h => .pure h)
  · refine .next fun _ => .bind (P := fun cs => PlainName (String.ofList cs)) ?_ fun _ h => .next fun _ => .pure h
    refine (yields_item _).bind fun c hc => (yields_run _).bind fun cs hcs => .pure ?_
    exact plainName_of_chars (by simpa using hc) fun d hd => by simpa using hcs d hd
  · refine .next fun _ => (yields_item _).bind fun c hc => (yields_run _).bind fun cs hcs => .pure ?_
    refine plainName_of_chars (toLower_ne_quote (first_cases hc).1) fun d hd => ?_
    obtain ⟨e, he, rfl⟩ := List.mem_map.1 hd
    exact toLower_ne_quote (hcs e he)

end Names

/-- A text in quotes is read back as itself where no quote follows, whatever is read in quotes is the text
of its value, and a name that has been read is read again from its text in double quotes.  Rules, trees
and readers agree on this. -/
theorem quoted_readBack :
    (∀ s r : String, r.toList.head? ≠ some '\'' →
      literal.matched (quoteText s ++ r) = some (quoteText s, .str s) ∧
      ∃ inner, Matches .literal (quoteText s ++ r) (quoteText s) inner ∧ Convert.literal inner = .ok (.str s)) ∧
    (∀ text t inner, Matches .quotedString text t inner → ∃ s,
      textLiteral.matched text = some (t, .str s) ∧
      Convert.constant (.node .quotedString t.toList inner) = .ok (.str s) ∧ quoteText s = t) ∧
    ∀ text t inner, Matches .identifier text t inner → ∃ name,
      identifier.matched text = some (t, name) ∧
      Convert.identifier (.node .identifier t.toList inner) = .ok name ∧
      identifier.matched (quoteName name) = some (quoteName name, name) ∧
      ∃ inner', Matches .identifier (quoteName name) (quoteName name) inner' ∧
        Convert.identifier (.node .identifier (quoteName name).toList inner') = .ok name := by
  refine ⟨fun s r hr => ?text, fun text t inner h => ?value, fun text t inner h => ?name⟩
  case text =>
    have hrest : r.toList.head?.all fun c => !(c == '\'') := by
      cases hhead : r.toList.head? with
      | none => rfl
      | some c => simpa [hhead] using hr
    have hread := literal_quoteText s hrest
    rw [← String.toList_append] at hread
    have hfront : (quoteText s).toList ++ r.toList = (quoteText s ++ r).toList := String.toList_append.symm
    obtain ⟨inner, hmatch, hvalue⟩ := matches_of_read (quoteText s) (fun _ => agrees_literal) hread hfront
    exact ⟨matched_of_append hread hfront, inner, hmatch, hvalue.converts⟩
  case value =>
    obtain ⟨l, rest, hread, hfront, _, u, hleaf, hl⟩ := h.reads fun _ => agrees_textLiteral.leaf rfl
    cases hleaf
    obtain ⟨s, rfl, htext⟩ := eq_of_textLiteral hread
    rw [← hfront, List.append_cancel_right_eq] at htext
    refine ⟨s, matched_of_append hread hfront, ?_, String.toList_inj.1 htext⟩
    cases hl
    rfl
  case name =>
    obtain ⟨name, rest, hread, hfront, _, u, _, hnode, hname⟩ := h.reads fun _ => agrees_identifier
    cases hnode
    have hagain := identifier_quoteName (yields_identifier _ _ _ hread) []
    rw [List.append_nil] at hagain
    obtain ⟨inner', hmatch, hname'⟩ :=
      matches_of_read (quoteName name) (fun _ => agrees_identifier) hagain (List.append_nil _)
    exact ⟨name, matched_of_append hread hfront, hname.identifier _,
      matched_of_append hagain (List.append_nil _), inner', hmatch, hname'.identifier _⟩

theorem quoted_readBack_quotes :
    (")".toList.head? ≠ some '\'' ∧
      literal.matched (quoteText "'it''s'" ++ ")") = some (quoteText "'it''s'", .str "'it''s'")) ∧
    (∃ inner s, Matches .quotedString "'''it''''s''' x" "'''it''''s'''" inner ∧
      textLiteral.matched "'''it''''s''' x" = some ("'''it''''s'''", .str s) ∧
      quoteText s = "'''it''''s'''") ∧
    ∃ inner name, Matches .identifier "Page x" "Page" inner ∧
      identifier.matched "Page x" = some ("Page", name) ∧
      identifier.matched (quoteName name) = some (quoteName name, name) := by
  obtain ⟨htexts, hvalues, hnames⟩ := quoted_readBack
  have hquoted (n : Nat) : Agrees "'''it''''s''' x".toList n false (.rule .quotedString) textLiteral
      (Node .quotedString fun inner _ => inner = []) :=
    (agrees_textLiteral.leaf rfl).imp fun _ _ _ ⟨t, h, _⟩ => ⟨t, [], h, rfl⟩
  have htext : textLiteral "'''it''''s''' x".toList = some (.str "'it''s'", " x".toList) := by decide +kernel
  have hname : identifier "Page x".toList = some ("page", " x".toList) := by decide +kernel
  refine ⟨⟨by decide, (htexts "'it''s'" ")" (by decide)).1⟩, ?_, ?_⟩
  · obtain ⟨inner, hmatch, -⟩ := matches_of_read "'''it''''s'''" hquoted htext (by decide)
    obtain ⟨s, hread, -, hs⟩ := hvalues _ _ _ hmatch
    exact ⟨inner, s, hmatch, hread, hs⟩
  · obtain ⟨inner, hmatch, -⟩ := matches_of_read "Page" (fun _ => agrees_identifier) hname (by decide)
    obtain ⟨name, hread, -, hagain, -⟩ := hnames _ _ _ hmatch
    exact ⟨inner, name, hmatch, hread, hagain⟩

end QuerySearch.Sql
