import QuerySearch.Proofs.Sql.ParseTrees
import QuerySearch.Proofs.Sql.Readers

/-! Readers against expressions.  A reader agrees with an expression if both fail at the same places, and
elsewhere take the same front of the text, and if what is read goes with the trees.  There is one law
for each way of putting readers together. -/

namespace QuerySearch.Sql.Peg

open QuerySearch.Sql.Parser

section Suffixes

theorem afterBlanks_suffix (cs : List Char) : afterBlanks cs <:+ cs := by
  -- Blanks and comments call each other, so the same is shown of what stands behind a comment.
  apply afterBlanks.induct (fun cs => afterBlanks cs <:+ cs) (fun cs => afterComment cs <:+ cs)
  · exact List.suffix_refl []
  · intro cs ih
    exact ih.trans ((List.suffix_cons _ _).trans (List.suffix_cons _ _))
  · intro c cs hc hb ih
    rw [afterBlanks.eq_3 c cs hc, if_pos hb]
    exact ih.trans (List.suffix_cons _ _)
  · intro c cs hc hb
    simp only [afterBlanks.eq_3 c cs hc, if_neg hb, List.suffix_refl]
  · exact List.suffix_refl []
  · intro cs ih
    exact ih.trans (List.suffix_cons _ _)
  · intro c cs hc ih
    rw [afterComment.eq_3 c cs hc]
    exact ih.trans (List.suffix_cons _ _)

theorem skipped_suffix (atomic : Bool) (cs : List Char) : skipped atomic cs <:+ cs := by
  cases atomic with
  | true => exact List.suffix_refl _
  | false => exact afterBlanks_suffix cs

variable {whole cs rest : List Char} {ts : List Tree}

theorem Runs.trees_eq_nil {atomic : Bool} {e : Peg} {o : Outcome} (h : Runs whole atomic e cs o)
    (hatomic : atomic = true) {x : List Tree × List Char} (hx : o = some x) : x.1 = [] := by
  induction h generalizing x with
  | text | anyCase | one =>
    obtain ⟨y, -, rfl⟩ := Option.map_eq_some_iff.1 hx
    rfl
  | start =>
    rw [Option.ite_none_right_eq_some] at hx
    cases hx.2
    rfl
  | rule_some =>
    cases hx
    exact if_pos hatomic
  | rule_none | seq_none => cases hx
  | seq_some _ _ iha ihb =>
    obtain ⟨y, hy, rfl⟩ := Option.map_eq_some_iff.1 hx
    exact List.append_eq_nil_iff.2 ⟨iha hatomic rfl, ihb hatomic hy⟩
  | alt_left _ ih => exact ih hatomic hx
  | alt_right _ _ _ ih => exact ih hatomic hx
  | @opt _ _ _ o _ ih =>
    cases hx
    cases o with
    | none => rfl
    | some x => exact ih hatomic rfl
  | many_none =>
    cases hx
    rfl
  | many_last _ _ ih => exact ih hatomic hx
  | many_more _ _ _ ih _ ih' =>
    cases hx
    exact List.append_eq_nil_iff.2 ⟨ih hatomic rfl, ih' hatomic rfl⟩
  | absent =>
    rw [Option.ite_none_left_eq_some] at hx
    cases hx.2
    rfl

theorem Runs.text_append {r : Rule} {t : List Char} {inner : List Tree}
    (h : Runs whole false (.rule r) cs (some ([.node r t inner], rest))) : t ++ rest = cs := by
  generalize hts : [Tree.node r t inner] = us at h
  cases h with
  | rule_some _ hfront =>
    cases hts
    exact hfront

theorem Runs.length_le {atomic : Bool} {e : Peg} {o : Outcome} (h : Runs whole atomic e cs o)
    {x : List Tree × List Char} (hx : o = some x) : x.2.length ≤ cs.length := by
  induction h generalizing x with
  | text =>
    obtain ⟨⟨_, rest⟩, hy, rfl⟩ := Option.map_eq_some_iff.1 hx
    simp [← exactly_some hy]
  | anyCase =>
    obtain ⟨⟨_, rest⟩, hy, rfl⟩ := Option.map_eq_some_iff.1 hx
    obtain ⟨front, -, rfl⟩ := letters_some hy
    simp
  | one =>
    obtain ⟨⟨c, rest⟩, hy, rfl⟩ := Option.map_eq_some_iff.1 hx
    simp [← (item_some hy).2]
  | start =>
    rw [Option.ite_none_right_eq_some] at hx
    cases hx.2
    exact Nat.le_refl _
  | rule_some _ hfront =>
    cases hx
    simp [← hfront]
  | rule_none | seq_none => cases hx
  | @seq_some atomic _ _ _ mid _ _ _ _ iha ihb =>
    obtain ⟨y, hy, rfl⟩ := Option.map_eq_some_iff.1 hx
    have hb := ihb hy
    exact Nat.le_trans hb (Nat.le_trans (skipped_suffix atomic mid).length_le (iha rfl))
  | alt_left _ ih => exact ih hx
  | alt_right _ _ _ ih => exact ih hx
  | @opt _ _ _ o _ ih =>
    cases hx
    cases o with
    | none => exact Nat.le_refl _
    | some x => exact ih rfl
  | many_none =>
    cases hx
    exact Nat.le_refl _
  | many_last _ _ ih => exact ih hx
  | @many_more atomic _ _ mid _ _ _ _ _ _ _ ih _ ih' =>
    cases hx
    have hmore := ih' rfl
    exact Nat.le_trans hmore (Nat.le_trans (skipped_suffix atomic mid).length_le (ih rfl))
  | absent =>
    rw [Option.ite_none_left_eq_some] at hx
    cases hx.2
    exact Nat.le_refl _

end Suffixes

section Consumption

def Consumes (e : Peg) : Prop :=
  ∀ ⦃whole atomic cs ts rest⦄, Runs whole atomic e cs (some (ts, rest)) → rest.length < cs.length

variable {a b : Peg} {r : Rule} {s : String}

theorem Consumes.text (h : s.toList ≠ []) : Consumes (.text s) := by
  intro whole atomic cs ts rest hrun
  generalize ho : some (ts, rest) = o at hrun
  cases hrun with
  | text =>
    obtain ⟨⟨_, mid⟩, hx, heq⟩ := Option.map_eq_some_iff.1 ho.symm
    cases heq
    have := List.length_pos_iff.2 h
    simp [← exactly_some hx, this]

theorem Consumes.anyCase (h : s.toList ≠ []) : Consumes (.anyCase s) := by
  intro whole atomic cs ts rest hrun
  generalize ho : some (ts, rest) = o at hrun
  cases hrun with
  | anyCase =>
    obtain ⟨⟨_, mid⟩, hx, heq⟩ := Option.map_eq_some_iff.1 ho.symm
    cases heq
    obtain ⟨front, hlower, rfl⟩ := letters_some hx
    have hlen := congrArg List.length hlower
    rw [List.length_map] at hlen
    have := List.length_pos_iff.2 h
    simp only [List.length_append]
    omega

theorem Consumes.seq_left (h : Consumes a) : Consumes (.seq a b) := by
  intro whole atomic cs ts rest hrun
  generalize ho : some (ts, rest) = o at hrun
  cases hrun with
  | seq_some ha hb =>
    obtain ⟨x, rfl, heq⟩ := Option.map_eq_some_iff.1 ho.symm
    cases heq
    exact Nat.lt_of_le_of_lt (Nat.le_trans (hb.length_le rfl) (skipped_suffix atomic _).length_le) (h ha)
  | seq_none => cases ho

theorem Consumes.seq_right (h : Consumes b) : Consumes (.seq a b) := by
  intro whole atomic cs ts rest hrun
  generalize ho : some (ts, rest) = o at hrun
  cases hrun with
  | seq_some ha hb =>
    obtain ⟨x, rfl, heq⟩ := Option.map_eq_some_iff.1 ho.symm
    cases heq
    exact Nat.lt_of_lt_of_le (h hb) (Nat.le_trans (skipped_suffix atomic _).length_le (ha.length_le rfl))
  | seq_none => cases ho

theorem Consumes.alt (ha : Consumes a) (hb : Consumes b) : Consumes (.alt a b) := by
  intro whole atomic cs ts rest hrun
  cases hrun with
  | alt_left h => exact ha h
  | alt_right _ h => exact hb h

theorem Consumes.rule (h : Consumes (body r)) : Consumes (.rule r) := by
  intro whole atomic cs ts rest hrun
  cases hrun with
  | rule_some h' => exact h h'

end Consumption

section Laws

variable {α β : Type}

abbrev Reading (α : Type) := List Char → List Tree → α → Prop

inductive AgreesAt (whole : List Char) (atomic : Bool) (e : Peg) (p : Parser α) (R : Reading α)
    (cs : List Char) : Prop
  | took {x rest ts} (front : List Char) (hp : p cs = some (x, rest)) (hfront : front ++ rest = cs)
    (hrun : Runs whole atomic e cs (some (ts, rest))) (h : R front ts x)
  | failed (hp : p cs = none) (hrun : Runs whole atomic e cs none)

/-- Agreement wherever fewer than `n` parentheses are opened in the rest of the text. -/
def Agrees (whole : List Char) (n : Nat) (atomic : Bool) (e : Peg) (p : Parser α) (R : Reading α) : Prop :=
  ∀ cs, cs.count '(' < n → AgreesAt whole atomic e p R cs

def Node (r : Rule) (S : List Tree → α → Prop) : Reading α := fun _ ts x =>
  ∃ text inner, ts = [.node r text inner] ∧ S inner x

def Leaf (r : Rule) (T : List Char → α → Prop) : Reading α := fun _ ts x =>
  ∃ text, ts = [.node r text []] ∧ T text x

def Maybe (R : Reading α) : Reading (Option α)
  | front, ts, none => front = [] ∧ ts = []
  | front, ts, some x => R front ts x

inductive Each (S : List Tree → α → Prop) : List Tree → List α → Prop
  | nil : Each S [] []
  | cons {ts us x xs} : S ts x → Each S us xs → Each S (ts ++ us) (x :: xs)

variable {whole : List Char} {n : Nat} {atomic : Bool} {a b : Peg} {p p' : Parser α} {q : α → Parser β}
  {R R' : Reading α} {S : List Tree → β → Prop} {T : List Char → β → Prop} {Q : Reading β} {r : Rule}

theorem Each.append {S : List Tree → α → Prop} {ts us : List Tree} {xs ys : List α} (h : Each S ts xs)
    (h' : Each S us ys) : Each S (ts ++ us) (xs ++ ys) := by
  induction h with
  | nil => exact h'
  | cons hx _ ih =>
    rw [List.append_assoc]
    exact .cons hx ih

theorem Agrees.mono {m : Nat} (h : Agrees whole n atomic a p R) (hle : m ≤ n) : Agrees whole m atomic a p R :=
  fun cs hcs => h cs (Nat.lt_of_lt_of_le hcs hle)

theorem Agrees.map (h : Agrees whole n atomic a p R) (f : α → β)
    (hf : ∀ front ts x, R front ts x → Q front ts (f x)) :
    Agrees whole n atomic a (do return f (← p)) Q := by
  intro cs hcs
  cases h cs hcs with
  | took front hp hfront hrun h => exact .took front (bind_of_some hp _) hfront hrun (hf _ _ _ h)
  | failed hp hrun => exact .failed (bind_of_none hp _) hrun

theorem Agrees.map_of {f : α → β} (h : Agrees whole n atomic a p R) (hq : ∀ x, q x = pure (f x))
    (hf : ∀ front ts x, R front ts x → Q front ts (f x)) : Agrees whole n atomic a (p >>= q) Q := by
  rw [funext hq]
  exact h.map f hf

theorem Agrees.lifted {f : α → Option β} (h : Agrees whole n atomic a p R)
    (hf : ∀ front ts x, R front ts x → ∃ y, f x = some y ∧ Q front ts y) :
    Agrees whole n atomic a (do let x ← p; StateT.lift (f x)) Q := by
  intro cs hcs
  cases h cs hcs with
  | failed hp hrun => exact .failed (bind_of_none hp _) hrun
  | took front hp hfront hrun h =>
    obtain ⟨y, hy, hQ⟩ := hf _ _ _ h
    refine .took front ?_ hfront hrun hQ
    rw [bind_of_some hp, hy]
    rfl

theorem Agrees.congr (h : Agrees whole n atomic a p R) (hp : ∀ cs, p' cs = p cs) :
    Agrees whole n atomic a p' R := by
  intro cs hcs
  cases h cs hcs with
  | took front hread hfront hrun h => exact .took front ((hp cs).trans hread) hfront hrun h
  | failed hread hrun => exact .failed ((hp cs).trans hread) hrun

theorem Agrees.imp (h : Agrees whole n atomic a p R) (himp : ∀ front ts x, R front ts x → R' front ts x) :
    Agrees whole n atomic a p R' := by
  intro cs hcs
  cases h cs hcs with
  | took front hp hfront hrun h => exact .took front hp hfront hrun (himp _ _ _ h)
  | failed hp hrun => exact .failed hp hrun

section Terminals

theorem agrees_text (s : String) : Agrees whole n atomic (.text s) (symbol s)
    fun front ts _ => front = s.toList ∧ ts = [] := by
  intro cs _
  have hrun := @Runs.text whole atomic s cs
  cases hp : symbol s cs with
  | none => exact .failed hp (by simpa [hp] using hrun)
  | some x => exact .took _ hp (exactly_some hp) (by simpa [hp] using hrun) ⟨rfl, rfl⟩

theorem agrees_anyCase (s : String) : Agrees whole n atomic (.anyCase s) (letters s.toList)
    fun _ ts _ => ts = [] := by
  intro cs _
  have hrun := @Runs.anyCase whole atomic s cs
  cases hp : letters s.toList cs with
  | none => exact .failed hp (by simpa [hp] using hrun)
  | some x =>
    obtain ⟨front, -, hfront⟩ := letters_some hp
    exact .took front hp hfront (by simpa [hp] using hrun) rfl

end Terminals

section Choices

theorem Agrees.orElse (h : Agrees whole n atomic a p R) (h' : Agrees whole n atomic b p' R) :
    Agrees whole n atomic (.alt a b) (p <|> p') R := by
  intro cs hcs
  cases h cs hcs with
  | took front hp hfront hrun h => exact .took front (orElse_of_some hp) hfront (.alt_left hrun) h
  | failed hp hrun =>
    cases h' cs hcs with
    | took front hp' hfront hrun' h =>
      exact .took front ((orElse_of_none hp).trans hp') hfront (.alt_right hrun hrun') h
    | failed hp' hrun' => exact .failed ((orElse_of_none hp).trans hp') (.alt_right hrun hrun')

theorem Agrees.choice_last (h : Agrees whole n atomic a p R) : Agrees whole n atomic a (choice [p]) R := by
  intro cs hcs
  cases h cs hcs with
  | took front hp hfront hrun h => exact .took front (choice_of_some hp) hfront hrun h
  | failed hp hrun => exact .failed (choice_of_none hp) hrun

theorem Agrees.choice {ps : List (Parser α)} (h : Agrees whole n atomic a p R)
    (h' : Agrees whole n atomic b (choice ps) R) : Agrees whole n atomic (.alt a b) (choice (p :: ps)) R :=
  h.orElse h'

theorem Agrees.choice_pair {ps : List (Parser α)} (h : Agrees whole n atomic a (p <|> p') R)
    (h' : Agrees whole n atomic b (Parser.choice ps) R) :
    Agrees whole n atomic (.alt a b) (Parser.choice (p :: p' :: ps)) R := by
  refine (h.choice h').congr fun cs => ?_
  cases hp : p cs with
  | none => exact (choice_of_none hp).trans (congrArg (· <|> Parser.choice ps cs) (orElse_of_none hp)).symm
  | some x => exact (choice_of_some hp).trans (choice_of_some (orElse_of_some hp)).symm

theorem Agrees.optional (h : Agrees whole n atomic a p R) :
    Agrees whole n atomic (.opt a) (optional p) (Maybe R) := by
  intro cs hcs
  cases h cs hcs with
  | took front hp hfront hrun h => exact .took front (optional_of_some hp) hfront (.opt hrun) h
  | failed hp hrun => exact .took [] (optional_of_none hp) rfl (.opt hrun) ⟨rfl, rfl⟩

theorem Agrees.reads (h : Agrees whole n atomic a p R) :
    Agrees whole n atomic (.opt a) (reads p) fun front ts x =>
      if x then ∃ y, R front ts y else front = [] ∧ ts = [] := by
  refine h.optional.map Option.isSome fun front ts x hx => ?_
  cases x with
  | none => exact hx
  | some x => exact ⟨x, hx⟩

theorem Agrees.absent (h : Agrees whole n atomic a p R) :
    Agrees whole n atomic (.absent a) (Parser.absent p) fun front ts _ => front = [] ∧ ts = [] := by
  intro cs hcs
  cases h cs hcs with
  | took front hp hfront hrun h => exact .failed (by simp [Parser.absent, hp]) (.absent hrun)
  | failed hp hrun => exact .took [] (absent_of_none hp) rfl (.absent hrun) ⟨rfl, rfl⟩

end Choices

section Sequences

theorem count_suffix {cs rest : List Char} (h : rest <:+ cs) : rest.count '(' ≤ cs.count '(' :=
  h.sublist.count_le _

theorem Agrees.bind (h : Agrees whole n true a p R)
    (h' : ∀ front ts x, R front ts x → Agrees whole n true b (q x) fun front' _ y => T (front ++ front') y) :
    Agrees whole n true (.seq a b) (p >>= q) fun front _ y => T front y := by
  intro cs hcs
  cases h cs hcs with
  | failed hp hrun => exact .failed (bind_of_none hp _) (.seq_none hrun)
  | @took x rest ts front hp hfront hrun h =>
    have hrest : rest.count '(' < n :=
      Nat.lt_of_le_of_lt (count_suffix ⟨front, hfront⟩) hcs
    cases h' _ _ _ h rest hrest with
    | took front' hq hfront' hrun' h' =>
      refine .took (front ++ front') ((bind_of_some hp _).trans hq) ?_ (.seq_some hrun hrun') h'
      rw [List.append_assoc, hfront', hfront]
    | failed hq hrun' => exact .failed ((bind_of_some hp _).trans hq) (.seq_some hrun hrun')

theorem Agrees.seq (h : Agrees whole n false a p R)
    (h' : ∀ front ts x, R front ts x → Agrees whole n false b (q x) fun _ ts' y => S (ts ++ ts') y) :
    Agrees whole n false (.seq a b) (do let x ← p; skip; q x) fun _ ts y => S ts y := by
  intro cs hcs
  cases h cs hcs with
  | failed hp hrun => exact .failed (bind_of_none hp _) (.seq_none hrun)
  | @took x rest ts front hp hfront hrun h =>
    obtain ⟨gap, hgap⟩ := afterBlanks_suffix rest
    have hrest : (afterBlanks rest).count '(' < n :=
      Nat.lt_of_le_of_lt (count_suffix ((afterBlanks_suffix rest).trans ⟨front, hfront⟩)) hcs
    cases h' _ _ _ h _ hrest with
    | took front' hq hfront' hrun' h' =>
      refine .took (front ++ gap ++ front') ((bind_of_some hp _).trans hq) ?_
        (.seq_some hrun hrun') h'
      rw [List.append_assoc, hfront', List.append_assoc, hgap, hfront]
    | failed hq hrun' => exact .failed ((bind_of_some hp _).trans hq) (.seq_some hrun hrun')

theorem Agrees.opened {p : Parser β} (h : Agrees whole n false b p fun _ ts y => S ts y) :
    Agrees whole (n + 1) false (.seq (.text "(") b) (do symbol "("; skip; p) fun _ ts y => S ts y := by
  intro cs hcs
  cases @agrees_text whole (n + 1) false "(" cs hcs with
  | failed hp hrun => exact .failed (bind_of_none hp _) (.seq_none hrun)
  | @took x rest ts front hp hfront hrun hx =>
    obtain ⟨rfl, rfl⟩ := hx
    obtain ⟨gap, hgap⟩ := afterBlanks_suffix rest
    have hrest : (afterBlanks rest).count '(' < n := by
      have hcount := count_suffix (afterBlanks_suffix rest)
      rw [← hfront] at hcs
      simp at hcs
      omega
    cases h _ hrest with
    | took front' hq hfront' hrun' h' =>
      refine .took ("(".toList ++ gap ++ front') ((bind_of_some hp _).trans hq) ?_
        (.seq_some hrun hrun') h'
      rw [List.append_assoc, hfront', List.append_assoc, hgap, hfront]
    | failed hq hrun' => exact .failed ((bind_of_some hp _).trans hq) (.seq_some hrun hrun')

end Sequences

section Repetitions

theorem Agrees.repeatedUpTo {S : List Tree → α → Prop} (h : Agrees whole n false a p fun _ ts x => S ts x)
    (hc : Consumes a) (fuel : Nat) (cs : List Char) (hcs : cs.count '(' < n) (hfuel : cs.length ≤ fuel) :
    (Runs whole false a (afterBlanks cs) none ∧
      Parser.repeatedUpTo (do skip; p) fuel cs = some ([], cs)) ∨
    ∃ x ts rest front xs, Runs whole false a (afterBlanks cs) (some x) ∧
      Runs whole false (.many a) (afterBlanks cs) (some (ts, rest)) ∧ front ++ rest = cs ∧
      Parser.repeatedUpTo (do skip; p) fuel cs = some (xs, rest) ∧ Each S ts xs := by
  induction fuel generalizing cs with
  | zero =>
    obtain rfl : cs = [] := List.length_eq_zero_iff.1 (Nat.le_zero.1 hfuel)
    cases h [] hcs with
    | took front hp _ hrun => exact absurd (hc hrun) (Nat.not_lt_zero _)
    | failed hp hrun => exact .inl ⟨hrun, rfl⟩
  | succ fuel ih =>
    have hblanks := afterBlanks_suffix cs
    cases h (afterBlanks cs) (Nat.lt_of_le_of_lt (count_suffix hblanks) hcs) with
    | failed hp hrun =>
      refine .inl ⟨hrun, orElse_of_none ?_⟩
      rw [bind_of_none]
      exact hp
    | @took x rest ts front hp hfront hrun hx =>
      have hrest : rest <:+ cs := .trans ⟨front, hfront⟩ hblanks
      have hlt : rest.length < cs.length := Nat.lt_of_lt_of_le (hc hrun) hblanks.length_le
      have hread : ∀ xs mid, Parser.repeatedUpTo (do skip; p) fuel rest = some (xs, mid) →
          Parser.repeatedUpTo (do skip; p) (fuel + 1) cs = some (x :: xs, mid) := by
        intro xs mid hxs
        have hskip : (do skip; p : Parser α) cs = some (x, rest) := hp
        apply orElse_of_some
        rw [bind_of_some hskip, bind_of_some hxs]
        rfl
      cases ih rest (Nat.lt_of_le_of_lt (count_suffix hrest) hcs) (by omega) with
      | inl hlast =>
        obtain ⟨gap, hgap⟩ := hrest
        refine .inr ⟨_, _, rest, gap, [x], hrun, .many_last hrun hlast.1, hgap, hread _ _ hlast.2, ?_⟩
        rw [← List.append_nil ts]
        exact .cons hx .nil
      | inr hmore =>
        obtain ⟨y, us, rest', front', xs, hy, hmany, hfront', hxs, heach⟩ := hmore
        obtain ⟨gap, hgap⟩ := hrest
        refine .inr ⟨_, _, rest', gap ++ front', x :: xs, hrun, .many_more hrun hy hmany, ?_, hread _ _ hxs,
          .cons hx heach⟩
        rw [List.append_assoc, hfront', hgap]

theorem Agrees.spaced {S : List Tree → α → Prop} (h : Agrees whole n false a p fun _ ts x => S ts x)
    (hc : Consumes a) : Agrees whole n false (.many a) (Parser.spaced p) fun _ ts xs => Each S ts xs := by
  intro cs hcs
  cases h cs hcs with
  | failed hp hrun => exact .took [] (spaced_of_none hp) rfl (.many_none hrun) .nil
  | @took x rest ts front hp hfront hrun hx =>
    have hrest : rest.count '(' < n := Nat.lt_of_le_of_lt (count_suffix ⟨front, hfront⟩) hcs
    have hread : ∀ xs mid, repeated (do skip; p) rest = some (xs, mid) →
        Parser.spaced p cs = some (x :: xs, mid) := by
      intro xs mid hxs
      apply orElse_of_some
      rw [bind_of_some hp, bind_of_some hxs]
      rfl
    cases h.repeatedUpTo hc rest.length rest hrest (Nat.le_refl _) with
    | inl hlast =>
      refine .took front (hread _ _ hlast.2) hfront (.many_last hrun hlast.1) ?_
      rw [← List.append_nil ts]
      exact .cons hx .nil
    | inr hmore =>
      obtain ⟨y, us, rest', front', xs, hy, hmany, hfront', hxs, heach⟩ := hmore
      refine .took (front ++ front') (hread _ _ hxs) ?_ (.many_more hrun hy hmany) (.cons hx heach)
      rw [List.append_assoc, hfront', hfront]

theorem Agrees.commaSeparated {S : List Tree → α → Prop} (h : Agrees whole n false a p fun _ ts x => S ts x) :
    Agrees whole n false (commaList a) (Parser.commaSeparated p) fun _ ts xs => Each S ts xs := by
  have hcomma : Agrees whole n false (.seq (.text ",") a) (do symbol ","; skip; p) fun _ ts x => S ts x := by
    refine (agrees_text ",").seq fun front ts x hx => ?_
    obtain ⟨-, rfl⟩ := hx
    exact h
  have hc : Consumes (.seq (.text ",") a) := .seq_left (.text (by decide))
  refine h.seq fun front ts x hx => ?_
  exact (hcomma.spaced hc).map _ fun _ us xs hxs => .cons hx hxs

theorem Runs.many_cons {cs mid rest : List Char} {ts us : List Tree}
    (h : Runs whole true a cs (some (ts, mid))) (h' : Runs whole true (.many a) mid (some (us, rest))) :
    Runs whole true (.many a) cs (some (ts ++ us, rest)) := by
  have hmany := h'
  cases h' with
  | many_none hnone =>
    rw [List.append_nil]
    exact .many_last h hnone
  | many_last hsome => exact .many_more h hsome hmany
  | many_more hsome => exact .many_more h hsome hmany

def TakesOne (whole : List Char) (a : Peg) (accepts : Char → Bool) : Prop :=
  ∀ cs, Runs whole true a cs ((item accepts cs).map fun x => ([], x.2))

theorem takesOne_one (accepts : Char → Bool) : TakesOne whole (.one accepts) accepts := Runs.one accepts

variable {accepts : Char → Bool}

theorem TakesOne.many (h : TakesOne whole a accepts) (cs : List Char) :
    Runs whole true (.many a) cs (some ([], cs.dropWhile accepts)) := by
  induction cs with
  | nil => exact .many_none (h [])
  | cons c cs ih =>
    have hone := h (c :: cs)
    by_cases hc : accepts c = true
    · rw [List.dropWhile_cons_of_pos hc]
      rw [item, if_pos hc] at hone
      exact hone.many_cons ih
    · rw [List.dropWhile_cons_of_neg hc]
      rw [item, if_neg hc] at hone
      exact .many_none hone

theorem TakesOne.agrees (h : TakesOne whole a accepts) : Agrees whole n true a (item accepts)
    fun front _ c => front = [c] ∧ accepts c = true := by
  intro cs _
  have hrun := h cs
  cases hp : item accepts cs with
  | none => exact .failed hp (by simpa [hp] using hrun)
  | some x =>
    obtain ⟨hc, rfl⟩ := item_some hp
    exact .took _ hp rfl (by simpa [hp] using hrun) ⟨rfl, hc⟩

theorem TakesOne.agrees_run (h : TakesOne whole a accepts) : Agrees whole n true (.many a) (run accepts)
    fun front _ cs => front = cs ∧ ∀ c ∈ cs, accepts c = true := fun cs _ =>
  .took _ rfl List.takeWhile_append_dropWhile (h.many cs) ⟨rfl, List.all_eq_true.1 List.all_takeWhile⟩

theorem TakesOne.agrees_run1 (h : TakesOne whole a accepts) : Agrees whole n true (atLeastOne a) (run1 accepts)
    fun front _ cs => front = cs ∧ cs ≠ [] ∧ ∀ c ∈ cs, accepts c = true := by
  refine h.agrees.bind fun front ts c hc => ?_
  obtain ⟨rfl, hc⟩ := hc
  refine h.agrees_run.map _ fun front' _ cs hcs => ?_
  obtain ⟨rfl, hcs⟩ := hcs
  exact ⟨rfl, List.cons_ne_nil _ _, List.forall_mem_cons.2 ⟨hc, hcs⟩⟩

end Repetitions

section Rules

theorem Agrees.node {S : List Tree → α → Prop} (h : Agrees whole n false (body r) p fun _ ts x => S ts x)
    (hr : r.isAtomic = false) : Agrees whole n false (.rule r) p (Node r S) := by
  intro cs hcs
  cases h cs hcs with
  | took front hp hfront hrun h =>
    exact .took front hp hfront (.rule_some (by simpa [hr] using hrun) hfront) ⟨_, _, rfl, h⟩
  | failed hp hrun => exact .failed hp (.rule_none (by simpa [hr] using hrun))

theorem Agrees.leaf {T : List Char → α → Prop}
    (h : Agrees whole n true (body r) p fun front _ x => T front x) (hr : r.isAtomic = true) :
    Agrees whole n false (.rule r) p (Leaf r T) := by
  intro cs hcs
  cases h cs hcs with
  | took front hp hfront hrun h =>
    obtain rfl := hrun.trees_eq_nil rfl rfl
    exact .took front hp hfront (.rule_some (by simpa [hr] using hrun) hfront) ⟨_, rfl, h⟩
  | failed hp hrun => exact .failed hp (.rule_none (by simpa [hr] using hrun))

theorem Agrees.inAtomic {T : List Char → α → Prop}
    (h : Agrees whole n true (body r) p fun front _ x => T front x) :
    Agrees whole n true (.rule r) p fun front _ x => T front x := by
  intro cs hcs
  cases h cs hcs with
  | took front hp hfront hrun h => exact .took front hp hfront (.rule_some hrun hfront) h
  | failed hp hrun => exact .failed hp (.rule_none hrun)

end Rules

end Laws

end QuerySearch.Sql.Peg
