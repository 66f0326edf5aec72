import QuerySearch.Sql.Parser

/-! What readers make of a text, one law for each way of putting readers together.  Rules read their
parts with blanks in between, so it does not matter where in the blanks before the rest of the text
a reader stops: `Takes` leaves that open. -/

namespace QuerySearch.Sql.Parser

inductive Run {α : Type} (p : Parser α) : List Char → List α → List Char → Prop
  | nil {cs} : Run p cs [] cs
  | cons {cs a mid as rest} : p cs = some (a, mid) → mid.length < cs.length → Run p mid as rest →
      Run p cs (a :: as) rest

variable {α β : Type} {p : Parser α} {cs mid rest : List Char} {a : α}

theorem bind_apply (p : Parser α) (f : α → Parser β) (cs : List Char) :
    (p >>= f) cs = (p cs).bind fun x => f x.1 x.2 := by
  cases h : p cs <;> simp [bind, StateT.bind, h]

theorem pure_apply (a : α) (cs : List Char) : (pure a : Parser α) cs = some (a, cs) := rfl

theorem bind_of_some (h : p cs = some (a, rest)) (f : α → Parser β) : (p >>= f) cs = f a rest := by
  rw [bind_apply, h]
  rfl

theorem bind_of_none (h : p cs = none) (f : α → Parser β) : (p >>= f) cs = none := by
  rw [bind_apply, h]
  rfl

theorem exactly_of_ne {c d : Char} {ds : List Char} (h : d ≠ c) : exactly (c :: ds) (d :: cs) = none :=
  bind_of_none (by simp [item, h]) _

theorem item_some {accepts : Char → Bool} {c : Char} (h : item accepts cs = some (c, rest)) :
    accepts c = true ∧ c :: rest = cs := by
  cases cs with
  | nil => simp [item] at h
  | cons d ds =>
    simp only [item, Option.ite_none_right_eq_some, Option.some_inj, Prod.mk.injEq] at h
    obtain ⟨ha, rfl, rfl⟩ := h
    exact ⟨ha, rfl⟩

theorem exactly_some {s : List Char} (h : exactly s cs = some ((), rest)) : s ++ rest = cs := by
  induction s generalizing cs with
  | nil =>
    cases h
    rfl
  | cons c s ih =>
    cases hc : item (· == c) cs with
    | none => rw [exactly, bind_of_none hc] at h; cases h
    | some x =>
      obtain ⟨d, ds⟩ := x
      rw [exactly, bind_of_some hc] at h
      obtain ⟨heq, rfl⟩ := item_some hc
      rw [beq_iff_eq] at heq
      rw [← ih h, heq]
      rfl

theorem letters_some {s : List Char} (h : letters s cs = some ((), rest)) :
    ∃ front, front.map Char.toLower = s ∧ front ++ rest = cs := by
  induction s generalizing cs with
  | nil =>
    cases h
    exact ⟨[], rfl, rfl⟩
  | cons c s ih =>
    cases hc : item (·.toLower == c) cs with
    | none => rw [letters, bind_of_none hc] at h; cases h
    | some x =>
      obtain ⟨d, ds⟩ := x
      rw [letters, bind_of_some hc] at h
      obtain ⟨front, hlower, hfront⟩ := ih h
      obtain ⟨heq, rfl⟩ := item_some hc
      exact ⟨d :: front, by simp [hlower, beq_iff_eq.1 heq], by simp [hfront]⟩

theorem letters_of_lower {front s : List Char} (h : front.map Char.toLower = s) :
    letters s (front ++ rest) = some ((), rest) := by
  subst h
  induction front with
  | nil => rfl
  | cons c front ih =>
    have hc : item (·.toLower == c.toLower) (c :: (front ++ rest)) = some (c, front ++ rest) := by simp [item]
    rw [List.map_cons, List.cons_append, letters, bind_of_some hc]
    exact ih

theorem skip_bind (f : Unit → Parser β) (cs : List Char) :
    (skip >>= f) cs = f () (afterBlanks cs) := rfl

theorem orElse_of_some {q : Parser α} (h : p cs = some (a, rest)) :
    (p <|> q) cs = some (a, rest) := by
  change (p cs <|> q cs) = _
  rw [h]
  rfl

theorem orElse_of_none {q : Parser α} (h : p cs = none) : (p <|> q) cs = q cs := by
  change (p cs <|> q cs) = _
  rw [h]
  rfl

theorem orElse_eq_none {q : Parser α} : (p <|> q) cs = none ↔ p cs = none ∧ q cs = none := by
  cases h : p cs with
  | none => simp [orElse_of_none h]
  | some x => simp [orElse_of_some h]

theorem bind_pure_eq_none (f : α → β) :
    (do let a ← p; return f a : Parser β) cs = none ↔ p cs = none := by
  cases h : p cs with
  | none => simp [bind_of_none h]
  | some x => simp [bind_of_some h, pure_apply]

theorem choice_of_some {ps : List (Parser α)} (h : p cs = some (a, rest)) :
    choice (p :: ps) cs = some (a, rest) := orElse_of_some h

theorem choice_of_none {ps : List (Parser α)} (h : p cs = none) :
    choice (p :: ps) cs = choice ps cs := orElse_of_none h

theorem choice_some {ps : List (Parser α)} (hp : p ∈ ps) (h : p cs = some (a, rest)) :
    ∃ x, choice ps cs = some x := by
  induction ps with
  | nil => cases hp
  | cons q ps ih =>
    cases hq : q cs with
    | some x => exact ⟨x, choice_of_some hq⟩
    | none =>
      rw [choice_of_none hq]
      cases hp with
      | head => cases hq.symm.trans h
      | tail _ hp => exact ih hp

theorem choice_eq_none {ps : List (Parser α)} : choice ps cs = none ↔ ∀ p ∈ ps, p cs = none := by
  induction ps with
  | nil => exact iff_of_true rfl fun p hp => nomatch hp
  | cons p ps ih => rw [choice, orElse_eq_none, ih, List.forall_mem_cons]

theorem optional_of_some (h : p cs = some (a, rest)) :
    (optional p) cs = some (some a, rest) := by
  apply orElse_of_some
  change (p >>= fun x => pure (some x)) cs = _
  rw [bind_of_some h]
  rfl

theorem optional_of_none (h : p cs = none) : (optional p) cs = some (none, cs) := by
  apply Eq.trans (orElse_of_none _)
  · rfl
  · change (p >>= fun x => pure (some x)) cs = _
    exact bind_of_none h _

theorem reads_of_none (h : p cs = none) : reads p cs = some (false, cs) := by
  rw [reads, bind_of_some (optional_of_none h)]
  rfl

theorem absent_of_none (h : p cs = none) : absent p cs = some ((), cs) := by
  simp [absent, h]

theorem run_append {accepts : Char → Bool} {ds : List Char} (h : ∀ d ∈ ds, accepts d = true)
    (hr : rest.head?.all fun c => !accepts c) : run accepts (ds ++ rest) = some (ds, rest) := by
  induction ds with
  | nil =>
    cases rest with
    | nil => rfl
    | cons c cs => simp_all [run]
  | cons d ds ih =>
    have := ih fun x hx => h x (.tail _ hx)
    simp_all [run]

theorem run1_append {accepts : Char → Bool} {ds : List Char} (h : ∀ d ∈ ds, accepts d = true)
    (hne : ds ≠ []) (hr : rest.head?.all fun c => !accepts c) :
    run1 accepts (ds ++ rest) = some (ds, rest) := by
  cases ds with
  | nil => exact absurd rfl hne
  | cons d ds =>
    have hd : item accepts (d :: (ds ++ rest)) = some (d, ds ++ rest) := by
      simp [item, h d (.head _)]
    rw [List.cons_append, run1, bind_of_some hd,
      bind_of_some (run_append (fun x hx => h x (.tail _ hx)) hr)]
    rfl

theorem run1_some {accepts : Char → Bool} {ds : List Char} (h : run1 accepts cs = some (ds, rest)) :
    ds ≠ [] ∧ (∀ d ∈ ds, accepts d = true) ∧ ds ++ rest = cs := by
  cases hitem : item accepts cs with
  | none =>
    rw [run1, bind_of_none hitem] at h
    cases h
  | some x =>
    obtain ⟨c, mid⟩ := x
    obtain ⟨hc, rfl⟩ := item_some hitem
    rw [run1, bind_of_some hitem] at h
    cases h
    refine ⟨List.cons_ne_nil _ _, List.forall_mem_cons.2 ⟨hc, List.all_eq_true.1 List.all_takeWhile⟩, ?_⟩
    rw [List.cons_append, List.takeWhile_append_dropWhile]

theorem afterBlanks_stays (cs : List Char) :
    (afterBlanks cs).length ≤ cs.length ∧ afterBlanks (afterBlanks cs) = afterBlanks cs := by
  -- Blanks and comments call each other, so the same is shown of what stands behind a comment.
  apply afterBlanks.induct
    (fun cs => (afterBlanks cs).length ≤ cs.length ∧ afterBlanks (afterBlanks cs) = afterBlanks cs)
    (fun cs => (afterComment cs).length ≤ cs.length ∧ afterBlanks (afterComment cs) = afterComment cs)
  · exact ⟨Nat.le_refl _, rfl⟩
  · intro cs ih
    exact ⟨Nat.le_succ_of_le (Nat.le_succ_of_le ih.1), ih.2⟩
  · intro c cs hc hb ih
    rw [afterBlanks.eq_3 c cs hc, if_pos hb]
    exact ⟨Nat.le_succ_of_le ih.1, ih.2⟩
  · intro c cs hc hb
    have : afterBlanks (c :: cs) = c :: cs := by rw [afterBlanks.eq_3 c cs hc, if_neg hb]
    rw [this]
    exact ⟨Nat.le_refl _, this⟩
  · exact ⟨Nat.le_refl _, rfl⟩
  · intro cs ih
    exact ⟨Nat.le_succ_of_le ih.1, ih.2⟩
  · intro c cs hc ih
    rw [afterComment.eq_3 c cs hc]
    exact ⟨Nat.le_succ_of_le ih.1, ih.2⟩

theorem afterBlanks_length_le (cs : List Char) : (afterBlanks cs).length ≤ cs.length :=
  (afterBlanks_stays cs).1

@[simp] theorem afterBlanks_afterBlanks (cs : List Char) :
    afterBlanks (afterBlanks cs) = afterBlanks cs :=
  (afterBlanks_stays cs).2

def Solid (t : List Char) : Prop := ∀ cs, afterBlanks (t ++ cs) = t ++ cs

theorem Solid.append {t : List Char} (h : Solid t) (u : List Char) : Solid (t ++ u) := by
  intro cs
  simpa using h (u ++ cs)

theorem Solid.cons {c : Char} (hb : isBlank c = false) (hc : c ≠ '-') (t : List Char) :
    Solid (c :: t) := by
  intro cs
  simp [afterBlanks, hb, hc]

theorem Solid.minus {d : Char} (hd : d ≠ '-') (t : List Char) : Solid ('-' :: d :: t) := by
  intro cs
  simp [afterBlanks, isBlank, hd]

theorem Solid.afterBlank {t : List Char} (h : Solid t) (cs : List Char) :
    afterBlanks (' ' :: (t ++ cs)) = t ++ cs := h cs

def Takes (p : Parser α) (cs : List Char) (a : α) (rest : List Char) : Prop :=
  ∃ r, p cs = some (a, r) ∧ afterBlanks r = afterBlanks rest ∧ r.length ≤ rest.length

theorem Takes.of_eq (h : p cs = some (a, rest)) : Takes p cs a rest := ⟨rest, h, rfl, Nat.le_refl _⟩

theorem Takes.bind_skip (h : Takes p cs a rest) (f : α → Parser β) :
    (do let a ← p; skip; f a) cs = f a (afterBlanks rest) := by
  obtain ⟨r, hp, hr, _⟩ := h
  rw [bind_of_some hp, skip_bind, hr]

theorem Run.append {as bs : List α} (h : Run p cs as mid) (h' : Run p mid bs rest) :
    Run p cs (as ++ bs) rest := by
  induction h with
  | nil => exact h'
  | cons hp hlt _ ih => exact .cons hp hlt (ih h')

theorem repeatedUpTo_run {as : List α} (h : Run p cs as rest) (hend : p rest = none) {n : Nat}
    (hn : cs.length ≤ n) : repeatedUpTo p n cs = some (as, rest) := by
  induction h generalizing n with
  | nil =>
    cases n with
    | zero => rfl
    | succ n =>
      apply Eq.trans (orElse_of_none _)
      · rfl
      · exact bind_of_none hend _
  | cons hp hlt _ ih =>
    cases n with
    | zero => omega
    | succ n =>
      apply orElse_of_some
      rw [bind_of_some hp, bind_of_some (ih hend (by omega))]
      rfl

theorem repeated_run {as : List α} (h : Run p cs as rest) (hend : p rest = none) :
    repeated p cs = some (as, rest) := repeatedUpTo_run h hend (Nat.le_refl _)

theorem spaced_of_none (h : p cs = none) : spaced p cs = some ([], cs) := by
  apply Eq.trans (orElse_of_none _)
  · rfl
  · exact bind_of_none h _

theorem spaced_takes {as : List α} {r : List Char} (h : Run (do skip; p) cs as r)
    (hend : p (afterBlanks rest) = none) (hr : afterBlanks r = afterBlanks rest)
    (hlen : r.length ≤ rest.length) : Takes (spaced p) (afterBlanks cs) as rest := by
  cases h with
  | nil =>
    rw [hr]
    exact ⟨_, spaced_of_none hend, afterBlanks_afterBlanks rest, afterBlanks_length_le rest⟩
  | cons hp _ hrun =>
    rw [skip_bind] at hp
    refine ⟨r, orElse_of_some ?_, hr, hlen⟩
    rw [bind_of_some hp, bind_of_some (repeated_run hrun (by rw [skip_bind, hr, hend]))]
    rfl

end QuerySearch.Sql.Parser
