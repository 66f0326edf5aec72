import Mathlib.Data.List.Forall2

/-! Computations that may fail, where they succeed, and what they do to their state. -/

namespace QuerySearch

theorem ok_of_bind {ε α β : Type} {x : Except ε α} {f : α → Except ε β} {b : β}
    (h : (x >>= f) = .ok b) : ∃ a, x = .ok a ∧ f a = .ok b := by
  cases x with
  | error e => cases h
  | ok a => exact ⟨a, rfl, h⟩

theorem forall₂_of_mapM {ε α β : Type} {f : α → Except ε β} {xs : List α} {ys : List β}
    (h : xs.mapM f = .ok ys) : List.Forall₂ (fun x y => f x = .ok y) xs ys := by
  induction xs generalizing ys with
  | nil =>
    cases h
    exact .nil
  | cons x xs ih =>
    rw [List.mapM_cons] at h
    obtain ⟨y, hy, h⟩ := ok_of_bind h
    obtain ⟨ys', hys, h⟩ := ok_of_bind h
    cases h
    exact .cons hy (ih hys)

theorem exists_ok_mapM {ε α β : Type} {f : α → Except ε β} {xs : List α} (h : ∀ x ∈ xs, ∃ y, f x = .ok y) :
    ∃ ys, xs.mapM f = .ok ys := by
  induction xs with
  | nil => exact ⟨[], rfl⟩
  | cons x xs ih =>
    rw [List.forall_mem_cons] at h
    obtain ⟨⟨y, hy⟩, hxs⟩ := h
    obtain ⟨ys, hys⟩ := ih hxs
    exact ⟨y :: ys, by rw [List.mapM_cons, hy, hys]; rfl⟩

theorem exists_of_forall₂ {α β : Type} {r : α → β → Prop} {xs : List α} {ys : List β} {y : β}
    (h : List.Forall₂ r xs ys) (hy : y ∈ ys) : ∃ x ∈ xs, r x y := by
  induction h with
  | nil => cases hy
  | @cons x z xs zs hr _ ih =>
    cases hy with
    | head => exact ⟨x, .head _, hr⟩
    | tail _ hy =>
      obtain ⟨x', hx', hr'⟩ := ih hy
      exact ⟨x', .tail _ hx', hr'⟩

theorem forall₂_trans {α β γ : Type} {r : α → β → Prop} {r' : β → γ → Prop} {p : α → γ → Prop} {xs : List α}
    {ys : List β} {zs : List γ} (htrans : ∀ x y z, r x y → r' y z → p x z) (h : List.Forall₂ r xs ys)
    (h' : List.Forall₂ r' ys zs) : List.Forall₂ p xs zs := by
  induction h generalizing zs with
  | nil =>
    cases h'
    exact .nil
  | cons hxy _ ih =>
    obtain ⟨z, zs, hyz, hzs, rfl⟩ := List.forall₂_cons_left_iff.1 h'
    exact .cons (htrans _ _ z hxy hyz) (ih hzs)

theorem getElem?_of_forall₂ {α β : Type} {r : α → β → Prop} {xs : List α} {ys : List β} {y : β} {i : Nat}
    (h : List.Forall₂ r xs ys) (hy : ys[i]? = some y) : ∃ x, xs[i]? = some x ∧ r x y := by
  induction h generalizing i with
  | nil => cases hy
  | @cons x _ _ _ hr _ ih =>
    cases i with
    | zero =>
      cases hy
      exact ⟨x, rfl, hr⟩
    | succ i => exact ih hy

def Gives {ε σ α : Type} (x : ExceptT ε (StateM σ) α) (s : σ) (a : α) (t : σ) : Prop :=
  x s = (.ok a, t)

section Steps

variable {ε σ α β : Type} {x : ExceptT ε (StateM σ) α} {f : α → ExceptT ε (StateM σ) β} {s t : σ}
  {a c : α} {b : β}

theorem gives_pure : Gives (pure a : ExceptT ε (StateM σ) α) s c t ↔ a = c ∧ s = t := by
  constructor
  · intro h
    cases h
    exact ⟨rfl, rfl⟩
  · rintro ⟨rfl, rfl⟩
    rfl

theorem bind_apply (x : ExceptT ε (StateM σ) α) (f : α → ExceptT ε (StateM σ) β) (s : σ) :
    (x >>= f) s = match x s with
      | (.ok a, u) => f a u
      | (.error e, u) => (.error e, u) := by
  change (ExceptT.bind x f : StateM _ _) s = _
  simp only [ExceptT.bind, ExceptT.mk, bind, StateT.bind]
  rcases x s with ⟨_ | _, _⟩ <;> rfl

theorem gives_bind : Gives (x >>= f) s b t ↔ ∃ a u, Gives x s a u ∧ Gives (f a) u b t := by
  constructor
  · intro h
    rw [Gives, bind_apply] at h
    cases hx : x s with
    | mk r u =>
      rw [hx] at h
      cases r with
      | error e => cases h
      | ok a => exact ⟨a, u, hx, h⟩
  · rintro ⟨a, u, hx, hf⟩
    rw [Gives] at hx
    rw [Gives, bind_apply, hx]
    exact hf

theorem gives_liftM {r : Except ε α} :
    Gives (liftM r : ExceptT ε (StateM σ) α) s a t ↔ r = .ok a ∧ s = t := by
  have hlift : (liftM r : ExceptT ε (StateM σ) α) s = (r, s) := by cases r <;> rfl
  rw [Gives, hlift]
  constructor
  · intro h
    cases h
    exact ⟨rfl, rfl⟩
  · rintro ⟨rfl, rfl⟩
    rfl

theorem gives_modifyGet {g : σ → α × σ} :
    Gives (modifyGet g : ExceptT ε (StateM σ) α) s a t ↔ g s = (a, t) := by
  have hrun : (modifyGet g : ExceptT ε (StateM σ) α) s = (.ok (g s).1, (g s).2) := rfl
  rw [Gives, hrun]
  constructor
  · intro h
    cases h
    rfl
  · intro h
    rw [h]

theorem gives_throw {e : ε} : ¬ Gives (throw e : ExceptT ε (StateM σ) α) s a t := by
  intro h
  cases h

end Steps

/-- It succeeds with what `post` admits where `ok` holds, and else fails as `bad` admits. -/
def Decides {ε α : Type} (ok : Prop) (bad : ε → Prop) (post : α → Prop) : Except ε α → Prop
  | .ok a => ok ∧ post a
  | .error e => ¬ ok ∧ bad e

def Settles {ε σ α : Type} (ok : Prop) (bad : ε → Prop) (post : α → Prop)
    (x : ExceptT ε (StateM σ) α) : Prop :=
  ∀ s, Decides ok bad post (x s).1

section Decisions

variable {ε σ α β : Type} {ok ok' : Prop} {bad : ε → Prop} {post : α → Prop} {post' : β → Prop}

theorem Decides.congr {x : Except ε α} (h : Decides ok bad post x) (hok : ok ↔ ok') :
    Decides ok' bad post x :=
  propext hok ▸ h

theorem Decides.succeeds {x : Except ε α} (h : Decides ok bad post x) (hok : ok) :
    ∃ a, x = .ok a ∧ post a := by
  cases x with
  | error e => exact absurd hok h.1
  | ok a => exact ⟨a, rfl, h.2⟩

theorem Decides.fails {x : Except ε α} (h : Decides ok bad post x) (hok : ¬ ok) :
    ∃ e, x = .error e ∧ bad e := by
  cases x with
  | error e => exact ⟨e, rfl, h.2⟩
  | ok a => exact absurd h.1 hok

theorem Decides.bind {x : Except ε α} {f : α → Except ε β} (h : Decides ok bad post x)
    (hf : ∀ a, post a → Decides ok' bad post' (f a)) : Decides (ok ∧ ok') bad post' (x >>= f) := by
  cases x with
  | error e => exact ⟨fun hok => h.1 hok.1, h.2⟩
  | ok a => exact (hf a h.2).congr (and_iff_right h.1).symm

theorem Decides.of_ok {x : Except ε α} (h : ∃ a, x = .ok a) :
    Decides True bad (fun _ => True) x := by
  obtain ⟨a, rfl⟩ := h
  exact ⟨trivial, trivial⟩

theorem Decides.map {x : Except ε α} {f : α → Except ε β} (h : Decides ok bad post x)
    (hf : ∀ a, ∃ b, f a = .ok b) : Decides ok bad (fun _ => True) (x >>= f) :=
  (h.bind fun a _ => Decides.of_ok (hf a)).congr (and_iff_left trivial)

theorem Decides.mapM {oks : α → Prop} {f : α → Except ε β} {xs : List α}
    (h : ∀ x ∈ xs, Decides (oks x) bad (fun _ => True) (f x)) :
    Decides (∀ x ∈ xs, oks x) bad (fun _ => True) (xs.mapM f) := by
  induction xs with
  | nil => exact Decides.of_ok ⟨[], rfl⟩ |>.congr (by simp)
  | cons x xs ih =>
    rw [List.forall_mem_cons] at h
    rw [List.mapM_cons, List.forall_mem_cons]
    exact h.1.bind fun y _ => (ih h.2).map fun ys => ⟨y :: ys, rfl⟩

theorem Settles.congr {x : ExceptT ε (StateM σ) α} (h : Settles ok bad post x) (hok : ok ↔ ok') :
    Settles ok' bad post x :=
  fun s => (h s).congr hok

theorem Settles.pure {a : α} (h : post a) :
    Settles True bad post (pure a : ExceptT ε (StateM σ) α) :=
  fun _ => ⟨trivial, h⟩

theorem Settles.liftM {x : Except ε α} (h : Decides ok bad post x) :
    Settles ok bad post (liftM x : ExceptT ε (StateM σ) α) := by
  intro s
  cases x <;> exact h

theorem Settles.modifyGet {g : σ → α × σ} (h : ∀ s, post (g s).1) :
    Settles True bad post (modifyGet g : ExceptT ε (StateM σ) α) :=
  fun s => ⟨trivial, h s⟩

theorem Settles.bind {x : ExceptT ε (StateM σ) α} {f : α → ExceptT ε (StateM σ) β}
    (h : Settles ok bad post x) (hf : ∀ a, post a → Settles ok' bad post' (f a)) :
    Settles (ok ∧ ok') bad post' (x >>= f) := by
  intro s
  have hx := h s
  rw [bind_apply]
  rcases hrun : x s with ⟨e | a, u⟩
  · rw [hrun] at hx
    exact ⟨fun hok => hx.1 hok.1, hx.2⟩
  · rw [hrun] at hx
    exact (hf a hx.2 u).congr (and_iff_right hx.1).symm

theorem Settles.andThen {x : ExceptT ε (StateM σ) α} {f : α → ExceptT ε (StateM σ) β}
    (h : Settles True bad post x) (hf : ∀ a, post a → Settles ok bad post' (f a)) :
    Settles ok bad post' (x >>= f) :=
  (h.bind hf).congr (and_iff_right trivial)

end Decisions

end QuerySearch
