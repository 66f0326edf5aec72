import QuerySearch.Component.Fingerprint

/-! Multisets of fingerprints.  The entries are sorted and their counts are positive, so two counters
are equal just if they count the same.  Sum, difference and union are one merge of the sorted
entries, with the counts combined by addition, cut-off subtraction and maximum. -/

namespace QuerySearch

structure Counter where
  entries : List (Fingerprint × Nat)
  sorted : entries.Pairwise fun a b => a.1 < b.1
  positive : ∀ e ∈ entries, 0 < e.2

namespace Counter

def empty : Counter := ⟨[], .nil, by simp⟩

def single (f : Fingerprint) (n : Nat) : Counter :=
  if h : 0 < n then ⟨[(f, n)], by simp, by simp [h]⟩ else empty

def countIn (f : Fingerprint) : List (Fingerprint × Nat) → Nat
  | [] => 0
  | (g, n) :: es => if f = g then n else if f < g then 0 else countIn f es

def get (c : Counter) (f : Fingerprint) : Nat := countIn f c.entries

def contains (c : Counter) (f : Fingerprint) : Bool := 0 < c.get f

def size (c : Counter) : Nat := c.entries.length

def isEmpty (c : Counter) : Bool := c.entries.isEmpty

section Merge

variable (combine : Nat → Nat → Nat)

def keep (f : Fingerprint) (n : Nat) (es : List (Fingerprint × Nat)) : List (Fingerprint × Nat) :=
  if n = 0 then es else (f, n) :: es

def mergeEntries : (left right : List (Fingerprint × Nat)) → List (Fingerprint × Nat)
  | [], [] => []
  | (f, n) :: es, [] => keep f (combine n 0) (mergeEntries es [])
  | [], (g, m) :: ds => keep g (combine 0 m) (mergeEntries [] ds)
  | (f, n) :: es, (g, m) :: ds =>
    if f < g then keep f (combine n 0) (mergeEntries es ((g, m) :: ds))
    else if g < f then keep g (combine 0 m) (mergeEntries ((f, n) :: es) ds)
    else keep f (combine n m) (mergeEntries es ds)
  termination_by left right => left.length + right.length

theorem keep_positive {f : Fingerprint} {n : Nat} {es : List (Fingerprint × Nat)}
    (h : ∀ e ∈ es, 0 < e.2) : ∀ e ∈ keep f n es, 0 < e.2 := by
  simp only [keep]
  split
  · exact h
  · rename_i hn
    simpa [Nat.pos_iff_ne_zero, hn] using h

theorem mergeEntries_positive {left right : List (Fingerprint × Nat)} :
    ∀ e ∈ mergeEntries combine left right, 0 < e.2 := by
  fun_induction mergeEntries combine left right with
  | case1 => simp
  | case2 f n es ih => exact keep_positive ih
  | case3 g m ds ih => exact keep_positive ih
  | case4 f n es g m ds hlt ih => exact keep_positive ih
  | case5 f n es g m ds hlt hgt ih => exact keep_positive ih
  | case6 f n es g m ds hlt hgt ih => exact keep_positive ih

def Behind (f : Fingerprint) (es : List (Fingerprint × Nat)) : Prop := ∀ e ∈ es, f < e.1

theorem Behind.cons {f g : Fingerprint} {n : Nat} {es : List (Fingerprint × Nat)} (h : f < g)
    (hs : Behind g es) : Behind f ((g, n) :: es) := by
  intro e he
  rcases List.mem_cons.1 he with rfl | he
  · exact h
  · exact Fingerprint.lt_trans h (hs e he)

theorem Behind.keep {f g : Fingerprint} {n : Nat} {es : List (Fingerprint × Nat)} (h : f < g)
    (hs : Behind f es) : Behind f (keep g n es) := by
  simp only [Counter.keep]
  split
  · exact hs
  · intro e he
    rcases List.mem_cons.1 he with rfl | he
    · exact h
    · exact hs e he

theorem Behind.mergeEntries {f : Fingerprint} {left right : List (Fingerprint × Nat)}
    (hl : Behind f left) (hr : Behind f right) : Behind f (mergeEntries combine left right) := by
  fun_induction Counter.mergeEntries combine left right with
  | case1 => exact hl
  | case2 g n es ih => exact .keep (hl _ (.head _)) (ih (fun e he => hl e (.tail _ he)) hr)
  | case3 g m ds ih => exact .keep (hr _ (.head _)) (ih hl fun e he => hr e (.tail _ he))
  | case4 g n es k m ds hlt ih => exact .keep (hl _ (.head _)) (ih (fun e he => hl e (.tail _ he)) hr)
  | case5 g n es k m ds hlt hgt ih => exact .keep (hr _ (.head _)) (ih hl fun e he => hr e (.tail _ he))
  | case6 g n es k m ds hlt hgt ih =>
    exact .keep (hl _ (.head _)) (ih (fun e he => hl e (.tail _ he)) fun e he => hr e (.tail _ he))

theorem keep_sorted {f : Fingerprint} {n : Nat} {es : List (Fingerprint × Nat)}
    (hf : Behind f es) (hs : es.Pairwise fun a b => a.1 < b.1) :
    (keep f n es).Pairwise fun a b => a.1 < b.1 := by
  simp only [keep]
  split
  · exact hs
  · exact List.pairwise_cons.2 ⟨hf, hs⟩

theorem mergeEntries_sorted {left right : List (Fingerprint × Nat)}
    (hl : left.Pairwise fun a b => a.1 < b.1) (hr : right.Pairwise fun a b => a.1 < b.1) :
    (mergeEntries combine left right).Pairwise fun a b => a.1 < b.1 := by
  fun_induction mergeEntries combine left right with
  | case1 => exact hl
  | case2 f n es ih =>
    obtain ⟨hf, hl⟩ := List.pairwise_cons.1 hl
    exact keep_sorted (.mergeEntries combine hf (by simp [Behind])) (ih hl hr)
  | case3 g m ds ih =>
    obtain ⟨hg, hr⟩ := List.pairwise_cons.1 hr
    exact keep_sorted (.mergeEntries combine (by simp [Behind]) hg) (ih hl hr)
  | case4 f n es g m ds hlt ih =>
    obtain ⟨hf, hl⟩ := List.pairwise_cons.1 hl
    exact keep_sorted (.mergeEntries combine hf (.cons hlt (List.pairwise_cons.1 hr).1)) (ih hl hr)
  | case5 f n es g m ds hlt hgt ih =>
    obtain ⟨hg, hr⟩ := List.pairwise_cons.1 hr
    exact keep_sorted (.mergeEntries combine (.cons hgt (List.pairwise_cons.1 hl).1) hg) (ih hl hr)
  | case6 f n es g m ds hlt hgt ih =>
    obtain rfl := Fingerprint.eq_of_not_lt hlt hgt
    obtain ⟨hf, hl'⟩ := List.pairwise_cons.1 hl
    obtain ⟨hg, hr'⟩ := List.pairwise_cons.1 hr
    exact keep_sorted (.mergeEntries combine hf hg) (ih hl' hr')

theorem countIn_of_behind {f : Fingerprint} {es : List (Fingerprint × Nat)} (h : Behind f es) :
    countIn f es = 0 := by
  cases es with
  | nil => rfl
  | cons e es =>
    have hlt : f < e.1 := h e (.head _)
    have hne : f ≠ e.1 := fun heq => Fingerprint.lt_irrefl f (heq ▸ hlt)
    simp [countIn, hne, hlt]

theorem countIn_cons {f : Fingerprint} {n : Nat} {es : List (Fingerprint × Nat)} (h : Behind f es)
    (x : Fingerprint) : countIn x ((f, n) :: es) = if x = f then n else countIn x es := by
  simp only [countIn]
  split
  · rfl
  · split
    · rename_i hlt
      exact (countIn_of_behind fun e he => Fingerprint.lt_trans hlt (h e he)).symm
    · rfl

theorem countIn_keep {f : Fingerprint} {n : Nat} {es : List (Fingerprint × Nat)} (h : Behind f es)
    (x : Fingerprint) : countIn x (keep f n es) = if x = f then n else countIn x es := by
  simp only [keep]
  split
  · split
    · rename_i hn hx
      rw [hn, hx, countIn_of_behind h]
    · rfl
  · exact countIn_cons h x

theorem countIn_mergeEntries (h0 : combine 0 0 = 0) {left right : List (Fingerprint × Nat)}
    (hl : left.Pairwise fun a b => a.1 < b.1) (hr : right.Pairwise fun a b => a.1 < b.1)
    (x : Fingerprint) :
    countIn x (mergeEntries combine left right) = combine (countIn x left) (countIn x right) := by
  fun_induction mergeEntries combine left right with
  | case1 => exact h0.symm
  | case2 f n es ih =>
    obtain ⟨hf, hl⟩ := List.pairwise_cons.1 hl
    rw [countIn_keep (.mergeEntries combine hf (by simp [Behind])), ih hl hr, countIn_cons hf]
    split
    · rfl
    · rfl
  | case3 g m ds ih =>
    obtain ⟨hg, hr⟩ := List.pairwise_cons.1 hr
    rw [countIn_keep (.mergeEntries combine (by simp [Behind]) hg), ih hl hr, countIn_cons hg]
    split
    · rfl
    · rfl
  | case4 f n es g m ds hlt ih =>
    obtain ⟨hf, hl⟩ := List.pairwise_cons.1 hl
    have hr' : Behind f ((g, m) :: ds) := .cons hlt (List.pairwise_cons.1 hr).1
    rw [countIn_keep (.mergeEntries combine hf hr'), ih hl hr, countIn_cons hf]
    split
    · rename_i hx
      rw [hx, countIn_of_behind hr']
    · rfl
  | case5 f n es g m ds hlt hgt ih =>
    obtain ⟨hg, hr⟩ := List.pairwise_cons.1 hr
    have hl' : Behind g ((f, n) :: es) := .cons hgt (List.pairwise_cons.1 hl).1
    rw [countIn_keep (.mergeEntries combine hl' hg), ih hl hr, countIn_cons hg]
    split
    · rename_i hx
      rw [hx, countIn_of_behind hl']
    · rfl
  | case6 f n es g m ds hlt hgt ih =>
    obtain rfl := Fingerprint.eq_of_not_lt hlt hgt
    obtain ⟨hf, hl⟩ := List.pairwise_cons.1 hl
    obtain ⟨hg, hr⟩ := List.pairwise_cons.1 hr
    rw [countIn_keep (.mergeEntries combine hf hg), ih hl hr, countIn_cons hf, countIn_cons hg]
    split
    · rfl
    · rfl

def merge (a b : Counter) : Counter where
  entries := mergeEntries combine a.entries b.entries
  sorted := mergeEntries_sorted combine a.sorted b.sorted
  positive := mergeEntries_positive combine

theorem get_merge (h0 : combine 0 0 = 0) (a b : Counter) (f : Fingerprint) :
    (a.merge combine b).get f = combine (a.get f) (b.get f) :=
  countIn_mergeEntries combine h0 a.sorted b.sorted f

end Merge

theorem eq_of_countIn {es ds : List (Fingerprint × Nat)}
    (hs : es.Pairwise fun a b => a.1 < b.1) (hs' : ds.Pairwise fun a b => a.1 < b.1)
    (hp : ∀ e ∈ es, 0 < e.2) (hp' : ∀ e ∈ ds, 0 < e.2)
    (h : ∀ f, countIn f es = countIn f ds) : es = ds := by
  induction es generalizing ds with
  | nil =>
    cases ds with
    | nil => rfl
    | cons d ds =>
      have hd := hp' d (.head _)
      have := h d.1
      simp [countIn] at this
      omega
  | cons e es ih =>
    obtain ⟨f, n⟩ := e
    obtain ⟨hf, ht⟩ := List.pairwise_cons.1 hs
    have hn : 0 < n := hp _ (.head _)
    cases ds with
    | nil =>
      have := h f
      simp [countIn] at this
      omega
    | cons d ds =>
      obtain ⟨g, m⟩ := d
      obtain ⟨hg, ht'⟩ := List.pairwise_cons.1 hs'
      have hm : 0 < m := hp' _ (.head _)
      have hfg : f = g := Fingerprint.eq_of_not_lt
        (fun hlt => by
          have := h f
          rw [countIn_of_behind (.cons hlt hg)] at this
          simp [countIn] at this
          omega)
        (fun hlt => by
          have := h g
          rw [countIn_of_behind (.cons hlt hf)] at this
          simp [countIn] at this
          omega)
      subst hfg
      have hnm : n = m := by simpa [countIn] using h f
      subst hnm
      have htails : ∀ x, countIn x es = countIn x ds := fun x => by
        by_cases hx : x = f
        · rw [hx, countIn_of_behind hf, countIn_of_behind hg]
        · simpa [countIn_cons hf, countIn_cons hg, hx] using h x
      rw [ih ht ht' (fun e he => hp e (.tail _ he)) (fun e he => hp' e (.tail _ he)) htails]

@[ext] theorem ext {a b : Counter} (h : ∀ f, a.get f = b.get f) : a = b := by
  have := eq_of_countIn a.sorted b.sorted a.positive b.positive h
  cases a; cases b; simp_all

@[simp] theorem get_empty (f : Fingerprint) : empty.get f = 0 := rfl

@[simp] theorem get_single (f : Fingerprint) (n : Nat) (g : Fingerprint) :
    (single f n).get g = if g = f then n else 0 := by
  simp only [single]
  split
  · exact countIn_cons (by simp [Behind]) g
  · rename_i hn
    have : n = 0 := by omega
    simp [this]

def plus (a b : Counter) : Counter := a.merge (· + ·) b

@[simp] theorem get_plus (a b : Counter) (f : Fingerprint) : (a.plus b).get f = a.get f + b.get f :=
  get_merge _ rfl a b f

def minus (a b : Counter) : Counter := a.merge (· - ·) b

@[simp] theorem get_minus (a b : Counter) (f : Fingerprint) : (a.minus b).get f = a.get f - b.get f :=
  get_merge _ rfl a b f

def union (a b : Counter) : Counter := a.merge max b

@[simp] theorem get_union (a b : Counter) (f : Fingerprint) :
    (a.union b).get f = max (a.get f) (b.get f) :=
  get_merge _ rfl a b f

def insert (c : Counter) (f : Fingerprint) (n : Nat) : Counter := c.plus (single f n)

@[simp] theorem get_insert (c : Counter) (f : Fingerprint) (n : Nat) (g : Fingerprint) :
    (c.insert f n).get g = c.get g + if g = f then n else 0 := by
  simp [insert]

def ofList (fs : List Fingerprint) : Counter := fs.foldl (fun c f => c.insert f 1) empty

def sum (cs : List Counter) : Counter := cs.foldl plus empty

end Counter

end QuerySearch
