import QuerySearch.Proofs.Search.Shelves

/-! What is in a bank after it has been filled.  However components are put in, one by one, as lists or with
another bank, the bank lists the first occurrence of each of them, in the order in which they came. -/

namespace QuerySearch

namespace Component

section Unique

variable {c d : Component} {cs : List Component}

theorem contains_unique (c : Component) (cs : List Component) : (unique cs).contains c = cs.contains c := by
  rw [Bool.eq_iff_iff, contains_iff, contains_iff]
  simpa only [List.mem_map] using mem_keys_unique c.fingerprint cs

theorem contains_filter_of_ne (h : (d == c) = false) :
    (cs.filter fun e => !(e == c)).contains d = cs.contains d := by
  rw [Bool.eq_iff_iff, contains_iff, contains_iff]
  constructor
  · rintro ⟨e, he, hkey⟩
    exact ⟨e, (List.mem_filter.1 he).1, hkey⟩
  · rintro ⟨e, he, hkey⟩
    refine ⟨e, List.mem_filter.2 ⟨he, ?_⟩, hkey⟩
    rw [Bool.not_eq_true', ← h, Bool.eq_iff_iff, beq_iff, beq_iff, hkey]

theorem unique_append_singleton (cs : List Component) (d : Component) :
    unique (cs ++ [d]) = if cs.contains d then unique cs else unique cs ++ [d] := by
  induction hlength : cs.length using Nat.strong_induction_on generalizing cs with
  | h n ih =>
    cases cs with
    | nil => simp [unique_cons]
    | cons c cs =>
      have hshorter : (cs.filter fun e => !(e == c)).length < n := by
        rw [← hlength]
        exact Nat.lt_succ_of_le (List.length_filter_le _ _)
      rw [List.cons_append, unique_cons, List.filter_append, unique_cons, List.contains_cons]
      cases hd : d == c with
      | true => simp [hd]
      | false =>
        simp only [List.filter_cons, hd, Bool.not_false, if_true, List.filter_nil, ih _ hshorter _ rfl,
          contains_filter_of_ne hd, Bool.false_or]
        split <;> rfl

end Unique

def byKind (cs : List Component) : List Component := Kind.all.flatMap fun k => cs.filter fun c => c.kind == k

end Component

namespace Bank

open Component (unique byKind)

/-- The ways to fill a bank, starting from an empty one. -/
inductive Filling where
  | empty
  | insert (before : Filling) (c : Component)
  | extend (before : Filling) (cs : List Component)
  | merge (before other : Filling)

namespace Filling

def bank : Filling → Bank
  | empty => .empty
  | insert before c => before.bank.insert c
  | extend before cs => before.bank.insertAll cs
  | merge before other => before.bank.merge other.bank

/-- All that is put in, in order.  Another bank gives what it has once, by kind. -/
def inserted : Filling → List Component
  | empty => []
  | insert before c => before.inserted ++ [c]
  | extend before cs => before.inserted ++ cs
  | merge before other => before.inserted ++ byKind (unique other.inserted)

end Filling

structure Lists (b : Bank) (found : List Component) : Prop where
  ofKind : ∀ k, b.ofKind k = found.filter fun c => c.kind == k
  contains : ∀ c, b.contains c = found.contains c
  size : b.size = found.length

section Contents

variable {b : Bank} {cs : List Component} {found : List Component}

theorem lists_empty : empty.Lists [] := ⟨fun _ => by simp, fun _ => by simp, rfl⟩

theorem size_insert (b : Bank) (c : Component) :
    (b.insert c).size = if b.contains c then b.size else b.size + 1 := by
  cases h : b.contains c with
  | true => rw [insert_of_contains h, if_pos rfl]
  | false =>
    have hkey : c.fingerprint ∉ b.keys := by simpa [contains, Std.HashSet.contains_iff_mem] using h
    simp [insert, size, h, Std.HashSet.size_insert, hkey]

theorem Lists.insert (h : b.Lists (unique cs)) (c : Component) : (b.insert c).Lists (unique (cs ++ [c])) := by
  have hnew : b.contains c = cs.contains c := (h.contains c).trans (Component.contains_unique c cs)
  cases hc : cs.contains c with
  | true =>
    rw [Component.unique_append_singleton, if_pos hc, insert_of_contains (hnew.trans hc)]
    exact h
  | false =>
    rw [Component.unique_append_singleton, if_neg (by simp [hc])]
    refine ⟨fun k => ?_, fun d => ?_, ?_⟩
    · rw [ofKind_insert, hnew, hc, h.ofKind, List.filter_append, List.filter_singleton]
      cases c.kind == k <;> simp
    · rw [contains_insert, h.contains, List.contains_eq_any_beq, List.contains_eq_any_beq, List.any_append,
        Bool.or_comm, List.any_cons, List.any_nil, Bool.or_false]
      rw [Bool.eq_iff_iff.2 (Component.beq_iff.trans (eq_comm.trans Component.beq_iff.symm))]
    · rw [size_insert, hnew, hc, h.size, List.length_append]
      rfl

theorem Lists.insertAll (h : b.Lists (unique cs)) (ds : List Component) :
    (b.insertAll ds).Lists (unique (cs ++ ds)) := by
  induction ds generalizing b cs with
  | nil => rwa [List.append_nil]
  | cons d ds ih =>
    have hrest := ih (h.insert d)
    rwa [List.append_assoc] at hrest

theorem Lists.toList (h : b.Lists found) : b.toList = byKind found :=
  List.flatMap_congr fun k _ => h.ofKind k

theorem Filling.lists (f : Filling) : f.bank.Lists (unique f.inserted) := by
  induction f with
  | empty => exact lists_empty
  | insert before c ih => exact ih.insert c
  | extend before cs ih => exact ih.insertAll cs
  | merge before other ih ihother =>
    rw [bank, Bank.merge, ihother.toList]
    exact ih.insertAll _

theorem Filling.orderly (f : Filling) : f.bank.Orderly := by
  induction f with
  | empty => exact orderly_empty
  | insert before c ih => exact ih.insert c
  | extend before cs ih => exact ih.insertAll cs
  | merge before other ih => exact ih.insertAll _

theorem filter_flatMap_admits (slot : Category) (p : Component → Bool) (cs : List Component) (ks : List Kind) :
    (ks.filter slot.admits).flatMap (fun k => (cs.filter fun c => c.kind == k).filter p) =
      (ks.flatMap fun k => cs.filter fun c => c.kind == k).filter fun c => slot.admits c.kind && p c := by
  induction ks with
  | nil => rfl
  | cons k ks ih =>
    have hkind : ((cs.filter fun c => c.kind == k).filter fun c => slot.admits c.kind && p c) =
        if slot.admits k then (cs.filter fun c => c.kind == k).filter p else [] := by
      have hcongr : ∀ c ∈ cs.filter fun c => c.kind == k,
          (slot.admits c.kind && p c) = (slot.admits k && p c) := by
        intro c hc
        rw [beq_iff_eq.1 (List.mem_filter.1 hc).2]
      rw [List.filter_congr hcongr]
      cases slot.admits k <;> simp
    rw [List.flatMap_cons, List.filter_append, hkind, ← ih, List.filter_cons]
    split <;> rfl

theorem Lists.select (h : b.Lists found) (e : Estimator) (slot : Category) (budget : Int) (model : Counter)
    (rs : List Requirement) : b.select e slot budget model rs = (byKind found).filter fun c =>
      slot.admits c.kind && (Requirement.allHold c rs && decide (e.costUnder model c ≤ budget)) := by
  rw [byKind, ← filter_flatMap_admits, Bank.select]
  refine List.flatMap_congr fun k _ => ?_
  rw [Array.toList_filter, ← h.ofKind]
  rfl

end Contents

/-- However a bank has been filled, it lists under every kind the first occurrence of each component put
in, in the order in which they came, and it gives a slot what fits it out of these, by kind. -/
theorem filled_contents (f : Filling) :
    (∀ k, f.bank.ofKind k = (unique f.inserted).filter fun c => c.kind == k) ∧
    (∀ k, (f.bank.ofKind k).Pairwise fun c d => (c == d) = false) ∧
    (∀ c, f.bank.contains c = true ↔ ∃ d ∈ f.inserted, (d == c) = true) ∧
    f.bank.size = (unique f.inserted).length ∧
    ∀ e slot budget model rs,
      (f.bank.select e slot budget model rs = (byKind (unique f.inserted)).filter fun c =>
        slot.admits c.kind && (Requirement.allHold c rs && decide (e.costUnder model c ≤ budget))) ∧
      (budget < 0 → f.bank.select e slot budget model rs = []) := by
  refine ⟨f.lists.ofKind, fun k => ?_, fun c => ?_, f.lists.size,
    fun e slot budget model rs => ⟨f.lists.select e slot budget model rs, fun hbudget => ?_⟩⟩
  · exact (f.orderly.distinct k).imp fun hne => by simpa [← Bool.not_eq_true] using hne
  · rw [f.lists.contains, Component.contains_unique, Component.contains_iff]
    simp only [Component.beq_iff]
  · rw [List.eq_nil_iff_forall_not_mem]
    intro c hc
    have hcost := (mem_select.1 hc).2.2
    omega

def sentinels : Filling :=
  .merge (.insert (.insert .empty .distinct) .absent) (.extend .empty [.absent, .distinct, .absent])

theorem filled_contents_sentinels : sentinels.bank.contains .absent = true ∧ (-1 : Int) < 0 ∧
    sentinels.bank.select ⟨.empty, .empty⟩ .predicate (-1) .empty [] = [] := by
  obtain ⟨-, -, hcontains, -, hselect⟩ := filled_contents sentinels
  refine ⟨(hcontains .absent).2 ⟨.absent, ?_, by simp⟩, by decide, (hselect _ _ _ _ _).2 (by decide)⟩
  simp [sentinels, Filling.inserted]

end Bank

end QuerySearch
