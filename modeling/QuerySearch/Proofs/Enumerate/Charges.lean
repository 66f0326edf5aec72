import Mathlib
import QuerySearch.Cost

/-! What a composite costs and what its parts cost one after the other.  A cost is a sum over
fingerprints, so the two are compared at one fingerprint at a time.  They agree but for the parts that
are charged once: when the model has run out of one, every sibling that uses it pays for it again. -/

namespace QuerySearch

namespace Counter

variable {c d : Counter} {f : Fingerprint} {n : Nat}

theorem countIn_of_mem {es : List (Fingerprint × Nat)} (hs : es.Pairwise fun a b => a.1 < b.1)
    (h : (f, n) ∈ es) : countIn f es = n := by
  induction es with
  | nil => cases h
  | cons x es ih =>
    obtain ⟨hx, hs⟩ := List.pairwise_cons.1 hs
    have hx : Behind x.1 es := hx
    rw [countIn_cons hx]
    cases List.mem_cons.1 h with
    | inl h => rw [← h, if_pos rfl]
    | inr h =>
      have hne : f ≠ x.1 := fun heq => Fingerprint.lt_irrefl f (heq ▸ hx (f, n) h)
      rw [if_neg hne, ih hs h]

theorem countIn_of_notMem {es : List (Fingerprint × Nat)} (h : f ∉ es.map Prod.fst) :
    countIn f es = 0 := by
  induction es with
  | nil => rfl
  | cons x es ih =>
    rw [List.map_cons, List.mem_cons, not_or] at h
    simp only [countIn, if_neg h.1, ih h.2, ite_self]

theorem nodup_keys (c : Counter) : (c.entries.map Prod.fst).Nodup := by
  rw [List.Nodup, List.pairwise_map]
  refine c.sorted.imp fun {a b} hlt heq => ?_
  rw [heq] at hlt
  exact Fingerprint.lt_irrefl _ hlt

def support (c : Counter) : Finset Fingerprint := (c.entries.map Prod.fst).toFinset

theorem get_of_notMem_support (h : f ∉ c.support) : c.get f = 0 :=
  countIn_of_notMem fun hf => h (List.mem_toFinset.2 hf)

theorem sum_entries {S : Finset Fingerprint} (hS : c.support ⊆ S) (v : Fingerprint → Nat → Nat)
    (h0 : ∀ f, v f 0 = 0) : (c.entries.map fun x => v x.1 x.2).sum = ∑ f ∈ S, v f (c.get f) := by
  have hkeys : c.entries.map (fun x => v x.1 x.2) =
      (c.entries.map Prod.fst).map fun f => v f (c.get f) := by
    rw [List.map_map]
    exact List.map_congr_left fun x hx => by
      rw [Function.comp_apply, get, countIn_of_mem c.sorted hx]
  rw [hkeys, ← List.sum_toFinset _ c.nodup_keys]
  exact Finset.sum_subset hS fun f _ hf => by rw [get_of_notMem_support hf, h0]

theorem get_foldl_plus (cs : List Counter) (c : Counter) (f : Fingerprint) :
    (cs.foldl plus c).get f = c.get f + (cs.map fun d => d.get f).sum := by
  induction cs generalizing c with
  | nil => rfl
  | cons d cs ih => rw [List.foldl_cons, ih, get_plus, List.map_cons, List.sum_cons, Nat.add_assoc]

@[simp] theorem get_sum (cs : List Counter) (f : Fingerprint) :
    (sum cs).get f = (cs.map fun d => d.get f).sum := by
  rw [sum, get_foldl_plus, get_empty, Nat.zero_add]

end Counter

namespace Estimator

variable (e : Estimator) {model model' used used' c : Counter} {f : Fingerprint} {n m : Nat}

theorem charge_mono (h : n ≤ m) : e.charge f n ≤ e.charge f m := by
  simp only [charge]
  grind

def costOf (model used : Counter) : Nat := e.chargeEach model.get used.entries

theorem costUnder_eq_costOf (c : Component) : e.costUnder model c = e.costOf model c.counter :=
  e.costUnder_eq model c

theorem chargeEach_eq_sum (free : Fingerprint → Nat) (es : List (Fingerprint × Nat)) :
    e.chargeEach free es = (es.map fun x => e.charge x.1 (x.2 - free x.1)).sum := by
  induction es with
  | nil => rfl
  | cons x es ih => rw [chargeEach, ih, List.map_cons, List.sum_cons]

theorem costOf_eq_sum {S : Finset Fingerprint} (hS : used.support ⊆ S) :
    e.costOf model used = ∑ f ∈ S, e.charge f (used.get f - model.get f) := by
  rw [costOf, chargeEach_eq_sum]
  exact Counter.sum_entries hS (fun f n => e.charge f (n - model.get f)) fun f => by
    rw [Nat.zero_sub, charge, if_pos rfl]

theorem costOf_mono (hused : ∀ f, used.get f ≤ used'.get f) (hmodel : ∀ f, model'.get f ≤ model.get f) :
    e.costOf model used ≤ e.costOf model' used' := by
  rw [e.costOf_eq_sum Finset.subset_union_left, e.costOf_eq_sum Finset.subset_union_right]
  exact Finset.sum_le_sum fun f _ => e.charge_mono (tsub_le_tsub (hused f) (hmodel f))

def isPaid (model used : Counter) (f : Fingerprint) : Bool :=
  f.kind.isChargedOnce && !e.template.contains f && decide (model.get f < used.get f)

theorem charge_plus (model used c : Counter) (f : Fingerprint) :
    e.charge f (used.get f + c.get f - model.get f) +
        (if 0 < c.get f then (e.isPaid model used f).toNat else 0) =
      e.charge f (used.get f - model.get f) +
        e.charge f (c.get f - (model.get f - used.get f)) := by
  by_cases honce : f.kind.isChargedOnce
  · cases ht : e.template.contains f with
    | true => simp [charge, isPaid, honce, ht]
    | false =>
      -- Every charge is zero or one here, by whether the model has been used up.
      by_cases hpaid : model.get f < used.get f
      · have hleft : used.get f - model.get f ≠ 0 := by omega
        have htotal : used.get f + c.get f - model.get f ≠ 0 := by omega
        have hrest : c.get f - (model.get f - used.get f) = c.get f := by omega
        by_cases hc : c.get f = 0
        · simp [charge, honce, ht, hleft, hc]
        · simp [charge, isPaid, honce, ht, hpaid, hleft, htotal, hrest, hc, Nat.pos_of_ne_zero hc]
      · have hleft : used.get f - model.get f = 0 := by omega
        have htotal : used.get f + c.get f - model.get f =
            c.get f - (model.get f - used.get f) := by omega
        simp [charge, isPaid, hpaid, hleft, htotal]
  · simp only [charge, isPaid, honce]
    grind

def paidAgain (model used c : Counter) : Nat :=
  (c.entries.map fun x => (e.isPaid model used x.1).toNat).sum

theorem paidAgain_eq_sum {S : Finset Fingerprint} (hS : c.support ⊆ S) :
    e.paidAgain model used c =
      ∑ f ∈ S, if 0 < c.get f then (e.isPaid model used f).toNat else 0 := by
  rw [← Counter.sum_entries hS (fun f n => if 0 < n then (e.isPaid model used f).toNat else 0)
    fun f => if_neg (Nat.lt_irrefl 0)]
  exact congrArg _ (List.map_congr_left fun x hx => (if_pos (c.positive x hx)).symm)

/-- The account of one more part: to pay for it on its own, out of what the model has left, is to
pay for all together and again for what had been paid. -/
theorem costOf_plus (model used c : Counter) :
    e.costOf model (used.plus c) + e.paidAgain model used c =
      e.costOf model used + e.costOf (model.minus used) c := by
  have hsub : (used.plus c).support ⊆ (used.plus c).support ∪ (used.support ∪ c.support) :=
    Finset.subset_union_left
  have hused : used.support ⊆ (used.plus c).support ∪ (used.support ∪ c.support) :=
    Finset.subset_union_left.trans Finset.subset_union_right
  have hc : c.support ⊆ (used.plus c).support ∪ (used.support ∪ c.support) :=
    Finset.subset_union_right.trans Finset.subset_union_right
  rw [e.costOf_eq_sum hsub, e.paidAgain_eq_sum hc, e.costOf_eq_sum hused, e.costOf_eq_sum hc,
    ← Finset.sum_add_distrib, ← Finset.sum_add_distrib]
  refine Finset.sum_congr rfl fun f _ => ?_
  simp only [Counter.get_plus, Counter.get_minus]
  exact e.charge_plus model used c f

end Estimator

end QuerySearch
