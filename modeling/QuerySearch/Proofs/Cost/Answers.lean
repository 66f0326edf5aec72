import QuerySearch.Component.Lemmas
import QuerySearch.Cost.Table
import QuerySearch.Proofs.Enumerate.Charges

/-! Costs that are looked up are those that would be found.  A table answers every request as the sum over
the counts of the component, whatever it was asked before, as long as the components it is asked about
have the same counts if they have the same fingerprint. -/

namespace QuerySearch

def Estimator.sumOver (e : Estimator) (model : Counter) (c : Component) : Int :=
  ∑ f ∈ c.counter.support, (e.charge f (c.counter.get f - model.get f) : Int)

namespace CostTable

inductive Request where
  | cost (c : Component)
  | costUnder (m : CostModel) (c : Component)
  | allow (allowance : Counter)

namespace Request

def component? : Request → Option Component
  | cost c | costUnder _ c => some c
  | allow _ => none

end Request

def serve (t : CostTable) : Request → Option Int × CostTable
  | .cost c => (some (t.cost c).1, (t.cost c).2)
  | .costUnder m c => (some (t.costUnder m c).1, (t.costUnder m c).2)
  | .allow allowance => (none, t.allow allowance)

def serveAll (t : CostTable) : List Request → List (Option Int) × CostTable
  | [] => ([], t)
  | r :: rs => ((t.serve r).1 :: ((t.serve r).2.serveAll rs).1, ((t.serve r).2.serveAll rs).2)

def sums (e : Estimator) : List Request → List (Option Int)
  | [] => []
  | .cost c :: rs => some (e.sumOver e.model c) :: sums e rs
  | .costUnder m c :: rs => some (e.sumOver m.counter c) :: sums e rs
  | .allow allowance :: rs => none :: sums (e.allow allowance) rs

/-- A model is the whole one of its time, or what a component has left of some model. -/
def Timely (e : Estimator) : List Request → Prop
  | [] => True
  | .cost _ :: rs => Timely e rs
  | .costUnder m _ :: rs => (m = ⟨e.model, true⟩ ∨ ∃ base used, m = CostModel.without base used) ∧ Timely e rs
  | .allow allowance :: rs => Timely (e.allow allowance) rs

def Keyed (cs : List Component) : Prop :=
  ∀ c ∈ cs, ∀ d ∈ cs, c.fingerprint = d.fingerprint → c.counter = d.counter

/-- Every cost in the table is that of one of the components. -/
def Sound (t : CostTable) (cs : List Component) : Prop :=
  ∀ f (n : Int), t.costs[f]? = some n → ∃ c ∈ cs, c.fingerprint = f ∧ n = t.estimator.cost c

section Steps

variable {t : CostTable} {e : Estimator} {cs : List Component} {c : Component} {m : CostModel} {r : Request}
  {rs : List Request}

theorem costUnder_eq_sumOver (e : Estimator) (model : Counter) (c : Component) :
    (e.costUnder model c : Int) = e.sumOver model c := by
  rw [e.costUnder_eq_costOf, e.costOf_eq_sum (Finset.Subset.refl _), Estimator.sumOver, Nat.cast_sum]

theorem sound_ofEstimator (e : Estimator) (cs : List Component) : (ofEstimator e).Sound cs := by
  intro f n h
  simp [ofEstimator] at h

theorem sound_allow (t : CostTable) (allowance : Counter) (cs : List Component) :
    (t.allow allowance).Sound cs := sound_ofEstimator _ _

theorem estimator_cost (t : CostTable) (c : Component) : (t.cost c).2.estimator = t.estimator := by
  rw [cost]
  split <;> rfl

theorem Sound.cost_eq (h : t.Sound cs) (hkeys : Keyed cs) (hc : c ∈ cs) :
    (t.cost c).1 = t.estimator.sumOver t.estimator.model c := by
  rw [← costUnder_eq_sumOver, cost]
  split
  · rename_i n hn
    obtain ⟨d, hd, hkey, rfl⟩ := h _ _ hn
    simp only [Estimator.cost, Estimator.costUnder, hkeys d hd c hc hkey]
  · rfl

theorem Sound.cost (h : t.Sound cs) (hc : c ∈ cs) : (t.cost c).2.Sound cs := by
  rw [CostTable.cost]
  split
  · exact h
  · intro f n hn
    rw [Std.HashMap.getElem?_insert] at hn
    split at hn
    · rename_i hf
      exact ⟨c, hc, beq_iff_eq.1 hf, (Option.some.inj hn).symm⟩
    · exact h f n hn

theorem Sound.serve (h : t.Sound cs) (hkeys : Keyed cs) (hr : ∀ c ∈ r.component?, c ∈ cs)
    (htimely : Timely t.estimator (r :: rs)) : (t.serve r).2.Sound cs ∧
      Timely (t.serve r).2.estimator rs ∧
      sums t.estimator (r :: rs) = (t.serve r).1 :: sums (t.serve r).2.estimator rs := by
  cases r with
  | cost c =>
    rw [CostTable.serve, estimator_cost, h.cost_eq hkeys (hr c rfl)]
    exact ⟨h.cost (hr c rfl), htimely, rfl⟩
  | costUnder m c =>
    obtain ⟨rfl | ⟨base, used, rfl⟩, hrest⟩ := htimely
    · rw [CostTable.serve, costUnder, if_pos rfl, estimator_cost, h.cost_eq hkeys (hr c rfl)]
      exact ⟨h.cost (hr c rfl), hrest, rfl⟩
    · rw [CostTable.serve, costUnder, if_neg (by simp [CostModel.without]), costUnder_eq_sumOver]
      exact ⟨h, hrest, rfl⟩
  | allow allowance => exact ⟨sound_allow t allowance cs, htimely, rfl⟩

theorem Sound.serveAll (h : t.Sound cs) (hkeys : Keyed cs) (hrs : ∀ r ∈ rs, ∀ c ∈ r.component?, c ∈ cs)
    (htimely : Timely t.estimator rs) :
    (t.serveAll rs).1 = sums t.estimator rs ∧ (t.serveAll rs).2.Sound cs := by
  induction rs generalizing t with
  | nil => exact ⟨rfl, h⟩
  | cons r rs ih =>
    obtain ⟨hsound, hrest, hsums⟩ := h.serve hkeys (hrs r (.head _)) htimely
    obtain ⟨hanswers, hsound⟩ := ih hsound (fun r hr => hrs r (.tail _ hr)) hrest
    rw [hsums, CostTable.serveAll, hanswers]
    exact ⟨rfl, hsound⟩

end Steps

end CostTable

end QuerySearch
