import Std.Data.HashMap
import QuerySearch.Cost

/-! Costs that are kept.  What a component costs under the whole model is found once and then looked up by
its fingerprint, until the model grows.  What it costs under the rest that others have left of the model
is found each time. -/

namespace QuerySearch

structure CostModel where
  counter : Counter
  isWhole : Bool

def CostModel.without (m : CostModel) (used : Component) : CostModel := ⟨m.counter.minus used.counter, false⟩

/-- An estimator with the costs it has found since its model last grew. -/
structure CostTable where
  estimator : Estimator
  costs : Std.HashMap Fingerprint Int

namespace CostTable

def ofEstimator (e : Estimator) : CostTable := ⟨e, {}⟩

def model (t : CostTable) : CostModel := ⟨t.estimator.model, true⟩

def allow (t : CostTable) (allowance : Counter) : CostTable := ofEstimator (t.estimator.allow allowance)

def cost (t : CostTable) (c : Component) : Int × CostTable :=
  match t.costs[c.fingerprint]? with
  | some n => (n, t)
  | none =>
    let n : Int := t.estimator.cost c
    (n, { t with costs := t.costs.insert c.fingerprint n })

def costUnder (t : CostTable) (m : CostModel) (c : Component) : Int × CostTable :=
  if m.isWhole then t.cost c else (t.estimator.costUnder m.counter c, t)

end CostTable

end QuerySearch
