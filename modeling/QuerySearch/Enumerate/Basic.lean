import QuerySearch.Bank

/-! Building composites from what the bank holds, slot after slot.  A component that is put into a slot
is paid from the budget, and the model loses what it uses, so that later slots are charged against
the rest. -/

namespace QuerySearch

structure Limits where
  depth : Nat := 2
  listLength : Nat := 2
  deriving DecidableEq

structure Workshop where
  bank : Bank
  estimator : Estimator
  limits : Limits

/-- What is left for the slots that are still empty. -/
structure Remainder where
  budget : Int
  model : Counter

def combinations : (k : Nat) → List α → List (List α)
  | 0, _ => [[]]
  | _ + 1, [] => []
  | k + 1, x :: xs => (combinations k xs).map (x :: ·) ++ combinations (k + 1) xs

namespace Workshop

variable (w : Workshop)

def start (budget : Int) : Remainder := ⟨budget, w.estimator.model⟩

def after (r : Remainder) (used : Component) : Remainder :=
  ⟨r.budget - w.estimator.cost used, r.model.minus used.counter⟩

def pick (r : Remainder) (slot : Category) (rs : List Requirement) : List Component :=
  w.bank.select w.estimator slot r.budget r.model rs

/-- Fills a slot in every way and goes on with what is left. -/
def fill (r : Remainder) (slot : Category) (rs : List Requirement)
    (next : Component → Remainder → List Component) : List Component :=
  (w.pick r slot rs).flatMap fun c => next c (w.after r c)

def accepts (budget : Int) (c : Component) : Bool :=
  decide (w.estimator.cost c ≤ budget) && !w.bank.contains c

/-- Sources leave one level for the query that reads them. -/
def sourceDepth : Nat := w.limits.depth - 1

def lists (items : List Component) : List (List Component) :=
  (List.range w.limits.listLength).flatMap fun k => combinations (k + 1) items

end Workshop

end QuerySearch
