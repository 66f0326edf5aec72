import QuerySearch.Proofs.Component.ChainForms
import QuerySearch.Proofs.Component.Throughout
import QuerySearch.Proofs.Enumerate.Charges

/-! A component without names counts at least what it can reach. -/

namespace QuerySearch.Component

/-- An item under a name of its own, or a column that is bound to one.  These count as one part each,
whatever is inside. -/
def BearsName : Component → Prop
  | .named .. | .boundColumn .. => True
  | _ => False

abbrev Nameless : Component → Prop := Throughout fun c => ¬ c.BearsName

def CountedIn (free : Counter) (c : Component) : Prop := ∀ f, c.counter.get f ≤ free.get f

section Counted

variable {c d w : Component} {items : List Component} {free : Counter} {f : Fingerprint}

theorem counter_item_le_sum (h : d ∈ items) :
    d.counter.get f ≤ (Counter.sum (items.map fun c => c.counter)).get f := by
  rw [Counter.get_sum, List.map_map]
  exact List.single_le_sum (by simp) _ (List.mem_map.2 ⟨d, h, rfl⟩)

theorem get_le_foldl_union (cs : List Counter) (c : Counter) :
    c.get f ≤ (cs.foldl Counter.union c).get f := by
  induction cs generalizing c with
  | nil => exact Nat.le_refl _
  | cons d cs ih =>
    have hunion : c.get f ≤ (c.union d).get f := by simp
    exact hunion.trans (ih _)

theorem counter_item_le_union (h : d ∈ items) (c : Counter) :
    d.counter.get f ≤ ((items.map fun c => c.counter).foldl Counter.union c).get f := by
  induction items generalizing c with
  | nil => cases h
  | cons item items ih =>
    cases h with
    | head =>
      have hunion : d.counter.get f ≤ (c.union d.counter).get f := by simp
      exact hunion.trans (get_le_foldl_union _ _)
    | tail _ h => exact ih h _

theorem counter_child_le (hc : ¬ c.BearsName) (h : d ∈ c.children) : d.counter.get f ≤ c.counter.get f := by
  cases c with
  | named | boundColumn => exact absurd trivial hc
  | aggChain func arg | windowChain func arg =>
    obtain rfl := List.mem_singleton.1 h
    simp [counter, Counter.ofAggChain]
    omega
  | aggregation func arg isDistinct =>
    obtain rfl := List.mem_singleton.1 h
    cases isDistinct <;> simp [counter, Counter.ofAggChain] <;> omega
  | sortItem chain dir =>
    obtain rfl := List.mem_singleton.1 h
    simp [counter]
    omega
  | tableSource | querySource =>
    obtain rfl := List.mem_singleton.1 h
    simp [counter]
  | partitionList items | groupList items | sortList items =>
    simp only [counter, Counter.get_plus]
    exact Nat.le_trans (counter_item_le_sum h) (Nat.le_add_right _ _)
  | select items =>
    simp only [counter]
    exact counter_item_le_union h _
  | aggWindow | funcWindow | comparison | join =>
    simp only [children, List.mem_cons, List.not_mem_nil, or_false] at h
    rcases h with rfl | rfl | rfl <;> simp [counter] <;> omega
  | connection l op r =>
    simp only [children, List.mem_cons, List.not_mem_nil, or_false] at h
    rcases h with rfl | rfl <;> simp only [counter] <;> split <;> simp <;> omega
  | query sel source filter groupBy having orderBy isDistinct =>
    simp only [children, List.mem_cons, List.not_mem_nil, or_false] at h
    rcases h with rfl | rfl | rfl | rfl | rfl | rfl <;> cases isDistinct <;> simp [counter] <;> omega
  | _ => cases h

theorem counter_word_le (h : w ∈ c.words) : w.counter.get f ≤ c.counter.get f := by
  cases c with
  | windowClause =>
    obtain rfl := List.mem_singleton.1 h
    simp [counter]
  | aggChain | windowChain | sortItem | comparison | join =>
    obtain rfl := List.mem_singleton.1 h
    simp [counter, Counter.ofAggChain]
    omega
  | connection _ op _ =>
    obtain rfl := List.mem_singleton.1 h
    cases op with
    | and => simp [counter]
    | or =>
      simp [counter]
      omega
  | aggregation func arg isDistinct =>
    cases isDistinct with
    | true =>
      simp only [words, if_true, List.mem_cons, List.not_mem_nil, or_false] at h
      obtain rfl | rfl := h
      · simp [counter, Counter.ofAggChain]
        omega
      · simp [counter]
    | false =>
      obtain rfl := List.mem_singleton.1 h
      simp [counter, Counter.ofAggChain]
      omega
  | query _ _ _ _ _ _ isDistinct =>
    cases isDistinct with
    | true =>
      obtain rfl := List.mem_singleton.1 h
      simp [counter]
    | false => cases h
  | _ => cases h

theorem counter_plain_le {func : AggFunc} {arg : Component} {isDistinct : Bool} :
    (aggregation func arg false).counter.get f ≤ (aggregation func arg isDistinct).counter.get f := by
  cases isDistinct <;> simp [counter]

theorem not_bearsName_of_isWord (h : c.IsWord) : ¬ c.BearsName := by
  cases c with
  | named | boundColumn => exact h.elim
  | _ => exact id

theorem not_bearsName_chainForm (h : ¬ c.BearsName) : ¬ c.chainForm.BearsName := by
  cases c with
  | named | boundColumn => exact absurd trivial h
  | _ => exact id

theorem inherited_nameless : Inherited Nameless :=
  inherited_throughout (fun _ => not_bearsName_of_isWord) (fun _ => not_bearsName_chainForm)
    fun _ _ _ _ => id

theorem handedOn_countedIn : HandedOn fun c => c.Nameless ∧ c.CountedIn free where
  word h hw := ⟨inherited_nameless.handedOn.word h.1 hw, fun f => (counter_word_le hw).trans (h.2 f)⟩
  child h hd := ⟨h.1.child hd, fun f => (counter_child_le h.1.here hd).trans (h.2 f)⟩
  chainForm h := ⟨inherited_nameless.chainForm h.1, fun f => (counter_chainForm_le _).trans (h.2 f)⟩
  repeating h := ⟨inherited_nameless.repeating h.1, fun f => counter_plain_le.trans (h.2 f)⟩

/-- A component without names counts whatever can be reached from it. -/
theorem Nameless.counter_reach_le (h : c.Nameless) (hd : d ∈ c.reach false) (f : Fingerprint) :
    d.counter.get f ≤ c.counter.get f :=
  (handedOn_countedIn.reach c ⟨h, fun _ => Nat.le_refl _⟩ false d hd).2 f

end Counted

end QuerySearch.Component
