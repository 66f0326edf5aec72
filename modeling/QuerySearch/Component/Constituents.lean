import QuerySearch.Component.Lemmas

/-! The parts of a component: what stands inside it and what it stands for.  From part to part all that a
component is made of can be found. -/

namespace QuerySearch.Component

/-- What a component stands for and is not inside it: its operators and functions, its chain form and, for an
aggregation, the one that keeps repetitions. -/
def implied : Component → List Component
  | .aggChain func _ => [.aggFunc func]
  | .windowChain func _ | .windowClause func => [.windowFunc func]
  | .aggregation func arg isDistinct =>
    [.aggFunc func, .aggChain func arg, .aggregation func arg false] ++ if isDistinct then [.distinct] else []
  | .sortItem _ dir => [.sortDir dir]
  | .comparison l op r => [.compareOp op, (comparison l op r).chainForm]
  | .connection l op r => [.logicOp op, (connection l op r).chainForm]
  | .join _ _ type _ => [.joinType type]
  | .query _ _ _ _ _ _ isDistinct => if isDistinct then [.distinct] else []
  | _ => []

def constituents (c : Component) : List Component := c.implied ++ c.children

/-- Orders components of one size: those that stand for another one are above it. -/
def lead : Component → Nat
  | .windowClause _ => 1
  | .aggregation _ _ isDistinct => isDistinct.toNat
  | _ => 0

section Smaller

variable {c d : Component}

theorem chainForm_eq_or_smaller (c : Component) : c.chainForm = c ∨ sizeOf c.chainForm < sizeOf c := by
  fun_induction chainForm c with
  | case1 func arg isDistinct => exact .inr (by simp)
  | case2 l op r operands ihl ihr | case3 l op r operands ihl ihr =>
    simp only [operands, formOperands]
    split
    · exact .inl rfl
    · simp only [comparison.injEq, connection.injEq, comparison.sizeOf_spec, connection.sizeOf_spec]
      grind
  | case4 => exact .inl rfl

theorem sizeOf_child_lt (h : d ∈ c.children) : sizeOf d < sizeOf c := by
  cases c with
  | partitionList items | groupList items | sortList items | select items =>
    have hitem : sizeOf d < sizeOf items := List.sizeOf_lt_of_mem h
    simp only [partitionList.sizeOf_spec, groupList.sizeOf_spec, sortList.sizeOf_spec, select.sizeOf_spec]
    omega
  | aggChain | windowChain | aggregation | sortItem | named | tableSource | querySource | boundColumn =>
    obtain rfl := List.mem_singleton.1 h
    simp +arith
  | comparison | connection =>
    simp only [children, List.mem_cons, List.not_mem_nil, or_false] at h
    obtain rfl | rfl := h <;> simp +arith
  | aggWindow | funcWindow | join =>
    simp only [children, List.mem_cons, List.not_mem_nil, or_false] at h
    obtain rfl | rfl | rfl := h <;> simp +arith
  | query =>
    simp only [children, List.mem_cons, List.not_mem_nil, or_false] at h
    obtain rfl | rfl | rfl | rfl | rfl | rfl := h <;> simp +arith
  | _ => cases h

theorem sizeOf_pos (c : Component) : 0 < sizeOf c := by
  cases c <;> simp +arith

theorem implied_smaller (h : d ∈ c.implied) (hne : d ≠ c) :
    sizeOf d < sizeOf c ∨ sizeOf d = sizeOf c ∧ d.lead < c.lead := by
  cases c with
  | aggChain _ arg | windowChain _ arg | sortItem arg =>
    obtain rfl := List.mem_singleton.1 h
    have harg := sizeOf_pos arg
    left
    simp only [aggFunc.sizeOf_spec, windowFunc.sizeOf_spec, sortDir.sizeOf_spec, aggChain.sizeOf_spec,
      windowChain.sizeOf_spec, sortItem.sizeOf_spec]
    omega
  | windowClause func =>
    obtain rfl := List.mem_singleton.1 h
    right
    simp [lead]
  | join l r type =>
    obtain rfl := List.mem_singleton.1 h
    have hl := sizeOf_pos l
    left
    simp only [joinType.sizeOf_spec, join.sizeOf_spec]
    omega
  | aggregation func arg isDistinct =>
    have hcases : d = .aggFunc func ∨ d = .aggChain func arg ∨ d = .aggregation func arg false ∨
        isDistinct = true ∧ d = .distinct := by
      cases isDistinct <;> simpa [implied] using h
    have harg := sizeOf_pos arg
    obtain rfl | rfl | rfl | ⟨rfl, rfl⟩ := hcases
    · left
      simp only [aggFunc.sizeOf_spec, aggregation.sizeOf_spec]
      omega
    · left
      simp +arith
    · cases isDistinct with
      | true =>
        right
        simp [lead]
      | false => exact absurd rfl hne
    · left
      simp only [distinct.sizeOf_spec, aggregation.sizeOf_spec]
      omega
  | comparison l op r | connection l op r =>
    have hl := sizeOf_pos l
    obtain rfl | h := List.mem_cons.1 h
    · left
      simp only [compareOp.sizeOf_spec, logicOp.sizeOf_spec, comparison.sizeOf_spec, connection.sizeOf_spec]
      omega
    · obtain rfl := List.mem_singleton.1 h
      exact .inl ((chainForm_eq_or_smaller _).resolve_left hne)
  | query sel _ _ _ _ _ isDistinct =>
    have hsel := sizeOf_pos sel
    cases isDistinct with
    | true =>
      obtain rfl := List.mem_singleton.1 h
      left
      simp only [distinct.sizeOf_spec, query.sizeOf_spec]
      omega
    | false => cases h
  | _ => cases h

theorem constituent_smaller (h : d ∈ c.constituents) (hne : d ≠ c) :
    Prod.Lex (· < ·) (· < ·) (sizeOf d, d.lead) (sizeOf c, c.lead) := by
  rw [Prod.lex_def]
  exact (List.mem_append.1 h).elim (fun h => implied_smaller h hne) fun h => .inl (sizeOf_child_lt h)

end Smaller

/-- Adds what has not been found yet and then its parts.  Nothing is entered that is the same as something
found, the component itself among its parts in particular. -/
def collect (found : List Component) (c : Component) : List Component :=
  if found.contains c then found
  else (c.constituents.filter fun d => !(d == c)).attach.foldl (fun found d => d.1.collect found) (c :: found)
  termination_by (sizeOf c, c.lead)
  decreasing_by
    obtain ⟨hpart, hother⟩ := List.mem_filter.1 d.2
    refine constituent_smaller hpart fun heq => ?_
    simp [heq, BEq.beq] at hother

def all (c : Component) : List Component := (c.collect []).reverse

end QuerySearch.Component
