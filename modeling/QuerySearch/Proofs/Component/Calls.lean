import QuerySearch.Proofs.Component.Kinds
import QuerySearch.Proofs.Component.Throughout
import QuerySearch.Requirement

/-! Calls of functions in the conditions on rows, which are the filters of queries and the conditions of
joins, and where calls may stand so that none gets there. -/

namespace QuerySearch.Component

def IsFunctionCall : Component → Prop
  | .aggregation .. | .aggWindow .. | .funcWindow .. => True
  | _ => False

abbrev CallFree : Component → Prop := Throughout fun c => ¬ c.IsFunctionCall

/-- The condition of a join or the filter of a query has no call. -/
def FiltersRows : Component → Prop
  | .join _ _ _ on => on.CallFree
  | .query _ _ filter .. => filter.CallFree
  | _ => True

abbrev CallFreeConditions : Component → Prop := Throughout FiltersRows

def Shallow : Component → Prop
  | .aggregation _ arg _ => arg.CallFree
  | .comparison l _ r | .connection l _ r => l.Shallow ∧ r.Shallow
  | c => c.CallFree

/-- Nothing is computed from calls, predicates are shallow, and conditions on rows have no calls. -/
def KeepsCallsApart : Component → Prop
  | .aggChain _ arg | .windowChain _ arg | .aggregation _ arg _ => arg.CallFree
  | .comparison l _ r | .connection l _ r => l.Shallow ∧ r.Shallow
  | .join _ _ _ on => on.CallFree
  | .query _ _ filter .. => filter.CallFree
  | _ => True

section Calls

variable {c d : Component}

theorem callFree_leaf (h : c.children = []) : c.CallFree := by
  refine throughout_leaf ?_ h
  cases c with
  | aggregation | aggWindow | funcWindow => cases h
  | _ => exact id

theorem outgoing_callFree : Outgoing fun c => ¬ c.IsFunctionCall where
  leaf h := (callFree_leaf h).here
  rank := id
  aggregate _ _ _ := id

theorem CallFree.shallow (h : c.CallFree) : c.Shallow := by
  induction h with
  | @intro c here inside ih =>
    cases c with
    | aggregation => exact absurd trivial here
    | comparison | connection => exact ⟨ih _ (.head _), ih _ (.tail _ (.head _))⟩
    | _ => exact .intro here inside

theorem Shallow.callFree (h : c.Shallow) (hno : c.hasNoAggregation = true) : c.CallFree := by
  fun_induction hasNoAggregation c with
  | case1 => cases hno
  | case2 l op r ihl ihr | case3 l op r ihl ihr =>
    have hno := Bool.and_eq_true_iff.1 hno
    exact .intro id (by simpa [children] using ⟨ihl h.1 hno.1, ihr h.2 hno.2⟩)
  | case4 c haggregation hcomparison hconnection =>
    cases c with
    | aggregation => exact absurd rfl (haggregation _ _ _)
    | comparison => exact absurd rfl (hcomparison _ _ _)
    | connection => exact absurd rfl (hconnection _ _ _)
    | _ => exact h

theorem Shallow.chainForm (h : c.Shallow) : c.chainForm.Shallow := by
  fun_induction Component.chainForm c with
  | case1 func arg isDistinct =>
    have harg : arg.CallFree := h
    exact .intro id (by simpa [children] using harg)
  | case2 l op r operands ihl ihr | case3 l op r operands ihl ihr =>
    exact formOperands_of h.1 h.2 (ihl h.1) (ihr h.2)
  | case4 => exact h

theorem KeepsCallsApart.filtersRows (h : c.KeepsCallsApart) : c.FiltersRows := by
  cases c with
  | join | query => exact h
  | _ => trivial

theorem KeepsCallsApart.callFree (h : c.KeepsCallsApart) (hkind : c.kind.isChain = true) : c.CallFree := by
  cases c with
  | column | int | float | str | absent => exact callFree_leaf rfl
  | aggChain func arg | windowChain func arg =>
    have harg : arg.CallFree := h
    exact .intro id (by simpa [children] using harg)
  | _ =>
    rw [kind, fingerprint_eq] at hkind
    cases hkind

theorem KeepsCallsApart.callFree_of_referencable (h : c.KeepsCallsApart)
    (hkind : c.kind.isReferencable = true) : c.CallFree := by
  refine h.callFree ?_
  revert hkind
  cases c.kind <;> decide

theorem KeepsCallsApart.shallow_of_value (h : c.KeepsCallsApart)
    (hvalue : Category.value.admits c.kind = true) : c.Shallow := by
  cases Bool.or_eq_true_iff.1 hvalue with
  | inl hchain => exact (h.callFree hchain).shallow
  | inr haggregation =>
    have hkind : c.kind = .aggregation := beq_iff_eq.1 haggregation
    rw [kind_eq_iff] at hkind
    cases c with
    | aggregation => exact h
    | _ => cases hkind

theorem KeepsCallsApart.shallow_of_predicate (h : c.KeepsCallsApart)
    (hpredicate : Category.predicate.admits c.kind = true) : c.Shallow := by
  cases c with
  | comparison | connection => exact h
  | absent => exact callFree_leaf rfl
  | _ =>
    rw [kind, fingerprint_eq] at hpredicate
    cases hpredicate

theorem keepsCallsApart_leaf (h : c.children = []) : c.KeepsCallsApart := by
  cases c with
  | aggChain | windowChain | aggregation | comparison | connection | join | query => cases h
  | _ => trivial

theorem inherited_keepsCallsApart : Inherited (Throughout KeepsCallsApart) := by
  refine inherited_throughout (fun _ hc => keepsCallsApart_leaf hc.children_eq) (fun c hc => ?_)
    fun _ _ _ => id
  cases c with
  | comparison | connection => exact formOperands_of hc.1 hc.2 hc.1.chainForm hc.2.chainForm
  | _ => exact hc

end Calls

end QuerySearch.Component
