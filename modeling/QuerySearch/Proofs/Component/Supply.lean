import QuerySearch.Component.Lemmas
import QuerySearch.Proofs.Component.Reach
import QuerySearch.Requirement

/-! Queries and joins that have what they require, and the components inside which there are none. -/

namespace QuerySearch.Component

def SuppliedBy (source c : Component) : Prop := ∀ k ∈ c.requiredKeys, k ∈ source.providedKeys

/-- A query gets from its source what its clauses other than ORDER BY require.  A join gets from its
sides what its condition requires, and nothing that can be referred to from both of them. -/
def IsSupplied : Component → Prop
  | .query sel source filter groupBy having _ _ =>
    ∀ c ∈ [sel, filter, groupBy, having], SuppliedBy source c
  | .join l r type on => SuppliedBy (.join l r type on) on ∧
    ∀ k ∈ l.providedKeys, k.kind.isReferencable = true → k ∉ r.providedKeys
  | _ => True

section Keys

variable {s c : Component} {items : List Component}

theorem providedKeys_select (items : List Component) :
    (select items).providedKeys = items.flatMap providedKeys := by
  simp [providedKeys, List.flatMap]

theorem requiredKeys_select (items : List Component) :
    (select items).requiredKeys = items.flatMap requiredKeys := by
  simp [requiredKeys, List.flatMap]

theorem requiredKeys_groupList (items : List Component) :
    (groupList items).requiredKeys = items.flatMap requiredKeys := by
  simp [requiredKeys, List.flatMap]

theorem requiredKeys_sortList (items : List Component) :
    (sortList items).requiredKeys = items.flatMap requiredKeys := by
  simp [requiredKeys, List.flatMap]

theorem suppliedBy_select (h : ∀ c ∈ items, SuppliedBy s c) : SuppliedBy s (.select items) := by
  intro k hk
  rw [requiredKeys_select, List.mem_flatMap] at hk
  obtain ⟨c, hc, hk⟩ := hk
  exact h c hc k hk

theorem suppliedBy_groupListOf (h : ∀ c ∈ items, SuppliedBy s c) : SuppliedBy s (groupListOf items) := by
  intro k hk
  rw [groupListOf, requiredKeys_groupList, List.mem_flatMap] at hk
  obtain ⟨c, hc, hk⟩ := hk
  exact h c (mem_sortedByKey.1 hc) k hk

theorem suppliedBy_absent (s : Component) : SuppliedBy s .absent := by
  intro k hk
  simp [requiredKeys] at hk

theorem suppliedBy_comparison {l r : Component} {op : CompareOp} (hl : SuppliedBy s l)
    (hr : SuppliedBy s r) : SuppliedBy s (.comparison l op r) := by
  intro k hk
  rw [requiredKeys, List.mem_append] at hk
  exact hk.elim (hl k) (hr k)

theorem suppliedBy_connection {l r : Component} {op : LogicOp} (hl : SuppliedBy s l)
    (hr : SuppliedBy s r) : SuppliedBy s (.connection l op r) := by
  intro k hk
  rw [requiredKeys, List.mem_append] at hk
  exact hk.elim (hl k) (hr k)

theorem isSuppliedBy_iff : c.isSuppliedBy s.providedKeys = true ↔ SuppliedBy s c := by
  simp [isSuppliedBy, SuppliedBy]

end Keys

mutual

def Sourceless : Component → Prop
  | .aggChain _ arg | .windowChain _ arg | .aggregation _ arg _ => arg.Sourceless
  | .aggWindow call partition orderBy | .funcWindow call partition orderBy =>
    call.Sourceless ∧ partition.Sourceless ∧ orderBy.Sourceless
  | .partitionList items | .groupList items | .sortList items | .select items => AllSourceless items
  | .sortItem chain _ => chain.Sourceless
  | .comparison l _ r => l.Sourceless ∧ r.Sourceless
  | .connection l _ r => l.Sourceless ∧ r.Sourceless
  | .named item _ => item.Sourceless
  | .boundColumn _ _ chain => chain.Sourceless
  | .tableSource .. | .querySource .. | .join .. | .query .. => False
  | _ => True

def AllSourceless : List Component → Prop
  | [] => True
  | c :: cs => c.Sourceless ∧ AllSourceless cs

end

theorem allSourceless_iff {cs : List Component} : AllSourceless cs ↔ ∀ c ∈ cs, c.Sourceless := by
  induction cs with
  | nil => simp [AllSourceless]
  | cons c cs ih => simp [AllSourceless, ih]

theorem Sourceless.chainForm : (c : Component) → c.Sourceless → c.chainForm.Sourceless
  | .comparison l _ r, h | .connection l _ r, h =>
    formOperands_of h.1 h.2 (Sourceless.chainForm l h.1) (Sourceless.chainForm r h.2)
  | .aggregation _ _ _, h | .aggChain _ _, h | .windowChain _ _, h | .aggWindow _ _ _, h
  | .funcWindow _ _ _, h | .partitionList _, h | .groupList _, h | .sortList _, h | .select _, h
  | .sortItem _ _, h | .named _ _, h | .boundColumn _ _ _, h => h
  | .windowClause _, _ | .table _, _ | .column _ _ _, _ | .int _, _ | .float _, _ | .str _, _ | .absent, _
  | .distinct, _ | .compareOp _, _ | .logicOp _, _ | .joinType _, _ | .aggFunc _, _
  | .windowFunc _, _ | .sortDir _, _ => trivial
  | .tableSource .., h | .querySource .., h | .join .., h | .query .., h => h.elim

theorem Sourceless.child {c d : Component} (h : c.Sourceless) (hd : d ∈ c.children) : d.Sourceless := by
  cases c with
  | partitionList | groupList | sortList | select => exact allSourceless_iff.1 h d hd
  | tableSource | querySource | join | query => exact h.elim
  | aggWindow | funcWindow =>
    simp only [children, List.mem_cons, List.not_mem_nil, or_false] at hd
    obtain rfl | rfl | rfl := hd
    · exact h.1
    · exact h.2.1
    · exact h.2.2
  | comparison | connection =>
    simp only [children, List.mem_cons, List.not_mem_nil, or_false] at hd
    obtain rfl | rfl := hd
    · exact h.1
    · exact h.2
  | aggChain | windowChain | aggregation | sortItem | named | boundColumn =>
    cases List.mem_singleton.1 hd
    exact h
  | _ => cases hd

theorem IsWord.sourceless {c : Component} (h : c.IsWord) : c.Sourceless := by
  cases c with
  | distinct | compareOp | logicOp | joinType | aggFunc | windowFunc | sortDir => trivial
  | _ => exact h.elim

theorem inherited_sourceless : Inherited Sourceless where
  word := IsWord.sourceless
  child := Sourceless.child
  chainForm := Sourceless.chainForm _
  repeating := id

theorem Sourceless.inside (c : Component) (h : c.Sourceless) (asChain : Bool) :
    ∀ d ∈ c.reach asChain, d.Sourceless :=
  inherited_sourceless.reach c h asChain

theorem Sourceless.isSupplied {c : Component} (h : c.Sourceless) : c.IsSupplied := by
  cases c with
  | query | join => exact h.elim
  | _ => trivial

theorem Sourceless.reach (c : Component) (h : c.Sourceless) (asChain : Bool) :
    ∀ d ∈ c.reach asChain, d.IsSupplied :=
  fun d hd => (Sourceless.inside c h asChain d hd).isSupplied

end QuerySearch.Component
