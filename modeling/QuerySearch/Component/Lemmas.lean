import QuerySearch.Component.Chains

/-! The fingerprints that are kept with a component are those of the chains it provides and requires and
of its chain form. -/

namespace QuerySearch.Component

def partsFingerprint : Component → Fingerprint
  | .table t => .ofTable t
  | .column t name _ => .ofColumn t name
  | .aggChain func arg => .ofAggChain func arg.fingerprint
  | .windowChain func arg => .ofWindowChain func arg.fingerprint
  | .int v => .ofInt v
  | .float v => .ofFloat v
  | .str s => .ofStr s
  | .absent => .ofAbsent
  | .distinct => .ofDistinct
  | .compareOp op => .ofCompareOp op
  | .logicOp op => .ofLogicOp op
  | .joinType t => .ofJoinType t
  | .aggFunc f => .ofAggFunc f
  | .windowFunc f => .ofWindowFunc f
  | .sortDir d => .ofSortDir d
  | .aggregation func arg isDistinct => .ofAggregation func arg.fingerprint isDistinct
  | .windowClause f => .ofFields .windowClause [.tag f.ctorIdx]
  | .aggWindow call partition orderBy =>
    .ofList .aggWindow [call.fingerprint, partition.fingerprint, orderBy.fingerprint]
  | .funcWindow call partition orderBy =>
    .ofList .funcWindow [call.fingerprint, partition.fingerprint, orderBy.fingerprint]
  | .partitionList items => .ofList .partitionList (items.map fingerprint)
  | .groupList items => .ofList .groupList (items.map fingerprint)
  | .sortItem chain dir => .ofSortItem chain.fingerprint dir
  | .sortList items => .ofList .sortList (items.map fingerprint)
  | .comparison l op r => .ofComparison l.fingerprint op r.fingerprint
  | .connection l op r => .ofConnection l.fingerprint op r.fingerprint
  | .select items => .ofList .select (items.map fingerprint)
  | .named item asName => .ofFields .named [.component item.fingerprint, .text asName]
  | .tableSource t _ => .ofList .tableSource [t.fingerprint]
  | .querySource q _ => .ofList .querySource [q.fingerprint]
  | .join l r type on => .ofJoin l.fingerprint r.fingerprint type on.fingerprint
  | .query sel source filter groupBy having orderBy isDistinct =>
    .ofQuery sel.fingerprint source.fingerprint filter.fingerprint groupBy.fingerprint
      having.fingerprint orderBy.fingerprint isDistinct
  | .boundColumn _ _ chain => .ofList .boundColumn [chain.fingerprint]

theorem fingerprint_eq (c : Component) : c.fingerprint = c.partsFingerprint := by
  cases c <;> simp only [fingerprint, keys, Keys.same, partsFingerprint] <;> rfl

theorem fingerprint_congr {c d : Component} (h : c.partsFingerprint = d.partsFingerprint) :
    c.fingerprint = d.fingerprint := by
  rw [fingerprint_eq, fingerprint_eq d, h]

@[simp] theorem fingerprint_column (t : Table) (name : String) (type : DataType) :
    (column t name type).fingerprint = .ofColumn t name :=
  fingerprint_eq _

@[simp] theorem fingerprint_aggChain (func : AggFunc) (arg : Component) :
    (aggChain func arg).fingerprint = .ofAggChain func arg.fingerprint :=
  fingerprint_eq _

@[simp] theorem fingerprint_windowChain (func : WindowFunc) (arg : Component) :
    (windowChain func arg).fingerprint = .ofWindowChain func arg.fingerprint :=
  fingerprint_eq _

@[simp] theorem fingerprint_absent : absent.fingerprint = .ofAbsent := fingerprint_eq _

mutual

theorem providedKeys_eq : (c : Component) → c.providedKeys = c.provided.map fingerprint
  | .table t => by simp [providedKeys, provided, fingerprint, keys, Keys.same, Function.comp_def]
  | .column .. | .aggChain .. | .windowChain .. | .int _ | .float _ | .str _ => by
    simp [providedKeys, provided, fingerprint, keys, Keys.same]
  | .aggregation func arg _ => by
    simp [providedKeys, provided, providedKeys_eq arg, Function.comp_def]
  | .windowClause _ => by simp [providedKeys, provided, fingerprint, keys, Keys.same]
  | .aggWindow call .. | .funcWindow call .. => by simp [providedKeys, provided, providedKeys_eq call]
  | .select items => by simp [providedKeys, provided, providedKeys_all items]
  | .named item _ => by simp [providedKeys, provided, providedKeys_eq item]
  | .tableSource t _ => by simp [providedKeys, provided, providedKeys_eq t]
  | .querySource q _ => by simp [providedKeys, provided, providedKeys_eq q]
  | .join l r .. => by simp [providedKeys, provided, providedKeys_eq l, providedKeys_eq r]
  | .query sel .. => by simp [providedKeys, provided, providedKeys_eq sel]
  | .boundColumn .. => by simp [providedKeys, provided, fingerprint]
  | .absent | .distinct | .compareOp _ | .logicOp _ | .joinType _ | .aggFunc _ | .windowFunc _
  | .sortDir _ | .partitionList _ | .groupList _ | .sortItem .. | .sortList _ | .comparison ..
  | .connection .. => by simp [providedKeys, provided]

theorem providedKeys_all : (cs : List Component) →
    (cs.map fun c => c.providedKeys).flatten = (providedByAll cs).map fingerprint
  | [] => rfl
  | c :: cs => by simp [providedByAll, providedKeys_eq c, providedKeys_all cs]

end

section ChainForms

variable {l r l' r' : Component}

theorem formOperands_of_same (h : sameBoth l r l' r' = true) : formOperands l r l' r' = (l, r) := if_pos h

theorem formOperands_cases (l r l' r' : Component) :
    sameBoth l r l' r' = true ∧ formOperands l r l' r' = (l, r) ∨
      sameBoth l r l' r' = false ∧ formOperands l r l' r' = (l', r') := by
  cases h : sameBoth l r l' r' with
  | true => exact .inl ⟨rfl, formOperands_of_same h⟩
  | false => exact .inr ⟨rfl, by rw [formOperands, h, if_neg Bool.false_ne_true]⟩

@[simp] theorem sameBoth_self (l r : Component) : sameBoth l r l r = true := by simp [sameBoth]

theorem sameBoth_iff : sameBoth l r l' r' = true ↔
    l'.fingerprint = l.fingerprint ∧ r'.fingerprint = r.fingerprint := by
  rw [sameBoth, Bool.and_eq_true, beq_iff, beq_iff]

theorem formOperands_of {p : Component → Prop} (hl : p l) (hr : p r) (hl' : p l') (hr' : p r') :
    p (formOperands l r l' r').1 ∧ p (formOperands l r l' r').2 := by
  obtain ⟨-, h⟩ | ⟨-, h⟩ := formOperands_cases l r l' r' <;> rw [h]
  · exact ⟨hl, hr⟩
  · exact ⟨hl', hr'⟩

@[simp] theorem formOperands_self (l r : Component) : formOperands l r l r = (l, r) := by
  obtain ⟨-, h⟩ | ⟨-, h⟩ := formOperands_cases l r l r <;> exact h

theorem fingerprint_formOperands (l r l' r' : Component) :
    (formOperands l r l' r').1.fingerprint = l'.fingerprint ∧
      (formOperands l r l' r').2.fingerprint = r'.fingerprint := by
  obtain ⟨hsame, h⟩ | ⟨-, h⟩ := formOperands_cases l r l' r' <;> rw [h]
  · exact ⟨(sameBoth_iff.1 hsame).1.symm, (sameBoth_iff.1 hsame).2.symm⟩
  · exact ⟨rfl, rfl⟩

theorem chainKey_eq (c : Component) : c.chainKey = c.chainForm.fingerprint := by
  fun_induction chainForm c with
  | case1 => simp [chainKey, fingerprint, keys, Keys.same]
  | case2 l op r operands ihl ihr | case3 l op r operands ihl ihr =>
    obtain ⟨hl, hr⟩ := fingerprint_formOperands l r l.chainForm r.chainForm
    rw [fingerprint_eq, partsFingerprint, hl, hr, ← ihl, ← ihr]
    simp [chainKey, keys]
  | case4 c => cases c <;> simp_all [chainKey, fingerprint, keys, Keys.same]

theorem chainForm_chainForm (c : Component) : c.chainForm.chainForm = c.chainForm := by
  fun_induction chainForm c with
  | case1 => rfl
  | case2 l op r operands ihl ihr | case3 l op r operands ihl ihr =>
    rw [chainForm]
    obtain ⟨-, h⟩ | ⟨-, h⟩ := formOperands_cases l r l.chainForm r.chainForm
    · simp only [operands, h]
    · simp only [operands, h, ihl, ihr, formOperands_self]
  | case4 c haggregation hcomparison hconnection => rw [chainForm] <;> assumption

end ChainForms

@[simp] theorem unique_nil : unique [] = [] := rfl

theorem unique_cons (c : Component) (cs : List Component) :
    unique (c :: cs) = c :: unique (cs.filter fun d => !(d == c)) := by
  simp [unique, List.eraseDups_cons]

theorem mem_of_mem_unique {c : Component} {cs : List Component} (h : c ∈ unique cs) : c ∈ cs := by
  match cs with
  | [] => exact h
  | d :: ds =>
    rw [unique_cons, List.mem_cons] at h
    cases h with
    | inl h => exact List.mem_cons.2 (.inl h)
    | inr h => exact .tail _ (List.mem_filter.1 (mem_of_mem_unique h)).1
  termination_by cs.length
  decreasing_by
    exact Nat.lt_succ_of_le (List.length_filter_le _ _)

@[simp] theorem mem_sortedByKey {c : Component} {cs : List Component} : c ∈ sortedByKey cs ↔ c ∈ cs :=
  (List.mergeSort_perm cs _).mem_iff

section Orders

variable {as bs : List Component}

theorem fingerprint_le_total (a b : Component) :
    (!decide (b.fingerprint < a.fingerprint) || !decide (a.fingerprint < b.fingerprint)) = true := by
  simp only [Fingerprint.lt_iff_rank, Bool.or_eq_true, Bool.not_eq_true', decide_eq_false_iff_not]
  omega

theorem fingerprint_le_trans (a b c : Component) :
    (!decide (b.fingerprint < a.fingerprint)) = true → (!decide (c.fingerprint < b.fingerprint)) = true →
      (!decide (c.fingerprint < a.fingerprint)) = true := by
  simp only [Fingerprint.lt_iff_rank, Bool.not_eq_true', decide_eq_false_iff_not]
  omega

theorem sortedByKey_perm (cs : List Component) : (sortedByKey cs).Perm cs :=
  List.mergeSort_perm cs _

theorem sortedByKey_pair (a b : Component) : sortedByKey [a, b] =
    if b.fingerprint < a.fingerprint then [b, a] else [a, b] := by
  by_cases h : b.fingerprint < a.fingerprint <;> simp [sortedByKey, List.mergeSort, h]

theorem sortedByKey_pairwise (cs : List Component) :
    ((sortedByKey cs).map fingerprint).Pairwise fun f g => ¬ g < f := by
  have := List.pairwise_mergeSort fingerprint_le_trans fingerprint_le_total cs
  rw [List.pairwise_map]
  apply this.imp
  simp

theorem map_fingerprint_sortedByKey (h : (as.map fingerprint).Perm (bs.map fingerprint)) :
    (sortedByKey as).map fingerprint = (sortedByKey bs).map fingerprint := by
  apply List.Perm.eq_of_pairwise _ (sortedByKey_pairwise as) (sortedByKey_pairwise bs)
  · exact ((sortedByKey_perm as).map fingerprint).trans (h.trans ((sortedByKey_perm bs).map fingerprint).symm)
  · intro f g _ _ hf hg
    exact Fingerprint.eq_of_not_lt hg hf

theorem map_fingerprint_sorted (h : (as.map fingerprint).Perm (bs.map fingerprint))
    (hbs : sortedByKey bs = bs) : (sortedByKey as).map fingerprint = bs.map fingerprint := by
  rw [map_fingerprint_sortedByKey h, hbs]

end Orders

theorem mem_keys_unique (f : Fingerprint) (cs : List Component) :
    f ∈ (unique cs).map fingerprint ↔ f ∈ cs.map fingerprint := by
  match cs with
  | [] => simp
  | c :: cs =>
    rw [unique_cons]
    have ih := mem_keys_unique f (cs.filter fun d => !(d == c))
    simp only [List.map_cons, List.mem_cons, ih]
    by_cases hf : f = c.fingerprint
    · simp [hf]
    · simp only [hf, false_or, List.mem_map, List.mem_filter]
      constructor
      · rintro ⟨d, ⟨hd, _⟩, rfl⟩
        exact ⟨d, hd, rfl⟩
      · rintro ⟨d, hd, rfl⟩
        exact ⟨d, ⟨hd, by simpa [← Bool.not_eq_true] using hf⟩, rfl⟩
  termination_by cs.length
  decreasing_by
    exact Nat.lt_succ_of_le (List.length_filter_le _ _)

mutual

theorem mem_requiredKeys (f : Fingerprint) : (c : Component) →
    (f ∈ c.requiredKeys ↔ f ∈ c.required.map fingerprint)
  | .column .. | .aggChain .. | .windowChain .. => by
    simp [requiredKeys, required, fingerprint, keys, Keys.same]
  | .aggregation _ arg _ => by simp [requiredKeys, required, providedKeys_eq arg]
  | .aggWindow call partition orderBy | .funcWindow call partition orderBy => by
    rw [required, mem_keys_unique]
    simp only [requiredKeys, List.mem_append, List.map_append, mem_requiredKeys f call,
      mem_requiredKeys f partition, mem_requiredKeys f orderBy]
  | .partitionList items | .groupList items | .sortList items | .select items => by
    rw [required, mem_keys_unique, ← mem_requiredKeys_all f items]
    simp [requiredKeys]
  | .sortItem .. | .boundColumn .. => by simp [requiredKeys, required, fingerprint]
  | .comparison l _ r | .connection l _ r => by
    rw [required, mem_keys_unique]
    simp only [requiredKeys, List.mem_append, List.map_append, mem_requiredKeys f l,
      mem_requiredKeys f r]
  | .named item _ => by simp only [requiredKeys, required, mem_requiredKeys f item]
  | .table _ | .int _ | .float _ | .str _ | .absent | .distinct | .compareOp _ | .logicOp _
  | .joinType _ | .aggFunc _ | .windowFunc _ | .sortDir _ | .windowClause _ | .tableSource ..
  | .querySource .. | .join .. | .query .. => by simp [requiredKeys, required]

theorem mem_requiredKeys_all (f : Fingerprint) : (cs : List Component) →
    (f ∈ (cs.map fun c => c.requiredKeys).flatten ↔ f ∈ (requiredByAll cs).map fingerprint)
  | [] => by simp [requiredByAll]
  | c :: cs => by
    simp only [List.map_cons, List.flatten_cons, requiredByAll, List.map_append, List.mem_append,
      mem_requiredKeys f c, mem_requiredKeys_all f cs]

end

end QuerySearch.Component
