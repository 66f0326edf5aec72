import QuerySearch.Proofs.Binding.Scoping
import QuerySearch.Proofs.Component.Throughout

/-! What holds throughout a component holds throughout what it is bound to, if it depends only on how
components are made and holds of bound columns. -/

namespace QuerySearch.Component

structure Rebinds (p : Component → Prop) : Prop where
  boundColumn : ∀ {qualifier name chain}, p (.boundColumn qualifier name chain)
  named : ∀ {item asName}, p (.named item asName)
  alike : ∀ {c c'}, p c → ¬ c.IsRelation → c'.ctorIdx = c.ctorIdx → p c'

section Clauses

variable {p : Component → Prop} {envs : List Environment} {c c' : Component}

theorem locate_throughout (hp : Rebinds p) (hc : Throughout p c) (h : locate c envs = .ok c') :
    Throughout p c' := by
  obtain ⟨place, rfl, _⟩ := locate_ok h
  exact .intro hp.boundColumn (by simpa [children] using hc)

mutual

theorem bound_throughout (hp : Rebinds p) : (c c' : Component) → Throughout p c →
    bound envs c = .ok c' → Throughout p c'
  | .column .., _, hc, h | .aggChain .., _, hc, h | .windowChain .., _, hc, h => by
    rw [bound] at h
    exact locate_throughout hp hc h
  | .int _, _, hc, h | .float _, _, hc, h | .str _, _, hc, h | .absent, _, hc, h
  | .windowClause _, _, hc, h | .boundColumn .., _, hc, h => by
    cases h
    exact hc
  | .aggregation func arg isDistinct, _, hc, h => by
    obtain ⟨arg', harg, h⟩ := ok_of_bind h
    cases h
    have harg := bound_throughout hp arg arg' (hc.child (.head _)) harg
    exact .intro (hp.alike hc.here id rfl) (by simpa [children] using harg)
  | .aggWindow call partition orderBy, _, hc, h | .funcWindow call partition orderBy, _, hc, h => by
    obtain ⟨call', hcall, h⟩ := ok_of_bind h
    obtain ⟨partition', hpartition, h⟩ := ok_of_bind h
    obtain ⟨orderBy', horder, h⟩ := ok_of_bind h
    cases h
    have hcall := bound_throughout hp call call' (hc.child (by simp [children])) hcall
    have hpartition := bound_throughout hp partition partition' (hc.child (by simp [children])) hpartition
    have horder := bound_throughout hp orderBy orderBy' (hc.child (by simp [children])) horder
    exact .intro (hp.alike hc.here id rfl) (by simpa [children] using ⟨hcall, hpartition, horder⟩)
  | .partitionList items, _, hc, h | .groupList items, _, hc, h | .sortList items, _, hc, h => by
    obtain ⟨items', hitems, h⟩ := ok_of_bind h
    cases h
    have hitems := boundAll_throughout hp items items' (fun _ hd => hc.child hd) hitems
    exact throughout_sorted (hp.alike hc.here id rfl) rfl hitems
  | .sortItem chain dir, _, hc, h => by
    obtain ⟨chain', hchain, h⟩ := ok_of_bind h
    cases h
    have hchain := bound_throughout hp chain chain' (hc.child (.head _)) hchain
    exact .intro (hp.alike hc.here id rfl) (by simpa [children] using hchain)
  | .comparison l op r, _, hc, h | .connection l op r, _, hc, h => by
    obtain ⟨l', hl, h⟩ := ok_of_bind h
    obtain ⟨r', hr, h⟩ := ok_of_bind h
    cases h
    have hl := bound_throughout hp l l' (hc.child (by simp [children])) hl
    have hr := bound_throughout hp r r' (hc.child (by simp [children])) hr
    exact .intro (hp.alike hc.here id rfl) (by simpa [children] using ⟨hl, hr⟩)
  | .named item asName, _, hc, h => by
    obtain ⟨item', hitem, h⟩ := ok_of_bind h
    cases h
    have hitem := bound_throughout hp item item' (hc.child (.head _)) hitem
    exact .intro hp.named (by simpa [children] using hitem)
  | .table _, _, _, h | .distinct, _, _, h | .compareOp _, _, _, h | .logicOp _, _, _, h
  | .joinType _, _, _, h | .aggFunc _, _, _, h | .windowFunc _, _, _, h | .sortDir _, _, _, h
  | .select _, _, _, h | .tableSource .., _, _, h | .querySource .., _, _, h | .join .., _, _, h
  | .query .., _, _, h => by cases h

theorem boundAll_throughout (hp : Rebinds p) : (cs cs' : List Component) → (∀ c ∈ cs, Throughout p c) →
    boundAll envs cs = .ok cs' → ∀ c' ∈ cs', Throughout p c'
  | [], _, _, h => by
    cases h
    simp
  | c :: cs, _, hcs, h => by
    obtain ⟨c', hc', h⟩ := ok_of_bind h
    obtain ⟨cs', hcs', h⟩ := ok_of_bind h
    cases h
    rw [List.forall_mem_cons] at hcs ⊢
    exact ⟨bound_throughout hp c c' hcs.1 hc', boundAll_throughout hp cs cs' hcs.2 hcs'⟩

end

section Keys

variable {outputs source : Environment} {grouped : Bool}

mutual

theorem boundKeys_throughout (hp : Rebinds p) (hnew : ∀ {func arg}, p (.aggregation func arg false)) :
    (c c' : Component) → Throughout p c → boundKeys outputs source grouped c = .ok c' → Throughout p c'
  | .sortList items, _, hc, h => by
    obtain ⟨items', hitems, h⟩ := ok_of_bind h
    cases h
    have hitems := boundKeysAll_throughout hp hnew items items' (fun _ hd => hc.child hd) hitems
    exact throughout_sorted (hp.alike hc.here id rfl) rfl hitems
  | .sortItem chain dir, _, hc, h => by
    obtain ⟨chain', hchain, h⟩ := ok_of_bind h
    cases h
    have hchain := boundKeys_throughout hp hnew chain chain' (hc.child (.head _)) hchain
    exact .intro (hp.alike hc.here id rfl) (by simpa [children] using hchain)
  | .aggChain func arg, c', hc, h => by
    rw [boundKeys] at h
    split at h
    · obtain ⟨arg', harg, h⟩ := ok_of_bind h
      cases h
      have harg := bound_throughout hp arg arg' (hc.child (.head _)) harg
      exact .intro hnew (by simpa [children] using harg)
    · exact bound_throughout hp _ c' hc h
  | .table _, c', hc, h | .column .., c', hc, h | .windowChain .., c', hc, h | .int _, c', hc, h
  | .float _, c', hc, h | .str _, c', hc, h | .absent, c', hc, h | .distinct, c', hc, h
  | .compareOp _, c', hc, h | .logicOp _, c', hc, h | .joinType _, c', hc, h | .aggFunc _, c', hc, h
  | .windowFunc _, c', hc, h | .sortDir _, c', hc, h | .aggregation .., c', hc, h
  | .windowClause _, c', hc, h | .aggWindow .., c', hc, h | .funcWindow .., c', hc, h
  | .partitionList _, c', hc, h | .groupList _, c', hc, h | .comparison .., c', hc, h
  | .connection .., c', hc, h | .select _, c', hc, h | .named .., c', hc, h | .tableSource .., c', hc, h
  | .querySource .., c', hc, h | .join .., c', hc, h | .query .., c', hc, h | .boundColumn .., c', hc, h =>
    bound_throughout hp _ c' hc (by simpa only [boundKeys] using h)

theorem boundKeysAll_throughout (hp : Rebinds p) (hnew : ∀ {func arg}, p (.aggregation func arg false)) :
    (cs cs' : List Component) → (∀ c ∈ cs, Throughout p c) →
      boundKeysAll outputs source grouped cs = .ok cs' → ∀ c' ∈ cs', Throughout p c'
  | [], _, _, h => by
    cases h
    simp
  | c :: cs, _, hcs, h => by
    obtain ⟨c', hc', h⟩ := ok_of_bind h
    obtain ⟨cs', hcs', h⟩ := ok_of_bind h
    cases h
    rw [List.forall_mem_cons] at hcs ⊢
    exact ⟨boundKeys_throughout hp hnew c c' hcs.1 hc', boundKeysAll_throughout hp hnew cs cs' hcs.2 hcs'⟩

end

end Keys

section Items

variable {env outputs outputs' : Environment} {item item' : Component} {items items' : List Component}
  {asName : String} {s t : NameSupply}

theorem BindsItem.throughout (hp : Rebinds p) (h : BindsItem env item s item' asName t)
    (hitem : Throughout p item) : Throughout p item' := by
  cases h with
  | @named i inner _ _ h =>
    have hinner := bound_throughout hp i inner (hitem.child (.head _)) h
    exact .intro hp.named (by simpa [children] using hinner)
  | @unnamed _ inner _ _ _ _ h _ =>
    have hinner := bound_throughout hp item inner hitem h
    exact .intro hp.named (by simpa [children] using hinner)

theorem bindItems_throughout (hp : Rebinds p) (h : Gives (bindItems env outputs items) s (items', outputs') t)
    (hitems : ∀ c ∈ items, Throughout p c) : ∀ c ∈ items', Throughout p c := by
  induction items generalizing outputs items' s with
  | nil =>
    obtain ⟨rfl, _, _⟩ := gives_bindItems_nil h
    simp
  | cons item items ih =>
    obtain ⟨item', asName, u, rest, hitem, hrest, rfl⟩ := gives_bindItems_cons h
    rw [List.forall_mem_cons] at hitems ⊢
    exact ⟨hitem.throughout hp hitems.1, ih hrest hitems.2⟩

end Items

end Clauses

end QuerySearch.Component
