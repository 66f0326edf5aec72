import QuerySearch.Proofs.Binding.Scoping
import QuerySearch.Proofs.Component.Names
import QuerySearch.Proofs.Component.Throughout

/-! Whatever a bound query reads with a qualifier, it reads from a source of that name. -/

namespace QuerySearch.Component

def ReadsFrom (names : List String) (c : Component) : Prop :=
  ∀ r ∈ c.readings, r.1.source ≠ "" → r.1.source ∈ names

def ReadsSources : Component → Prop
  | .querySource q _ => q.ReadsSources
  | .join l r _ on => l.ReadsSources ∧ r.ReadsSources ∧ on.ReadsFrom (l.fromNames ++ r.fromNames)
  | .query sel source filter groupBy having orderBy _ => source.ReadsSources ∧
    ∀ c ∈ [sel, filter, groupBy, having, orderBy], c.ReadsFrom source.fromNames
  | _ => True

mutual

theorem Unread.readings : (c : Component) → c.Unread → c.readings = []
  | .aggChain _ arg, h | .windowChain _ arg, h | .aggregation _ arg _, h =>
    Unread.readings arg (h.child (.head _))
  | .aggWindow call partition orderBy, h | .funcWindow call partition orderBy, h => by
    simp [Component.readings, Unread.readings call (h.child (by simp [children])),
      Unread.readings partition (h.child (by simp [children])),
      Unread.readings orderBy (h.child (by simp [children]))]
  | .partitionList items, h | .groupList items, h | .sortList items, h | .select items, h =>
    Unread.readingsAll items fun _ hd => h.child hd
  | .sortItem chain _, h => Unread.readings chain (h.child (.head _))
  | .comparison l _ r, h | .connection l _ r, h => by
    simp [Component.readings, Unread.readings l (h.child (by simp [children])),
      Unread.readings r (h.child (by simp [children]))]
  | .named item _, h => Unread.readings item (h.child (.head _))
  | .boundColumn .., h => absurd trivial h.here
  | .table _, _ | .column .., _ | .int _, _ | .float _, _ | .str _, _ | .absent, _ | .distinct, _
  | .compareOp _, _ | .logicOp _, _ | .joinType _, _ | .aggFunc _, _ | .windowFunc _, _
  | .sortDir _, _ | .windowClause _, _ | .tableSource .., _ | .querySource .., _ | .join .., _
  | .query .., _ => rfl

theorem Unread.readingsAll : (cs : List Component) → (∀ c ∈ cs, c.Unread) → readingsAll cs = []
  | [], _ => rfl
  | c :: cs, h => by
    rw [List.forall_mem_cons] at h
    simp [Component.readingsAll, Unread.readings c h.1, Unread.readingsAll cs h.2]

end

section Clauses

variable {names : List String} {envs : List Environment} {c c' : Component} {items : List Component}

def Within (names : List String) (envs : List Environment) : Prop :=
  ∀ env ∈ envs, ∀ e ∈ env.entries, e.2.source ≠ "" → e.2.source ∈ names

theorem readsFrom_all (h : ∀ c ∈ items, c.ReadsFrom names) :
    ∀ r ∈ readingsAll items, r.1.source ≠ "" → r.1.source ∈ names := by
  intro r hr
  obtain ⟨c, hc, hr⟩ := mem_readingsAll.1 hr
  exact h c hc r hr

theorem readsFrom_sorted (h : ∀ c ∈ items, c.ReadsFrom names) :
    ∀ r ∈ readingsAll (sortedByKey items), r.1.source ≠ "" → r.1.source ∈ names :=
  readsFrom_all fun c hc => h c ((sortedByKey_perm items).mem_iff.1 hc)

theorem locate_readsFrom (henvs : Within names envs) (hc : c.Unread) (h : locate c envs = .ok c') :
    c'.ReadsFrom names := by
  obtain ⟨p, rfl, env, henv, hmem⟩ := locate_ok h
  intro r hr
  rw [readings, Unread.readings c hc, List.mem_singleton] at hr
  subst hr
  exact henvs env henv _ hmem

mutual

theorem bound_readsFrom (henvs : Within names envs) : (c c' : Component) → c.Unread →
    bound envs c = .ok c' → c'.ReadsFrom names
  | .column .., _, hc, h | .aggChain .., _, hc, h | .windowChain .., _, hc, h => by
    rw [bound] at h
    exact locate_readsFrom henvs hc h
  | .int _, _, _, h | .float _, _, _, h | .str _, _, _, h | .absent, _, _, h | .windowClause _, _, _, h => by
    cases h
    simp [readings, ReadsFrom]
  | .boundColumn .., _, hc, _ => absurd trivial hc.here
  | .aggregation func arg isDistinct, _, hc, h => by
    obtain ⟨arg', harg, h⟩ := ok_of_bind h
    cases h
    exact bound_readsFrom henvs arg arg' (hc.child (.head _)) harg
  | .aggWindow call partition orderBy, _, hc, h | .funcWindow call partition orderBy, _, hc, h => by
    obtain ⟨call', hcall, h⟩ := ok_of_bind h
    obtain ⟨partition', hp, h⟩ := ok_of_bind h
    obtain ⟨orderBy', ho, h⟩ := ok_of_bind h
    cases h
    simp only [ReadsFrom, readings, List.forall_mem_append]
    exact ⟨⟨bound_readsFrom henvs call call' (hc.child (by simp [children])) hcall,
      bound_readsFrom henvs partition partition' (hc.child (by simp [children])) hp⟩,
      bound_readsFrom henvs orderBy orderBy' (hc.child (by simp [children])) ho⟩
  | .partitionList items, _, hc, h | .groupList items, _, hc, h | .sortList items, _, hc, h => by
    obtain ⟨items', hitems, h⟩ := ok_of_bind h
    cases h
    exact readsFrom_sorted (boundAll_readsFrom henvs items items' (fun _ hd => hc.child hd) hitems)
  | .sortItem chain dir, _, hc, h => by
    obtain ⟨chain', hchain, h⟩ := ok_of_bind h
    cases h
    exact bound_readsFrom henvs chain chain' (hc.child (.head _)) hchain
  | .comparison l op r, _, hc, h | .connection l op r, _, hc, h => by
    obtain ⟨l', hl, h⟩ := ok_of_bind h
    obtain ⟨r', hr, h⟩ := ok_of_bind h
    cases h
    simp only [ReadsFrom, readings, List.forall_mem_append]
    exact ⟨bound_readsFrom henvs l l' (hc.child (by simp [children])) hl,
      bound_readsFrom henvs r r' (hc.child (by simp [children])) hr⟩
  | .named item asName, _, hc, h => by
    obtain ⟨item', hitem, h⟩ := ok_of_bind h
    cases h
    exact bound_readsFrom henvs item item' (hc.child (.head _)) hitem
  | .table _, _, _, h | .distinct, _, _, h | .compareOp _, _, _, h | .logicOp _, _, _, h
  | .joinType _, _, _, h | .aggFunc _, _, _, h | .windowFunc _, _, _, h | .sortDir _, _, _, h
  | .select _, _, _, h | .tableSource .., _, _, h | .querySource .., _, _, h | .join .., _, _, h
  | .query .., _, _, h => by cases h

theorem boundAll_readsFrom (henvs : Within names envs) : (cs cs' : List Component) →
    (∀ c ∈ cs, c.Unread) → boundAll envs cs = .ok cs' → ∀ c' ∈ cs', c'.ReadsFrom names
  | [], _, _, h => by
    cases h
    simp
  | c :: cs, _, hcs, h => by
    obtain ⟨c', hc', h⟩ := ok_of_bind h
    obtain ⟨cs', hcs', h⟩ := ok_of_bind h
    cases h
    rw [List.forall_mem_cons] at hcs ⊢
    exact ⟨bound_readsFrom henvs c c' hcs.1 hc', boundAll_readsFrom henvs cs cs' hcs.2 hcs'⟩

end

section Keys

variable {outputs source : Environment} {grouped : Bool}

mutual

theorem boundKeys_readsFrom (henvs : Within names [outputs, source]) : (c c' : Component) → c.Unread →
    boundKeys outputs source grouped c = .ok c' → c'.ReadsFrom names
  | .sortList items, _, hc, h => by
    obtain ⟨items', hitems, h⟩ := ok_of_bind h
    cases h
    exact readsFrom_sorted (boundKeysAll_readsFrom henvs items items' (fun _ hd => hc.child hd) hitems)
  | .sortItem chain dir, _, hc, h => by
    obtain ⟨chain', hchain, h⟩ := ok_of_bind h
    cases h
    exact boundKeys_readsFrom henvs chain chain' (hc.child (.head _)) hchain
  | .aggChain func arg, c', hc, h => by
    rw [boundKeys] at h
    split at h
    · obtain ⟨arg', harg, h⟩ := ok_of_bind h
      cases h
      have hsource : Within names [source] := fun env henv => henvs env (.tail _ henv)
      exact bound_readsFrom hsource arg arg' (hc.child (.head _)) harg
    · exact bound_readsFrom henvs _ c' hc h
  | .table _, c', hc, h | .column .., c', hc, h | .windowChain .., c', hc, h | .int _, c', hc, h
  | .float _, c', hc, h | .str _, c', hc, h | .absent, c', hc, h | .distinct, c', hc, h
  | .compareOp _, c', hc, h | .logicOp _, c', hc, h | .joinType _, c', hc, h | .aggFunc _, c', hc, h
  | .windowFunc _, c', hc, h | .sortDir _, c', hc, h | .aggregation .., c', hc, h
  | .windowClause _, c', hc, h | .aggWindow .., c', hc, h | .funcWindow .., c', hc, h
  | .partitionList _, c', hc, h | .groupList _, c', hc, h | .comparison .., c', hc, h
  | .connection .., c', hc, h | .select _, c', hc, h | .named .., c', hc, h | .tableSource .., c', hc, h
  | .querySource .., c', hc, h | .join .., c', hc, h | .query .., c', hc, h | .boundColumn .., c', hc, h =>
    bound_readsFrom henvs _ c' hc (by simpa only [boundKeys] using h)

theorem boundKeysAll_readsFrom (henvs : Within names [outputs, source]) : (cs cs' : List Component) →
    (∀ c ∈ cs, c.Unread) → boundKeysAll outputs source grouped cs = .ok cs' →
      ∀ c' ∈ cs', c'.ReadsFrom names
  | [], _, _, h => by
    cases h
    simp
  | c :: cs, _, hcs, h => by
    obtain ⟨c', hc', h⟩ := ok_of_bind h
    obtain ⟨cs', hcs', h⟩ := ok_of_bind h
    cases h
    rw [List.forall_mem_cons] at hcs ⊢
    exact ⟨boundKeys_readsFrom henvs c c' hcs.1 hc', boundKeysAll_readsFrom henvs cs cs' hcs.2 hcs'⟩

end

end Keys

end Clauses

section Queries

variable {names : List String} {env outputs outputs' : Environment} {item item' : Component}
  {items items' : List Component} {asName : String} {s t : NameSupply}

theorem BindsItem.readsFrom (henv : Within names [env]) (h : BindsItem env item s item' asName t)
    (hitem : item.Unread) : item'.ReadsFrom names := by
  cases h with
  | @named i inner _ _ h =>
    have hinner := bound_readsFrom henv i inner (hitem.child (.head _)) h
    exact hinner
  | @unnamed _ inner _ _ _ _ h _ =>
    have hinner := bound_readsFrom henv item inner hitem h
    exact hinner

theorem bindItems_readsFrom (henv : Within names [env])
    (h : Gives (bindItems env outputs items) s (items', outputs') t) (hitems : ∀ c ∈ items, c.Unread) :
    ∀ c ∈ items', c.ReadsFrom names := by
  induction items generalizing outputs items' s with
  | nil =>
    obtain ⟨rfl, _, _⟩ := gives_bindItems_nil h
    simp
  | cons item items ih =>
    obtain ⟨item', asName, u, rest, hitem, hrest, rfl⟩ := gives_bindItems_cons h
    rw [List.forall_mem_cons] at hitems ⊢
    exact ⟨hitem.readsFrom henv hitems.1, ih hrest hitems.2⟩

theorem mem_tableEnvironment {table : Component} {a : String} {e : Fingerprint × Place}
    (he : e ∈ (tableEnvironment table a).entries) : e.2.source = a := by
  rw [tableEnvironment_eq] at he
  cases mem_foldl_bindColumn he with
  | inl he => cases he
  | inr h => exact h.1

theorem within_source (h : ∀ e ∈ env.entries, e.2.source ∈ names) : Within names [env] := by
  rw [Within, List.forall_mem_singleton]
  exact fun e he _ => h e he

theorem bind_readsSources :
    (∀ c s c' env t, Gives (bindSource c) s (c', env) t → c.Unread →
      c'.ReadsSources ∧ ∀ e ∈ env.entries, e.2.source ∈ c'.fromNames) ∧
    ∀ c s c' outputs t, Gives (bindQuery c) s (c', outputs) t → c.Unread → c'.ReadsSources := by
  apply bind_induct
  case table =>
    intro table asName s a t _ _
    refine ⟨trivial, fun e he => ?_⟩
    rw [fromNames_tableSource, mem_tableEnvironment he]
    exact .head _
  case subquery =>
    intro q asName s inner outputs u a t ih _ hc
    refine ⟨ih (hc.child (.head _)), fun e he => ?_⟩
    rw [fromNames_querySource, (Environment.mem_through he).1]
    exact .head _
  case join =>
    intro l r type on s l' leftEnv u r' rightEnv t on' ihl ihr hon hc
    obtain ⟨hreadsl, henvl⟩ := ihl (hc.child (by simp [children]))
    obtain ⟨hreadsr, henvr⟩ := ihr (hc.child (by simp [children]))
    have henv : ∀ e ∈ (leftEnv.merge rightEnv).entries, e.2.source ∈ l'.fromNames ++ r'.fromNames := by
      intro e he
      rw [List.mem_append]
      exact (Environment.mem_merge he).imp (henvl e) (henvr e)
    have hreads := bound_readsFrom (within_source henv) on on' (hc.child (by simp [children])) hon
    rw [fromNames_join]
    exact ⟨⟨hreadsl, hreadsr, hreads⟩, henv⟩
  case query =>
    intro given source filter groupBy having orderBy isDistinct s source' env u filter' groupBy' having' items
      outputs t orderBy' ih hfilter hgroup hhaving hitems horder hc
    obtain ⟨hreads, henv⟩ := ih (hc.child (by simp [children]))
    have hsource := within_source henv
    -- Sort keys may also name outputs, and those have no qualifier.
    have hkeys : Within source'.fromNames [outputs, env] := by
      rw [Within, List.forall_mem_cons]
      refine ⟨fun e he hne => ?_, hsource⟩
      cases bindItems_outputs hitems e he with
      | inl he => cases he
      | inr he => exact absurd he.1 hne
    have hgiven : ∀ c ∈ given, c.Unread := fun d hd => (hc.child (.head _)).child hd
    refine ⟨hreads, ?_⟩
    simp only [List.forall_mem_cons, List.not_mem_nil, false_imp_iff, implies_true, and_true]
    exact ⟨readsFrom_all (bindItems_readsFrom hsource hitems hgiven),
      bound_readsFrom hsource filter filter' (hc.child (by simp [children])) hfilter,
      bound_readsFrom hsource groupBy groupBy' (hc.child (by simp [children])) hgroup,
      bound_readsFrom hsource having having' (hc.child (by simp [children])) hhaving,
      boundKeys_readsFrom hkeys orderBy orderBy' (hc.child (by simp [children])) horder⟩

theorem bindNames_readsSources {q c : Component} {names names' : NameSupply}
    (h : q.bindNames names = (.ok c, names')) (hq : q.Unread) : c.ReadsSources := by
  obtain ⟨outputs, hgives⟩ := gives_of_bindNames h
  exact bind_readsSources.2 q names c outputs names' hgives hq

end Queries

end QuerySearch.Component
