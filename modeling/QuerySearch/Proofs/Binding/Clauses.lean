import QuerySearch.Component.Lemmas
import QuerySearch.Proofs.Binding.Unbinding
import QuerySearch.Proofs.Outcomes

/-! Binding the clauses of a query restores to what was bound, and reads only places that the
environments have. -/

namespace QuerySearch.Component

section Orders

variable {as bs cs : List Component}

theorem ReorderedAll.perm (h : as.Perm bs) : ReorderedAll as cs → ReorderedAll bs cs := by
  induction h generalizing cs with
  | nil => exact id
  | cons a _ ih =>
    rintro ⟨c, cs', hperm, ha, has⟩
    exact ⟨c, cs', hperm, ha, ih has⟩
  | swap a b as =>
    rintro ⟨c, cs', hperm, hb, d, ds, hperm', ha, has⟩
    refine ⟨d, c :: ds, ?_, ha, c, ds, .refl _, hb, has⟩
    exact hperm.trans ((hperm'.cons c).trans (.swap d c ds))
  | trans _ _ ih ih' => exact fun hcs => ih' (ih hcs)

theorem unboundAll_eq (cs : List Component) : unboundAll cs = cs.map unbound := by
  induction cs with
  | nil => rfl
  | cons c cs ih => simp [unboundAll, ih]

theorem mem_readingsAll {r : Place × Component} :
    r ∈ readingsAll cs ↔ ∃ c ∈ cs, r ∈ c.readings := by
  induction cs with
  | nil => simp [readingsAll]
  | cons c cs ih => simp [readingsAll, ih]

end Orders

mutual

theorem Reordered.refl : (c : Component) → Reordered c c
  | .aggChain _ arg => ⟨arg, rfl, .refl arg⟩
  | .aggregation _ arg _ => ⟨arg, rfl, .refl arg⟩
  | .aggWindow call partition orderBy | .funcWindow call partition orderBy =>
    ⟨call, partition, orderBy, rfl, .refl call, .refl partition, .refl orderBy⟩
  | .partitionList items | .groupList items | .sortList items => ⟨items, rfl, .refl items⟩
  | .sortItem chain _ => ⟨chain, rfl, .refl chain⟩
  | .comparison l _ r => ⟨l, r, rfl, .refl l, .refl r⟩
  | .connection l _ r => ⟨l, r, rfl, .refl l, .refl r⟩
  | .named item _ => ⟨item, rfl, .refl item⟩
  | .table _ | .column .. | .windowChain .. | .int _ | .float _ | .str _ | .absent | .distinct
  | .compareOp _ | .logicOp _ | .joinType _ | .aggFunc _ | .windowFunc _ | .sortDir _
  | .windowClause _ | .select _ | .tableSource .. | .querySource .. | .join .. | .query ..
  | .boundColumn .. => rfl

theorem ReorderedAll.refl : (cs : List Component) → ReorderedAll cs cs
  | [] => rfl
  | c :: cs => ⟨c, cs, .refl _, .refl c, .refl cs⟩

end

mutual

theorem Unnamed.readings : (c : Component) → c.Unnamed → c.readings = []
  | .aggChain _ arg, h | .windowChain _ arg, h | .aggregation _ arg _, h => Unnamed.readings arg h
  | .aggWindow call partition orderBy, h | .funcWindow call partition orderBy, h => by
    simp [Component.readings, Unnamed.readings call h.1, Unnamed.readings partition h.2.1,
      Unnamed.readings orderBy h.2.2]
  | .partitionList items, h | .groupList items, h | .sortList items, h =>
    AllUnnamed.readings items h.2
  | .select items, h => AllUnnamed.readings items h
  | .sortItem chain _, h => Unnamed.readings chain h
  | .comparison l _ r, h => by
    simp [Component.readings, Unnamed.readings l h.1, Unnamed.readings r h.2]
  | .connection l _ r, h => by
    simp [Component.readings, Unnamed.readings l h.1, Unnamed.readings r h.2]
  | .named item _, h => Unnamed.readings item h
  | .boundColumn .., h => h.elim
  | .table _, _ | .column .., _ | .int _, _ | .float _, _ | .str _, _ | .absent, _ | .distinct, _
  | .compareOp _, _ | .logicOp _, _ | .joinType _, _ | .aggFunc _, _ | .windowFunc _, _
  | .sortDir _, _ | .windowClause _, _ | .tableSource .., _ | .querySource .., _ | .join .., _
  | .query .., _ => rfl

theorem AllUnnamed.readings : (cs : List Component) → AllUnnamed cs → readingsAll cs = []
  | [], _ => rfl
  | c :: cs, h => by
    simp [readingsAll, Unnamed.readings c h.1, AllUnnamed.readings cs h.2]

end

structure Faithful (restore : Component → Component) (envs : List Environment)
    (c c' : Component) : Prop where
  restores : Restores restore c' c
  places : ∀ r ∈ c'.readings, ∃ env ∈ envs, (r.2.fingerprint, r.1) ∈ env.entries

section Bound

variable {envs : List Environment} {c c' : Component}

theorem locate_ok (h : locate c envs = .ok c') : ∃ p, c' = .boundColumn p.source p.column c ∧
    ∃ env ∈ envs, (c.fingerprint, p) ∈ env.entries := by
  induction envs with
  | nil => cases h
  | cons env envs ih =>
    rw [locate] at h
    cases hplaces : env.places c with
    | nil =>
      rw [hplaces] at h
      obtain ⟨p, hp, env', henv, hmem⟩ := ih h
      exact ⟨p, hp, env', .tail _ henv, hmem⟩
    | cons p ps =>
      have hmem : p ∈ env.places c := by simp [hplaces]
      simp only [Environment.places, List.mem_map, List.mem_filter, beq_iff_eq] at hmem
      obtain ⟨⟨f, q⟩, ⟨hmem, hf⟩, hq⟩ := hmem
      simp only at hf hq
      subst hf hq
      rw [hplaces] at h
      cases ps with
      | nil =>
        cases h
        exact ⟨q, rfl, env, .head _, hmem⟩
      | cons => cases h

theorem faithful_located (hc : c.Unnamed) (h : locate c envs = .ok c') : Faithful unbound envs c c' := by
  obtain ⟨p, rfl, env, henv, hmem⟩ := locate_ok h
  refine ⟨⟨.refl c, rfl⟩, ?_⟩
  simp only [readings, Unnamed.readings c hc, List.mem_singleton, forall_eq]
  exact ⟨env, henv, hmem⟩

theorem faithful_self (hunbound : c.unbound = c) (hreadings : c.readings = []) :
    Faithful unbound envs c c := by
  refine ⟨⟨?_, by rw [hunbound]⟩, by simp [hreadings]⟩
  rw [hunbound]
  exact .refl c

theorem faithful_aggregation {arg arg' : Component} (func : AggFunc) (isDistinct : Bool)
    (h : Faithful unbound envs arg arg') :
    Faithful unbound envs (.aggregation func arg isDistinct) (.aggregation func arg' isDistinct) := by
  refine ⟨⟨⟨arg, rfl, h.restores.1⟩, ?_⟩, h.places⟩
  apply fingerprint_congr
  exact congrArg (Fingerprint.ofAggregation func · isDistinct) h.restores.2

theorem faithful_sortItem {chain chain' : Component} (dir : SortDir)
    (h : Faithful unbound envs chain chain') :
    Faithful unbound envs (.sortItem chain dir) (.sortItem chain' dir) := by
  refine ⟨⟨⟨chain, rfl, h.restores.1⟩, ?_⟩, h.places⟩
  apply fingerprint_congr
  exact congrArg (Fingerprint.ofSortItem · dir) h.restores.2

theorem faithful_named {item item' : Component} (asName : String)
    (h : Faithful unbound envs item item') :
    Faithful unbound envs (.named item asName) (.named item' asName) := by
  refine ⟨⟨⟨item, rfl, h.restores.1⟩, ?_⟩, h.places⟩
  apply fingerprint_congr
  exact congrArg (fun f => Fingerprint.ofFields .named [.component f, .text asName]) h.restores.2

section Windows

variable {call call' partition partition' orderBy orderBy' : Component}

theorem places_window (hcall : Faithful unbound envs call call')
    (hp : Faithful unbound envs partition partition') (ho : Faithful unbound envs orderBy orderBy') :
    ∀ r ∈ call'.readings ++ partition'.readings ++ orderBy'.readings,
      ∃ env ∈ envs, (r.2.fingerprint, r.1) ∈ env.entries := by
  simp only [List.mem_append]
  rintro r ((hr | hr) | hr)
  · exact hcall.places r hr
  · exact hp.places r hr
  · exact ho.places r hr

theorem window_fingerprints (hcall : Faithful unbound envs call call')
    (hp : Faithful unbound envs partition partition') (ho : Faithful unbound envs orderBy orderBy') :
    [call'.unbound.fingerprint, partition'.unbound.fingerprint, orderBy'.unbound.fingerprint] =
      [call.fingerprint, partition.fingerprint, orderBy.fingerprint] := by
  rw [hcall.restores.2, hp.restores.2, ho.restores.2]

theorem faithful_aggWindow (hcall : Faithful unbound envs call call')
    (hp : Faithful unbound envs partition partition') (ho : Faithful unbound envs orderBy orderBy') :
    Faithful unbound envs (.aggWindow call partition orderBy) (.aggWindow call' partition' orderBy') := by
  refine ⟨⟨⟨call, partition, orderBy, rfl, hcall.restores.1, hp.restores.1, ho.restores.1⟩, ?_⟩,
    places_window hcall hp ho⟩
  apply fingerprint_congr
  exact congrArg (Fingerprint.ofList _) (window_fingerprints hcall hp ho)

theorem faithful_funcWindow (hcall : Faithful unbound envs call call')
    (hp : Faithful unbound envs partition partition') (ho : Faithful unbound envs orderBy orderBy') :
    Faithful unbound envs (.funcWindow call partition orderBy)
      (.funcWindow call' partition' orderBy') := by
  refine ⟨⟨⟨call, partition, orderBy, rfl, hcall.restores.1, hp.restores.1, ho.restores.1⟩, ?_⟩,
    places_window hcall hp ho⟩
  apply fingerprint_congr
  exact congrArg (Fingerprint.ofList _) (window_fingerprints hcall hp ho)

end Windows

section Operators

variable {l l' r r' : Component}

theorem places_sides (hl : Faithful unbound envs l l') (hr : Faithful unbound envs r r') :
    ∀ x ∈ l'.readings ++ r'.readings, ∃ env ∈ envs, (x.2.fingerprint, x.1) ∈ env.entries := by
  simp only [List.mem_append]
  rintro x (hx | hx)
  · exact hl.places x hx
  · exact hr.places x hx

theorem faithful_comparison (op : CompareOp) (hl : Faithful unbound envs l l')
    (hr : Faithful unbound envs r r') :
    Faithful unbound envs (.comparison l op r) (.comparison l' op r') := by
  refine ⟨⟨⟨l, r, rfl, hl.restores.1, hr.restores.1⟩, ?_⟩, places_sides hl hr⟩
  apply fingerprint_congr
  exact congrArg₂ (Fingerprint.ofComparison · op ·) hl.restores.2 hr.restores.2

theorem faithful_connection (op : LogicOp) (hl : Faithful unbound envs l l')
    (hr : Faithful unbound envs r r') :
    Faithful unbound envs (.connection l op r) (.connection l' op r') := by
  refine ⟨⟨⟨l, r, rfl, hl.restores.1, hr.restores.1⟩, ?_⟩, places_sides hl hr⟩
  apply fingerprint_congr
  exact congrArg₂ (Fingerprint.ofConnection · op ·) hl.restores.2 hr.restores.2

end Operators

section Lists

variable {restore : Component → Component} {items items' : List Component}

theorem reorderedAll_of_restores (h : List.Forall₂ (Faithful restore envs) items items') :
    ReorderedAll (items'.map restore) items := by
  induction h with
  | nil => rfl
  | cons hitem _ ih => exact ⟨_, _, .refl _, hitem.restores.1, ih⟩

theorem fingerprints_of_restores (h : List.Forall₂ (Faithful restore envs) items items') :
    (items'.map restore).map fingerprint = items.map fingerprint := by
  induction h with
  | nil => rfl
  | cons hitem _ ih => simp_all [hitem.restores.2]

theorem places_of_all (h : List.Forall₂ (Faithful restore envs) items items') :
    ∀ r ∈ readingsAll items', ∃ env ∈ envs, (r.2.fingerprint, r.1) ∈ env.entries := by
  induction h with
  | nil => simp [readingsAll]
  | cons hitem _ ih =>
    simp only [readingsAll, List.mem_append]
    rintro r (hr | hr)
    · exact hitem.places r hr
    · exact ih r hr

theorem sorted_restores (h : List.Forall₂ (Faithful restore envs) items items')
    (hsorted : sortedByKey items = items) :
    ReorderedAll (sortedByKey ((sortedByKey items').map restore)) items ∧
      (sortedByKey ((sortedByKey items').map restore)).map fingerprint = items.map fingerprint := by
  have hperm : ((sortedByKey items').map restore).Perm (items'.map restore) :=
    (sortedByKey_perm items').map restore
  constructor
  · exact (reorderedAll_of_restores h).perm (hperm.symm.trans (sortedByKey_perm _).symm)
  · apply map_fingerprint_sorted _ hsorted
    rw [← fingerprints_of_restores h]
    exact hperm.map fingerprint

theorem sorted_places (h : List.Forall₂ (Faithful restore envs) items items') :
    ∀ r ∈ readingsAll (sortedByKey items'), ∃ env ∈ envs, (r.2.fingerprint, r.1) ∈ env.entries := by
  intro r hr
  obtain ⟨c, hc, hr⟩ := mem_readingsAll.1 hr
  exact places_of_all h r (mem_readingsAll.2 ⟨c, (sortedByKey_perm items').mem_iff.1 hc, hr⟩)

theorem faithful_list (mk : List Component → Component) {kind : Kind}
    {restoreList : Component → Component}
    (hreordered : ∀ as bs, ReorderedAll as bs → Reordered (mk as) (mk bs))
    (hfingerprint : ∀ cs, (mk cs).fingerprint = .ofList kind (cs.map fingerprint))
    (hreadings : ∀ cs, (mk cs).readings = readingsAll cs)
    (hrestore : ∀ cs, restoreList (mk cs) = mk (sortedByKey (cs.map restore)))
    (h : List.Forall₂ (Faithful restore envs) items items') (hsorted : sortedByKey items = items) :
    Faithful restoreList envs (mk items) (mk (sortedByKey items')) := by
  obtain ⟨hre, hf⟩ := sorted_restores h hsorted
  refine ⟨⟨?_, ?_⟩, ?_⟩
  · rw [hrestore]
    exact hreordered _ _ hre
  · rw [hrestore, hfingerprint, hfingerprint, hf]
  · rw [hreadings]
    exact sorted_places h

theorem faithful_partitionList (h : List.Forall₂ (Faithful unbound envs) items items')
    (hsorted : sortedByKey items = items) :
    Faithful unbound envs (.partitionList items) (partitionListOf items') := by
  apply faithful_list .partitionList (fun _ bs h => ⟨bs, rfl, h⟩) (fun _ => fingerprint_eq _)
    (fun _ => rfl) _ h hsorted
  intro cs
  rw [unbound, partitionListOf, unboundAll_eq]

theorem faithful_groupList (h : List.Forall₂ (Faithful unbound envs) items items')
    (hsorted : sortedByKey items = items) :
    Faithful unbound envs (.groupList items) (groupListOf items') := by
  apply faithful_list .groupList (fun _ bs h => ⟨bs, rfl, h⟩) (fun _ => fingerprint_eq _) (fun _ => rfl) _ h
    hsorted
  intro cs
  rw [unbound, groupListOf, unboundAll_eq]

theorem faithful_sortList (h : List.Forall₂ (Faithful unbound envs) items items')
    (hsorted : sortedByKey items = items) :
    Faithful unbound envs (.sortList items) (sortListOf items') := by
  apply faithful_list .sortList (fun _ bs h => ⟨bs, rfl, h⟩) (fun _ => fingerprint_eq _) (fun _ => rfl) _ h
    hsorted
  intro cs
  rw [unbound, sortListOf, unboundAll_eq]

theorem faithful_sortKeys (h : List.Forall₂ (Faithful unboundKey envs) items items')
    (hsorted : sortedByKey items = items) :
    Faithful unboundKeys envs (.sortList items) (sortListOf items') := by
  apply faithful_list .sortList (fun _ bs h => ⟨bs, rfl, h⟩) (fun _ => fingerprint_eq _) (fun _ => rfl) _ h
    hsorted
  intro cs
  rw [unboundKeys, sortListOf]

end Lists

mutual

theorem bound_faithful (envs : List Environment) : (c : Component) → (c' : Component) → c.Unnamed →
    bound envs c = .ok c' → Faithful unbound envs c c'
  | .column .., _, hc, h | .aggChain .., _, hc, h | .windowChain .., _, hc, h => by
    rw [bound] at h
    exact faithful_located hc h
  | .int _, _, _, h | .float _, _, _, h | .str _, _, _, h | .absent, _, _, h
  | .windowClause _, _, _, h => by
    cases h
    exact faithful_self rfl rfl
  | .boundColumn .., _, hc, _ => hc.elim
  | .aggregation func arg isDistinct, _, hc, h => by
    obtain ⟨arg', harg, h⟩ := ok_of_bind h
    cases h
    exact faithful_aggregation func isDistinct (bound_faithful envs arg arg' hc harg)
  | .aggWindow call partition orderBy, _, hc, h => by
    obtain ⟨call', hcall, h⟩ := ok_of_bind h
    obtain ⟨partition', hp, h⟩ := ok_of_bind h
    obtain ⟨orderBy', ho, h⟩ := ok_of_bind h
    cases h
    exact faithful_aggWindow (bound_faithful envs call call' hc.1 hcall)
      (bound_faithful envs partition partition' hc.2.1 hp)
      (bound_faithful envs orderBy orderBy' hc.2.2 ho)
  | .funcWindow call partition orderBy, _, hc, h => by
    obtain ⟨call', hcall, h⟩ := ok_of_bind h
    obtain ⟨partition', hp, h⟩ := ok_of_bind h
    obtain ⟨orderBy', ho, h⟩ := ok_of_bind h
    cases h
    exact faithful_funcWindow (bound_faithful envs call call' hc.1 hcall)
      (bound_faithful envs partition partition' hc.2.1 hp)
      (bound_faithful envs orderBy orderBy' hc.2.2 ho)
  | .partitionList items, _, hc, h => by
    obtain ⟨items', hitems, h⟩ := ok_of_bind h
    cases h
    exact faithful_partitionList (boundAll_faithful envs items items' hc.2 hitems) hc.1
  | .groupList items, _, hc, h => by
    obtain ⟨items', hitems, h⟩ := ok_of_bind h
    cases h
    exact faithful_groupList (boundAll_faithful envs items items' hc.2 hitems) hc.1
  | .sortList items, _, hc, h => by
    obtain ⟨items', hitems, h⟩ := ok_of_bind h
    cases h
    exact faithful_sortList (boundAll_faithful envs items items' hc.2 hitems) hc.1
  | .sortItem chain dir, _, hc, h => by
    obtain ⟨chain', hchain, h⟩ := ok_of_bind h
    cases h
    exact faithful_sortItem dir (bound_faithful envs chain chain' hc hchain)
  | .comparison l op r, _, hc, h => by
    obtain ⟨l', hl, h⟩ := ok_of_bind h
    obtain ⟨r', hr, h⟩ := ok_of_bind h
    cases h
    exact faithful_comparison op (bound_faithful envs l l' hc.1 hl) (bound_faithful envs r r' hc.2 hr)
  | .connection l op r, _, hc, h => by
    obtain ⟨l', hl, h⟩ := ok_of_bind h
    obtain ⟨r', hr, h⟩ := ok_of_bind h
    cases h
    exact faithful_connection op (bound_faithful envs l l' hc.1 hl) (bound_faithful envs r r' hc.2 hr)
  | .named item asName, _, hc, h => by
    obtain ⟨item', hitem, h⟩ := ok_of_bind h
    cases h
    exact faithful_named asName (bound_faithful envs item item' hc hitem)
  | .table _, _, _, h | .distinct, _, _, h | .compareOp _, _, _, h | .logicOp _, _, _, h
  | .joinType _, _, _, h | .aggFunc _, _, _, h | .windowFunc _, _, _, h | .sortDir _, _, _, h
  | .select _, _, _, h | .tableSource .., _, _, h | .querySource .., _, _, h | .join .., _, _, h
  | .query .., _, _, h => by cases h

theorem boundAll_faithful (envs : List Environment) : (cs cs' : List Component) → AllUnnamed cs →
    boundAll envs cs = .ok cs' → List.Forall₂ (Faithful unbound envs) cs cs'
  | [], _, _, h => by
    cases h
    exact .nil
  | c :: cs, _, hcs, h => by
    obtain ⟨c', hc', h⟩ := ok_of_bind h
    obtain ⟨cs', hcs', h⟩ := ok_of_bind h
    cases h
    exact .cons (bound_faithful envs c c' hcs.1 hc') (boundAll_faithful envs cs cs' hcs.2 hcs')

end

end Bound

section Keys

variable {outputs source : Environment} {grouped : Bool} {c c' chain chain' arg : Component}

theorem Faithful.mono {restore : Component → Component} {envs envs' : List Environment}
    (h : Faithful restore envs c c') (henvs : ∀ env ∈ envs, env ∈ envs') :
    Faithful restore envs' c c' := by
  refine ⟨h.restores, fun r hr => ?_⟩
  obtain ⟨env, henv, hmem⟩ := h.places r hr
  exact ⟨env, henvs env henv, hmem⟩

theorem faithful_key {envs : List Environment} (dir : SortDir) (h : Faithful unbound envs chain chain')
    (hagg : ∀ func arg isDistinct, chain' ≠ .aggregation func arg isDistinct) :
    Faithful unboundKey envs (.sortItem chain dir) (.sortItem chain' dir) := by
  have hrestore : unboundKey (.sortItem chain' dir) = (Component.sortItem chain' dir).unbound := by
    rw [unboundKey]
    intro func arg isDistinct dir' heq
    cases heq
    exact hagg func arg isDistinct rfl
  have hitem := faithful_sortItem dir h
  refine ⟨?_, hitem.places⟩
  rw [Restores, hrestore]
  exact hitem.restores

theorem faithful_computedKey {envs : List Environment} (func : AggFunc) (isDistinct : Bool)
    (dir : SortDir) (h : Faithful unbound envs arg c') :
    Faithful unboundKey envs (.sortItem (.aggChain func arg) dir)
      (.sortItem (.aggregation func c' isDistinct) dir) := by
  refine ⟨⟨⟨_, rfl, arg, rfl, h.restores.1⟩, ?_⟩, h.places⟩
  have hchain : (aggChain func c'.unbound).fingerprint = (aggChain func arg).fingerprint := by
    rw [fingerprint_aggChain, fingerprint_aggChain, h.restores.2]
  apply fingerprint_congr
  exact congrArg (Fingerprint.ofSortItem · dir) hchain

theorem boundKey_faithful {dir : SortDir} (hc : chain.Unnamed) (hchain : chain.IsChain)
    (h : boundKeys outputs source grouped (.sortItem chain dir) = .ok c') :
    Faithful unboundKey [outputs, source] (.sortItem chain dir) c' := by
  obtain ⟨chain', hkey, heq⟩ := ok_of_bind h
  cases heq
  clear h
  cases chain with
  | aggChain func arg =>
    rw [boundKeys] at hkey
    split at hkey
    · obtain ⟨arg', harg, heq⟩ := ok_of_bind hkey
      cases heq
      apply faithful_computedKey
      exact (bound_faithful [source] arg arg' hc harg).mono (by simp)
    · apply faithful_key dir (bound_faithful _ _ _ hc hkey)
      obtain ⟨p, rfl, _⟩ := locate_ok hkey
      simp
  | column t name type =>
    apply faithful_key dir (bound_faithful _ _ _ hc hkey)
    obtain ⟨p, rfl, _⟩ := locate_ok hkey
    simp
  | windowChain func arg =>
    apply faithful_key dir (bound_faithful _ _ _ hc hkey)
    obtain ⟨p, rfl, _⟩ := locate_ok hkey
    simp
  | int v | float v | str v | absent =>
    apply faithful_key dir (bound_faithful _ _ _ hc hkey)
    cases hkey
    simp
  | _ => exact hchain.elim

theorem boundKeysAll_faithful {items items' : List Component} (hitems : AllUnnamed items)
    (hchains : ∀ c ∈ items, ∃ chain dir, c = .sortItem chain dir ∧ chain.IsChain)
    (h : boundKeysAll outputs source grouped items = .ok items') :
    List.Forall₂ (Faithful unboundKey [outputs, source]) items items' := by
  induction items generalizing items' with
  | nil =>
    cases h
    exact .nil
  | cons c cs ih =>
    obtain ⟨c', hc', h⟩ := ok_of_bind h
    obtain ⟨cs', hcs', h⟩ := ok_of_bind h
    cases h
    obtain ⟨chain, dir, rfl, hchain⟩ := hchains c (.head _)
    exact .cons (boundKey_faithful hitems.1 hchain hc')
      (ih hitems.2 (fun d hd => hchains d (.tail _ hd)) hcs')

theorem boundKeys_faithful (hc : c.Unnamed) (hsorts : c.SortsChains)
    (h : boundKeys outputs source grouped c = .ok c') :
    Faithful unboundKeys [outputs, source] c c' := by
  cases c with
  | absent =>
    cases h
    exact ⟨⟨rfl, rfl⟩, by simp [readings]⟩
  | sortList items =>
    obtain ⟨items', hitems, h⟩ := ok_of_bind h
    cases h
    exact faithful_sortKeys (boundKeysAll_faithful hc.2 hsorts hitems) hc.1
  | _ => exact hsorts.elim

end Keys

end QuerySearch.Component
