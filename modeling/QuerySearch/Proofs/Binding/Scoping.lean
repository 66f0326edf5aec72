import QuerySearch.Proofs.Binding.Clauses
import QuerySearch.Proofs.Binding.Runs
import QuerySearch.Proofs.Component.Kinds

/-! Every column of a bound query can be read where it stands: environments hold only places of the
sources and outputs they were made from. -/

namespace QuerySearch

namespace Environment

variable {env env' : Environment} {chain : Component} {p : Place} {e : Fingerprint × Place}

theorem mem_bind (he : e ∈ (env.bind chain p).entries) :
    e ∈ env.entries ∨ e = (chain.fingerprint, p) := by
  rw [bind] at he
  split at he
  · exact .inl he
  · simpa using he

theorem mem_merge (he : e ∈ (env.merge env').entries) : e ∈ env.entries ∨ e ∈ env'.entries := by
  rw [merge, List.mem_append] at he
  cases he with
  | inl he => exact .inl he
  | inr he => exact .inr (List.mem_of_mem_filter he)

theorem mem_through {source : String} (he : e ∈ (env.through source).entries) :
    e.2.source = source ∧ ∃ p ∈ env.entries, p.1 = e.1 ∧ p.2.column = e.2.column := by
  rw [through, List.mem_map] at he
  obtain ⟨⟨k, q⟩, hmem, rfl⟩ := he
  exact ⟨rfl, _, hmem, rfl, rfl⟩

end Environment

namespace Component

section Provided

theorem bound_provided {envs : List Environment} : (c c' : Component) →
    bound envs c = .ok c' → c'.provided = c.provided
  | .column .., _, h | .aggChain .., _, h | .windowChain .., _, h => by
    rw [bound] at h
    obtain ⟨p, rfl, _⟩ := locate_ok h
    rfl
  | .int _, _, h | .float _, _, h | .str _, _, h | .absent, _, h | .windowClause _, _, h
  | .boundColumn .., _, h => by
    cases h
    rfl
  | .aggregation func arg isDistinct, _, h => by
    obtain ⟨arg', harg, h⟩ := ok_of_bind h
    cases h
    simp [provided, bound_provided arg arg' harg]
  | .aggWindow call partition orderBy, _, h | .funcWindow call partition orderBy, _, h => by
    obtain ⟨call', hcall, h⟩ := ok_of_bind h
    obtain ⟨partition', hp, h⟩ := ok_of_bind h
    obtain ⟨orderBy', ho, h⟩ := ok_of_bind h
    cases h
    simp [provided, bound_provided call call' hcall]
  | .partitionList items, _, h | .groupList items, _, h | .sortList items, _, h => by
    obtain ⟨items', hitems, h⟩ := ok_of_bind h
    cases h
    rfl
  | .sortItem chain dir, _, h => by
    obtain ⟨chain', hchain, h⟩ := ok_of_bind h
    cases h
    rfl
  | .comparison l op r, _, h | .connection l op r, _, h => by
    obtain ⟨l', hl, h⟩ := ok_of_bind h
    obtain ⟨r', hr, h⟩ := ok_of_bind h
    cases h
    rfl
  | .named item asName, _, h => by
    obtain ⟨item', hitem, h⟩ := ok_of_bind h
    cases h
    simp [provided, bound_provided item item' hitem]
  | .table _, _, h | .distinct, _, h | .compareOp _, _, h | .logicOp _, _, h | .joinType _, _, h
  | .aggFunc _, _, h | .windowFunc _, _, h | .sortDir _, _, h | .select _, _, h
  | .tableSource .., _, h | .querySource .., _, h | .join .., _, h | .query .., _, h => by cases h

end Provided

section Items

variable {source : Component} {env outputs outputs' : Environment} {item item' : Component}
  {items items' : List Component} {asName : String} {s t : NameSupply}

theorem Faithful.inSource {restore : Component → Component} {c c' : Component}
    (h : Faithful restore [env] c c') (henv : ∀ e ∈ env.entries, InSource source e.1 e.2) :
    ∀ r ∈ c'.readings, InSource source r.2.fingerprint r.1 := by
  intro r hr
  obtain ⟨env', henv', hmem⟩ := h.places r hr
  cases List.mem_singleton.1 henv'
  exact henv _ hmem

theorem BindsItem.itemBound (h : BindsItem env item s item' asName t) (hitem : item.Unnamed)
    (henv : ∀ e ∈ env.entries, InSource source e.1 e.2) : ItemBound source item item' := by
  cases h with
  | @named given inner _ _ h =>
    have hinner := bound_faithful [env] given inner hitem h
    exact ⟨inner, asName, rfl, .inl ⟨given, rfl, hinner.restores⟩, hinner.inSource henv⟩
  | unnamed hnamed h hname =>
    have hinner := bound_faithful [env] _ _ hitem h
    exact ⟨_, asName, rfl, .inr ⟨hnamed, hinner.restores⟩, hinner.inSource henv⟩

theorem bindItems_bound (h : Gives (bindItems env outputs items) s (items', outputs') t)
    (hitems : AllUnnamed items) (henv : ∀ e ∈ env.entries, InSource source e.1 e.2) :
    List.Forall₂ (ItemBound source) items items' := by
  induction items generalizing outputs items' s with
  | nil =>
    obtain ⟨rfl, _, _⟩ := gives_bindItems_nil h
    exact .nil
  | cons item items ih =>
    obtain ⟨item', asName, u, rest, hitem, hrest, rfl⟩ := gives_bindItems_cons h
    exact .cons (hitem.itemBound hitems.1 henv) (ih hrest hitems.2)

theorem BindsItem.output (h : BindsItem env item s item' asName t) :
    ∃ inner, item' = .named inner asName ∧ inner.provided = item.provided := by
  cases h with
  | named h =>
    refine ⟨_, rfl, ?_⟩
    rw [bound_provided _ _ h, provided]
  | unnamed _ h _ => exact ⟨_, rfl, bound_provided _ _ h⟩

theorem InOutputs.cons {f : Fingerprint} {p : Place} (h : InOutputs items f p) :
    InOutputs (item :: items) f p := by
  obtain ⟨hp, c, hc, hf⟩ := h
  exact ⟨hp, c, .tail _ hc, hf⟩

theorem mem_withOutput {e : Fingerprint × Place} (he : e ∈ (withOutput outputs item asName).entries) :
    e ∈ outputs.entries ∨ e.2 = ⟨"", asName⟩ ∧ e.1 ∈ item.provided.map fingerprint := by
  rw [withOutput] at he
  split at he
  case h_1 chain chains hchains =>
    split at he
    · exact .inl he
    · cases Environment.mem_bind he with
      | inl he => exact .inl he
      | inr he =>
        subst he
        exact .inr ⟨rfl, by simp [hchains]⟩
  case h_2 => exact .inl he

theorem bindItems_outputs (h : Gives (bindItems env outputs items) s (items', outputs') t) :
    ∀ e ∈ outputs'.entries, e ∈ outputs.entries ∨ InOutputs items' e.1 e.2 := by
  induction items generalizing outputs items' s with
  | nil =>
    obtain ⟨_, rfl, _⟩ := gives_bindItems_nil h
    exact fun e he => .inl he
  | cons item items ih =>
    obtain ⟨item', asName, u, rest, hitem, hrest, rfl⟩ := gives_bindItems_cons h
    intro e he
    cases ih hrest e he with
    | inr hrest => exact .inr hrest.cons
    | inl he =>
      cases mem_withOutput he with
      | inl he => exact .inl he
      | inr he =>
        obtain ⟨inner, rfl, hprovided⟩ := hitem.output
        refine .inr ⟨by rw [he.1], inner, ?_, ?_⟩
        · rw [he.1]
          exact .head _
        · rw [hprovided]
          exact he.2

end Items

section Sources

variable {t l r : Component} {type : JoinType} {on : Component} {a : String} {f : Fingerprint}
  {p : Place} {env env' : Environment} {s s' : NameSupply}

theorem tableName_ne_empty {hint : String} (h : NameSupply.tableName hint s = (a, s')) : a ≠ "" := by
  cases h
  simp

theorem sourceName_ne_empty {hint : String} {asName : Option String} (hne : asName ≠ some "")
    (h : Gives (sourceName hint asName) s a s') : a ≠ "" := by
  cases gives_sourceName h with
  | inl h =>
    rintro rfl
    exact hne h.1
  | inr h => exact tableName_ne_empty h.2

theorem sourceName_keeps {hint : String} {asName : Option String}
    (h : Gives (sourceName hint asName) s a s') : ∀ n ∈ asName, n = a := by
  intro n hn
  cases gives_sourceName h with
  | inl h =>
    rw [h.1] at hn
    cases hn
    rfl
  | inr h =>
    rw [h.1] at hn
    cases hn

theorem InSource.left (h : InSource l f p) : InSource (.join l r type on) f p := by
  obtain ⟨hp, leaf, hleaf, hf⟩ := h
  exact ⟨hp, leaf, List.mem_append_left _ hleaf, hf⟩

theorem InSource.right (h : InSource r f p) : InSource (.join l r type on) f p := by
  obtain ⟨hp, leaf, hleaf, hf⟩ := h
  exact ⟨hp, leaf, List.mem_append_right _ hleaf, hf⟩

theorem merge_inSource (hl : ∀ e ∈ env.entries, InSource l e.1 e.2)
    (hr : ∀ e ∈ env'.entries, InSource r e.1 e.2) :
    ∀ e ∈ (env.merge env').entries, InSource (.join l r type on) e.1 e.2 := by
  intro e he
  cases Environment.mem_merge he with
  | inl he => exact (hl e he).left
  | inr he => exact (hr e he).right

def bindColumn (a : String) (env : Environment) : Component → Environment
  | .column t name type => env.bind (.column t name type) ⟨a, name⟩
  | _ => env

theorem tableEnvironment_eq (t : Component) (a : String) :
    tableEnvironment t a = t.provided.foldl (bindColumn a) .empty := by
  rw [tableEnvironment]
  congr
  funext env c
  cases c <;> rfl

theorem mem_bindColumn {c : Component} {e : Fingerprint × Place}
    (he : e ∈ (bindColumn a env c).entries) : e ∈ env.entries ∨ e.2.source = a ∧
      ∃ table type, c = .column table e.2.column type ∧ .ofColumn table e.2.column = e.1 := by
  cases c with
  | column table name type =>
    cases Environment.mem_bind he with
    | inl he => exact .inl he
    | inr he =>
      subst he
      exact .inr ⟨rfl, table, type, rfl, (fingerprint_column table name type).symm⟩
  | _ => exact .inl he

theorem mem_foldl_bindColumn {columns : List Component} {e : Fingerprint × Place}
    (he : e ∈ (columns.foldl (bindColumn a) env).entries) : e ∈ env.entries ∨ e.2.source = a ∧
      ∃ table type, .column table e.2.column type ∈ columns ∧ .ofColumn table e.2.column = e.1 := by
  induction columns generalizing env with
  | nil => exact .inl he
  | cons c columns ih =>
    cases ih he with
    | inr hmem =>
      obtain ⟨ha, table, type, hmem, hf⟩ := hmem
      exact .inr ⟨ha, table, type, .tail _ hmem, hf⟩
    | inl he =>
      cases mem_bindColumn he with
      | inl he => exact .inl he
      | inr hc =>
        obtain ⟨ha, table, type, rfl, hf⟩ := hc
        exact .inr ⟨ha, table, type, .head _, hf⟩

theorem tableEnvironment_inSource (ha : a ≠ "") :
    ∀ e ∈ (tableEnvironment t a).entries, InSource (.tableSource t (some a)) e.1 e.2 := by
  intro e he
  rw [tableEnvironment_eq] at he
  cases mem_foldl_bindColumn he with
  | inl he => cases he
  | inr h =>
    obtain ⟨hsource, hcolumn⟩ := h
    refine ⟨by rwa [hsource], .tableSource t (some a), .head _, ?_, hcolumn⟩
    rw [hsource]

theorem through_inSource {items : List Component} {source filter groupBy having orderBy : Component}
    {isDistinct : Bool} (ha : a ≠ "") (h : ∀ e ∈ env.entries, InOutputs items e.1 e.2) :
    ∀ e ∈ (env.through a).entries, InSource (.querySource
      (.query (.select items) source filter groupBy having orderBy isDistinct) (some a)) e.1 e.2 := by
  intro e he
  obtain ⟨hsource, q, hq, hf, hcolumn⟩ := Environment.mem_through he
  obtain ⟨_, item, hitem, hmem⟩ := h q hq
  rw [hcolumn] at hitem
  rw [hf] at hmem
  refine ⟨by rwa [hsource], _, .head _, ?_, item, hitem, hmem⟩
  rw [hsource]

end Sources

section Queries

def HasOutputs (outputs : Environment) (c : Component) : Prop :=
  ∃ items source filter groupBy having orderBy isDistinct,
    c = .query (.select items) source filter groupBy having orderBy isDistinct ∧
      ∀ e ∈ outputs.entries, InOutputs items e.1 e.2

theorem bind_scoped :
    (∀ c s c' env t, Gives (bindSource c) s (c', env) t → c.Unnamed →
      SourceBound c c' ∧ ∀ e ∈ env.entries, InSource c' e.1 e.2) ∧
    ∀ c s c' outputs t, Gives (bindQuery c) s (c', outputs) t → c.Unnamed →
      QueryBound c c' ∧ HasOutputs outputs c' := by
  apply bind_induct
  case table =>
    intro table asName s a t ha hc
    exact ⟨.table (sourceName_keeps ha), tableEnvironment_inSource (sourceName_ne_empty hc.2 ha)⟩
  case subquery =>
    intro q asName s inner outputs u a t ih ha hc
    obtain ⟨hbound, items, source, filter, groupBy, having, orderBy, isDistinct, rfl, houtputs⟩ := ih hc.1
    exact ⟨.query (sourceName_keeps ha) hbound,
      through_inSource (sourceName_ne_empty hc.2 ha) houtputs⟩
  case join =>
    intro l r type on s l' leftEnv u r' rightEnv t on' ihl ihr hon hc
    obtain ⟨hboundl, henvl⟩ := ihl hc.1
    obtain ⟨hboundr, henvr⟩ := ihr hc.2.1
    have hon := bound_faithful [leftEnv.merge rightEnv] on on' hc.2.2 hon
    exact ⟨.join hboundl hboundr hon.restores (hon.inSource (merge_inSource henvl henvr)),
      merge_inSource henvl henvr⟩
  case query =>
    intro given source filter groupBy having orderBy isDistinct s source' env u filter' groupBy' having' items
      outputs t orderBy' ih hfilter hgroup hhaving hitems horder hc
    obtain ⟨hsel, hsrc, hf, hg, hh, ho, hchains⟩ := hc
    obtain ⟨hbound, henv⟩ := ih hsrc
    have houtputs : ∀ e ∈ outputs.entries, InOutputs items e.1 e.2 := by
      intro e he
      cases bindItems_outputs hitems e he with
      | inl he => cases he
      | inr he => exact he
    have hf := bound_faithful [env] filter filter' hf hfilter
    have hg := bound_faithful [env] groupBy groupBy' hg hgroup
    have hh := bound_faithful [env] having having' hh hhaving
    have ho := boundKeys_faithful ho hchains horder
    refine ⟨.query hbound (bindItems_bound hitems hsel henv) hf.restores hg.restores hh.restores
      ho.restores ?_ ?_, _, _, _, _, _, _, _, rfl, houtputs⟩
    · simp only [List.mem_cons, List.not_mem_nil, or_false]
      rintro c (rfl | rfl | rfl)
      · exact hf.inSource henv
      · exact hg.inSource henv
      · exact hh.inSource henv
    · intro r hr
      obtain ⟨env', henv', hmem⟩ := ho.places r hr
      simp only [List.mem_cons, List.not_mem_nil, or_false] at henv'
      cases henv' with
      | inl h =>
        subst h
        exact .inr (houtputs _ hmem)
      | inr h =>
        subst h
        exact .inl (henv _ hmem)

/-- The query that `bindNames` makes is the given one with its names bound: every column of it is read
from a place of its own level. -/
theorem bindNames_bound {q c : Component} {names names' : NameSupply}
    (h : q.bindNames names = (.ok c, names')) (hq : q.Unnamed) : QueryBound q c := by
  obtain ⟨outputs, hgives⟩ := gives_of_bindNames h
  exact (bind_scoped.2 q names c outputs names' hgives hq).1

def parts : Table := ⟨"parts", [("id", .number)], 0⟩

def uses : Table := ⟨"uses", [("part", .number)], 1⟩

def partId : Component := .column parts "id" .number

def usedPart : Component := .column uses "part" .number

def partsByUses (outer inner used key : Component) : Component :=
  .query (.select [.named outer "a"])
    (.join (.tableSource (.table parts) (some "p"))
      (.querySource (.query (.select [.named inner "k"]) (.tableSource (.table uses) (some "u")) .absent
        .absent .absent .absent false) (some "q"))
      .inner (.comparison outer .eq used))
    .absent (.groupList [outer]) .absent (.sortList [.sortItem key .desc]) false

def partsByUsesBound : Component :=
  partsByUses (.boundColumn "p" "id" partId) (.boundColumn "u" "part" usedPart)
    (.boundColumn "q" "k" usedPart) (.aggregation .count (.boundColumn "q" "k" usedPart) false)

theorem bindNames_partsByUses :
    (partsByUses partId usedPart usedPart (.aggChain .count usedPart)).bindNames .empty =
      (.ok partsByUsesBound, .empty) := by
  have hcolumns : Fingerprint.ofColumn parts "id" ≠ Fingerprint.ofColumn uses "part" := by
    decide +kernel
  have hcount : Fingerprint.ofColumn parts "id" ≠
      Fingerprint.ofAggChain .count (.ofColumn uses "part") := by
    decide +kernel
  have hcount' : Fingerprint.ofColumn uses "part" ≠
      Fingerprint.ofAggChain .count (.ofColumn uses "part") := by
    decide +kernel
  have hgroups : (groupList [column parts "id" .number]).isAbsent = false := by
    simp [← Bool.not_eq_true, isAbsent_iff]
  have hparts : parts.columns = [("id", .number)] := rfl
  have huses : uses.columns = [("part", .number)] := rfl
  simp [partsByUses, partsByUsesBound, bindNames, bindQuery, bindSource, bindItems, bindItem, bound,
    boundKeys, boundAll, boundKeysAll, locate, tableEnvironment, Environment.places, Environment.bind,
    Environment.contains, Environment.empty, Environment.through, Environment.merge, sortListOf,
    groupListOf, sortedByKey, partId, usedPart, provided, hcolumns,
    hcolumns.symm, hcount, hcount', hparts, huses, hgroups]
  rfl

theorem queryBound_partsByUses :
    (partsByUses partId usedPart usedPart (.aggChain .count usedPart)).bindNames .empty =
        (.ok partsByUsesBound, .empty) ∧
      (partsByUses partId usedPart usedPart (.aggChain .count usedPart)).Unnamed ∧
      QueryBound (partsByUses partId usedPart usedPart (.aggChain .count usedPart))
        partsByUsesBound := by
  have h : (partsByUses partId usedPart usedPart (.aggChain .count usedPart)).Unnamed := by
    simp [partsByUses, partId, usedPart, Unnamed, AllUnnamed, SortsChains, IsChain, sortedByKey]
  exact ⟨bindNames_partsByUses, h, bindNames_bound bindNames_partsByUses h⟩

end Queries

end Component

end QuerySearch
