import QuerySearch.Proofs.Component.Kinds
import QuerySearch.Proofs.Resolve.Bindable
import QuerySearch.Proofs.Resolve.Runs
import QuerySearch.Proofs.Resolve.Values
import QuerySearch.Search.State

/-! Queries that statements are resolved to have what they require, at every level. -/

namespace QuerySearch

namespace Sql

mutual

def Select.levels {α : Type} : Select α → List (Select α)
  | ⟨isDistinct, items, sources, filter, groupBy, having, orderBy⟩ =>
    ⟨isDistinct, items, sources, filter, groupBy, having, orderBy⟩ :: TableRef.levelsEach sources

def TableRef.levels {α : Type} : TableRef α → List (Select α)
  | .table .. => []
  | .query q _ => q.levels
  | .join l r _ _ => l.levels ++ r.levels

def TableRef.levelsEach {α : Type} : List (TableRef α) → List (Select α)
  | [] => []
  | t :: ts => t.levels ++ TableRef.levelsEach ts

end

mutual

def Select.reads {α : Type} : Select α → Nat
  | ⟨_, _, sources, _, _, _, _⟩ => TableRef.readsEach sources

def TableRef.reads {α : Type} : TableRef α → Nat
  | .table .. => 1
  | .query q _ => q.reads
  | .join l r _ _ => l.reads + r.reads

def TableRef.readsEach {α : Type} : List (TableRef α) → Nat
  | [] => 0
  | t :: ts => t.reads + TableRef.readsEach ts

end

def TableRef.conditions {α : Type} : TableRef α → List (Expr α)
  | .join l r _ on => l.conditions ++ r.conditions ++ on.toList
  | _ => []

def Select.exprs {α : Type} (q : Select α) : List (Expr α) :=
  q.sources.flatMap TableRef.conditions ++ q.filter.toList ++ q.groupBy ++ q.having.toList ++
    q.orderBy.map (·.expr)

def Select.NoOver {α : Type} (q : Select α) : Prop :=
  ∀ level ∈ q.levels, (∀ s ∈ level.items, s.NoOver) ∧ ∀ e ∈ level.exprs, e.NoOver

/-- No group key denotes an aggregate of its own level. -/
def Select.GroupsPlain (schema : Schema) (q : Select Constant) : Prop :=
  ∀ level ∈ q.levels, ∀ next source scope next',
    Gives (TableRef.resolveOnly schema level.sources) next (source, scope) next' →
      ∀ key ∈ level.groupBy, ¬ key.DenotesAggregate scope level.items

end Sql

open Component (Visible ValueOver PredicateOver NoCollision SuppliedBy)

def Component.seeds (c : Component) : List Component :=
  c.reach false ++ Search.tableColumns (c.reach false)

structure Resolved (ids : UInt64 → Prop) (c : Component) (scope : Scope) : Prop where
  visible : ∀ v ∈ scope, Visible c ids v.chain
  supplied : ∀ d ∈ c.reach false, d.IsSupplied
  rooted : ∀ k ∈ c.provided, k.kind.isReferencable = true →
    k.RootedIn ids ∧ ∀ d ∈ k.reach false, d ∈ c.seeds
  bindable : c.Bindable

section Seeds

variable {ids ids' : UInt64 → Prop} {c d k : Component} {cs items : List Component} {scope : Scope}

theorem mem_reachAll : d ∈ Component.reachAll cs ↔ ∃ c ∈ cs, d ∈ c.reach false := by
  induction cs with
  | nil => simp [Component.reachAll]
  | cons c cs ih => simp [Component.reachAll, ih]

theorem mem_providedByAll : d ∈ Component.providedByAll cs ↔ ∃ c ∈ cs, d ∈ c.provided := by
  induction cs with
  | nil => simp [Component.providedByAll]
  | cons c cs ih => simp [Component.providedByAll, ih]

theorem seeds_mono (h : ∀ e ∈ c.reach false, e ∈ d.reach false) : ∀ e ∈ c.seeds, e ∈ d.seeds := by
  intro e he
  simp only [Component.seeds, Search.tableColumns, List.mem_append, List.mem_flatMap,
    List.mem_filter] at he ⊢
  cases he with
  | inl he => exact .inl (h e he)
  | inr he =>
    obtain ⟨t, ⟨ht, hkind⟩, he⟩ := he
    exact .inr ⟨t, ⟨h t ht, hkind⟩, he⟩

theorem mem_seeds (h : d ∈ c.seeds) :
    d ∈ c.reach false ∨ ∃ t, .table t ∈ c.reach false ∧ d ∈ (Component.table t).provided := by
  cases List.mem_append.1 h with
  | inl h => exact .inl h
  | inr h =>
    obtain ⟨t, ht, hd⟩ := List.mem_flatMap.1 h
    obtain ⟨hmem, hkind⟩ := List.mem_filter.1 ht
    obtain ⟨t, rfl⟩ := (Component.kind_eq_table t).1 (beq_iff_eq.1 hkind)
    exact .inr ⟨t, hmem, hd⟩

theorem Resolved.mono (h : Resolved ids c scope) (hids : ∀ id, ids id → ids' id) :
    Resolved ids' c scope where
  visible v hv := (h.visible v hv).mono hids fun _ => id
  supplied := h.supplied
  rooted k hk hkind := ⟨(h.rooted k hk hkind).1.mono hids, (h.rooted k hk hkind).2⟩
  bindable := h.bindable

end Seeds

section Queries

open Sql (Constant)

variable {ids : UInt64 → Prop} {source c : Component} {scope outs : Scope} {items : List Component}

theorem predicateOrAbsent_ok {e : Option (Sql.Expr Constant)}
    (hscope : ∀ v ∈ scope, Visible source ids v.chain) (h : predicateOrAbsent scope e = .ok c)
    (hover : ∀ p ∈ e, p.NoOver) : SuppliedBy source c ∧ c.Sourceless ∧ c.IsTest := by
  cases e with
  | none =>
    cases h
    exact ⟨Component.suppliedBy_absent source, trivial, .absent⟩
  | some p =>
    have hc := predicate_over hscope h (hover p rfl)
    exact ⟨hc.suppliedBy, hc.sourceless, .predicate (hc.mono fun d hd => hd.traced)⟩

theorem groups_ok {groups : List Component}
    (h : ∀ g ∈ groups, Visible source ids g ∧ g.kind.isReferencable = true) :
    SuppliedBy source (listOrAbsent .groupListOf groups) ∧
      (listOrAbsent .groupListOf groups).Sourceless ∧
        (listOrAbsent .groupListOf groups).IsGrouping := by
  cases groups with
  | nil => exact ⟨Component.suppliedBy_absent source, trivial, .absent⟩
  | cons g groups =>
    have hsorted : ∀ c ∈ Component.sortedByKey (g :: groups), Visible source ids c ∧
        c.kind.isReferencable = true :=
      fun c hc => h c (Component.mem_sortedByKey.1 hc)
    refine ⟨Component.suppliedBy_groupListOf fun c hc => (h c hc).1.suppliedBy, ?_, .list fun c hc => ?_⟩
    · exact Component.allSourceless_iff.2 fun c hc => (hsorted c hc).1.sourceless
    · exact (hsorted c hc).1.traced.rooted (hsorted c hc).2

theorem sortList_ok {given : List Fingerprint} {keys : List Component}
    (h : ∀ k ∈ keys, ∃ chain dir, k = .sortItem chain dir ∧ chain.RootedIn ids ∧
      ((∃ func arg, chain = .aggChain func arg) ∨ chain.fingerprint ∈ given)) :
    (listOrAbsent .sortListOf keys).Sourceless ∧ (listOrAbsent .sortListOf keys).IsOrder given := by
  cases keys with
  | nil => exact ⟨trivial, .absent⟩
  | cons k keys =>
    have hkey : ∀ c ∈ Component.sortedByKey (k :: keys), c ∈ k :: keys :=
      fun c hc => Component.mem_sortedByKey.1 hc
    refine ⟨Component.allSourceless_iff.2 fun c hc => ?_, .list fun c hc => ?_⟩
    · obtain ⟨chain, dir, rfl, hchain, _⟩ := h c (hkey c hc)
      exact hchain.sourceless
    · obtain ⟨chain, dir, rfl, hchain, hgiven⟩ := h c (hkey c hc)
      exact hchain.isOrderKey hgiven

theorem outputs_ok {select : List (Sql.SelectItem Constant)} (h : outputs scope select items = .ok outs) :
    ∀ v ∈ outs, ∃ item ∈ items, v.chain ∈ item.provided := by
  intro v hv
  obtain ⟨⟨s, item⟩, hmem, hrun⟩ := exists_of_forall₂ (forall₂_of_mapM h) hv
  obtain ⟨chain, hchain, hrun⟩ := ok_of_bind hrun
  cases hrun
  exact ⟨item, (List.of_mem_zip hmem).2, outputChain_ok hchain⟩

theorem query_rooted {filter groupBy having orderBy k : Component} {isDistinct : Bool}
    (hitems : ∀ item ∈ items, ValueOver (Visible source ids) item)
    (hk : k ∈ (Component.query (.select items) source filter groupBy having orderBy isDistinct).provided) :
    (k.RootedIn ids ∨ k.IsConstant) ∧ ∀ d ∈ k.reach false,
      d ∈ (Component.query (.select items) source filter groupBy having orderBy isDistinct).reach false := by
  obtain ⟨item, hitem, hk⟩ := mem_providedByAll.1 hk
  obtain ⟨hrooted, hreach⟩ := (hitems item hitem).provided hk
  refine ⟨hrooted, fun d hd => ?_⟩
  have hmem : d ∈ Component.reachAll items := mem_reachAll.2 ⟨item, hitem, hreach d hd⟩
  simp only [Component.reach, List.mem_cons, List.mem_append, hmem]
  tauto

theorem query_supplied {filter groupBy having orderBy : Component} {isDistinct : Bool}
    (hsource : ∀ d ∈ source.reach false, d.IsSupplied)
    (hitems : ∀ item ∈ items, ValueOver (Visible source ids) item)
    (hfilter : SuppliedBy source filter ∧ filter.Sourceless)
    (hgroup : SuppliedBy source groupBy ∧ groupBy.Sourceless)
    (hhaving : SuppliedBy source having ∧ having.Sourceless) (horder : orderBy.Sourceless) :
    ∀ d ∈ (Component.query (.select items) source filter groupBy having orderBy isDistinct).reach false,
      d.IsSupplied := by
  have hsel : (Component.select items).Sourceless :=
    Component.allSourceless_iff.2 fun c hc => (hitems c hc).sourceless
  have hclauses : ∀ c ∈ [.select items, filter, groupBy, having], SuppliedBy source c := by
    simp only [List.forall_mem_cons]
    exact ⟨Component.suppliedBy_select fun c hc => (hitems c hc).suppliedBy, hfilter.1, hgroup.1,
      hhaving.1, by simp⟩
  rw [Component.reach]
  simp only [List.forall_mem_cons, List.forall_mem_append]
  refine ⟨hclauses, ⟨⟨⟨⟨⟨?_, hsel.reach _ false⟩, hsource⟩, hfilter.2.reach _ false⟩,
    hgroup.2.reach _ false⟩, hhaving.2.reach _ false⟩, horder.reach _ false⟩
  cases isDistinct <;> simp [Component.IsSupplied]

theorem queryOver_resolved {q : Sql.Select Constant} (h : queryOver source scope q = .ok (c, outs))
    (hsource : Resolved ids source scope) (hover : ∀ s ∈ q.items, s.NoOver)
    (hexprs : ∀ e ∈ q.exprs, e.NoOver)
    (hgroups : ∀ key ∈ q.groupBy, ¬ key.DenotesAggregate scope q.items) : Resolved ids c outs := by
  obtain ⟨items, hitems, h⟩ := ok_of_bind h
  obtain ⟨filter, hfilter, h⟩ := ok_of_bind h
  obtain ⟨groups, hgroup, h⟩ := ok_of_bind h
  obtain ⟨having, hhaving, h⟩ := ok_of_bind h
  obtain ⟨keys, hkeys, h⟩ := ok_of_bind h
  obtain ⟨outputs, houtputs, h⟩ := ok_of_bind h
  cases h
  simp only [Sql.Select.exprs, List.mem_append, Option.mem_toList, List.mem_map] at hexprs
  have hvalues := items_over hsource.visible hitems hover
  obtain ⟨hfilter, hfilter', hfiltertest⟩ := predicateOrAbsent_ok hsource.visible hfilter
    fun p hp => hexprs p (by simp_all)
  obtain ⟨hhaving, hhaving', hhavingtest⟩ := predicateOrAbsent_ok hsource.visible hhaving
    fun p hp => hexprs p (by simp_all)
  have hgroups : ∀ g ∈ groups, Visible source ids g ∧ g.kind.isReferencable = true := by
    intro g hg
    obtain ⟨key, hkey, href⟩ := exists_of_forall₂ (forall₂_of_mapM hgroup) hg
    exact ⟨reference_visible hsource.visible hitems href (hgroups key hkey), (reference_ok href).1⟩
  obtain ⟨hgroups, hgroups', hgrouping⟩ := groups_ok hgroups
  have hkeys : ∀ k ∈ keys, ∃ chain dir, k = .sortItem chain dir ∧ chain.RootedIn ids ∧
      ((∃ func arg, chain = .aggChain func arg) ∨ chain.fingerprint ∈ source.providedKeys) := by
    intro k hk
    obtain ⟨key, hkey, hrun⟩ := exists_of_forall₂ (forall₂_of_mapM hkeys) hk
    obtain ⟨chain, href, hrun⟩ := ok_of_bind hrun
    cases hrun
    exact ⟨chain, _, rfl,
      reference_rooted hsource.visible hvalues href (hexprs _ (.inr ⟨key, hkey, rfl⟩))⟩
  obtain ⟨hkeys, horder⟩ := sortList_ok hkeys
  have hsupplied : ∀ d ∈ (Component.query (.select items) source filter
      (listOrAbsent .groupListOf groups) having (listOrAbsent .sortListOf keys) q.distinct).reach false,
        d.IsSupplied :=
    query_supplied hsource.supplied hvalues ⟨hfilter, hfilter'⟩ ⟨hgroups, hgroups'⟩ ⟨hhaving, hhaving'⟩
      hkeys
  refine ⟨?_, hsupplied, ?_, ?_⟩
  · intro v hv
    obtain ⟨item, hitem, hchain⟩ := outputs_ok houtputs v hv
    refine ⟨?_, ((hvalues item hitem).provided hchain).1⟩
    rw [Component.providedKeys_eq]
    exact List.mem_map_of_mem (mem_providedByAll.2 ⟨item, hitem, hchain⟩)
  · intro k hk hkind
    obtain ⟨hrooted, hreach⟩ := query_rooted hvalues hk
    refine ⟨hrooted.resolve_right fun hk => hk.not_referencable hkind, fun d hd => ?_⟩
    exact List.mem_append_left _ (hreach d hd)
  · refine ⟨hsource.bindable, fun item hitem => ?_, hfiltertest, hgrouping, hhavingtest, horder,
      hsupplied _ (.head _)⟩
    exact .value ((hvalues item hitem).mono fun d hd => hd.traced)

theorem queryOver_reach {q : Sql.Select Constant} (h : queryOver source scope q = .ok (c, outs)) :
    ∀ d ∈ source.reach false, d ∈ c.reach false := by
  obtain ⟨items, hitems, h⟩ := ok_of_bind h
  obtain ⟨filter, hfilter, h⟩ := ok_of_bind h
  obtain ⟨groups, hgroup, h⟩ := ok_of_bind h
  obtain ⟨having, hhaving, h⟩ := ok_of_bind h
  obtain ⟨keys, hkeys, h⟩ := ok_of_bind h
  obtain ⟨outputs, houtputs, h⟩ := ok_of_bind h
  cases h
  intro d hd
  simp only [Component.reach, List.mem_cons, List.mem_append, hd]
  tauto

end Queries

section Joins

variable {ids ids' : UInt64 → Prop} {l r on c : Component} {type : JoinType}
  {scope leftScope rightScope : Scope}
  {cs : List Component}

theorem mem_reach_left : ∀ d ∈ l.reach false, d ∈ (Component.join l r type on).reach false := by
  intro d hd
  simp only [Component.reach, List.mem_cons, List.mem_append, hd]
  tauto

theorem mem_reach_right : ∀ d ∈ r.reach false, d ∈ (Component.join l r type on).reach false := by
  intro d hd
  simp only [Component.reach, List.mem_cons, List.mem_append, hd]
  tauto

theorem disjoint_provided (hcs : NoCollision cs) (hl : Resolved ids l leftScope)
    (hr : Resolved ids' r rightScope) (hseedsl : ∀ d ∈ l.seeds, d ∈ cs) (hseedsr : ∀ d ∈ r.seeds, d ∈ cs)
    (hids : ∀ id, ids id → ¬ ids' id) :
    ∀ k ∈ l.providedKeys, k.kind.isReferencable = true → k ∉ r.providedKeys := by
  intro k hk hkind hk'
  rw [Component.providedKeys_eq, List.mem_map] at hk hk'
  obtain ⟨c, hc, rfl⟩ := hk
  obtain ⟨d, hd, heq⟩ := hk'
  have hkind' : d.kind.isReferencable = true := by
    rw [Component.kind, heq]
    exact hkind
  obtain ⟨hrooted, hreach⟩ := hl.rooted c hc hkind
  obtain ⟨hrooted', hreach'⟩ := hr.rooted d hd hkind'
  obtain ⟨id, hid, hid'⟩ := hrooted.common hcs hrooted' (fun e he => hseedsl e (hreach e he))
    (fun e he => hseedsr e (hreach' e he)) heq.symm
  exact hids id hid hid'

theorem join_resolved {e : Sql.Expr Sql.Constant} (hcs : NoCollision cs) (hl : Resolved ids l leftScope)
    (hr : Resolved ids' r rightScope) (hseeds : ∀ d ∈ (Component.join l r type on).seeds, d ∈ cs)
    (hids : ∀ id, ids id → ¬ ids' id) (hscope : ∀ v ∈ scope, v ∈ leftScope ∨ v ∈ rightScope)
    (hon : e.predicate scope false = .ok on) (hover : e.NoOver) :
    Resolved (fun id => ids id ∨ ids' id) (.join l r type on) scope := by
  have hvisible : ∀ v ∈ scope, Visible (.join l r type on) (fun id => ids id ∨ ids' id) v.chain := by
    intro v hv
    cases hscope v hv with
    | inl hv =>
      refine (hl.visible v hv).mono (fun _ => .inl) fun k hk => ?_
      simp [Component.providedKeys, hk]
    | inr hv =>
      refine (hr.visible v hv).mono (fun _ => .inr) fun k hk => ?_
      simp [Component.providedKeys, hk]
  have hon := predicate_over hvisible hon hover
  have hdisjoint := disjoint_provided hcs hl hr (fun d hd => hseeds d (seeds_mono mem_reach_left d hd))
    (fun d hd => hseeds d (seeds_mono mem_reach_right d hd)) hids
  refine ⟨hvisible, ?_, ?_, ?_⟩
  · rw [Component.reach]
    simp only [List.forall_mem_cons, List.forall_mem_append]
    exact ⟨⟨hon.suppliedBy, hdisjoint⟩, trivial, ⟨hl.supplied, hr.supplied⟩, hon.sourceless.reach _ false⟩
  · intro k hk hkind
    cases List.mem_append.1 hk with
    | inl hk =>
      obtain ⟨hrooted, hreach⟩ := hl.rooted k hk hkind
      exact ⟨hrooted.mono fun _ => .inl, fun d hd => seeds_mono mem_reach_left d (hreach d hd)⟩
    | inr hk =>
      obtain ⟨hrooted, hreach⟩ := hr.rooted k hk hkind
      exact ⟨hrooted.mono fun _ => .inr, fun d hd => seeds_mono mem_reach_right d (hreach d hd)⟩
  · exact ⟨hl.bindable, hr.bindable, hdisjoint, hon.mono fun d hd => hd.traced, hon.suppliedBy⟩

end Joins

section Runs

open Sql (Select TableRef Constant)

variable {schema : Schema} {cs : List Component} {c : Component} {scope : Scope} {next next' : UInt64}

def Between (n m : Nat) (id : UInt64) : Prop := n ≤ id.toNat ∧ id.toNat < m

theorem mem_seeds_table {table : Table} {asName : Option String} {column : String × DataType}
    (h : column ∈ table.columns) :
    .column table column.1 column.2 ∈ (Component.tableSource (.table table) asName).seeds := by
  refine List.mem_append_right _ (List.mem_flatMap.2 ⟨.table table, ?_, List.mem_map_of_mem h⟩)
  rw [List.mem_filter, Component.kind, Component.fingerprint_eq]
  exact ⟨.tail _ (.head _), rfl⟩

theorem ownColumns {table : Table} {asName : Option String} (hcs : NoCollision cs)
    (hseeds : ∀ d ∈ (Component.tableSource (.table table) asName).seeds, d ∈ cs) :
    Component.HasOwnColumns table := by
  intro c hc d hd heq
  rw [← Component.fingerprint_column table c.1 c.2, ← Component.fingerprint_column table d.1 d.2] at heq
  have hfields := hcs _ (hseeds _ (mem_seeds_table hc)) _ (hseeds _ (mem_seeds_table hd)) heq
  simp only [Component.chainFields, List.cons.injEq, Fingerprint.Field.text.injEq] at hfields
  exact hfields.2.2.1

theorem tableSource_resolved {table : Table} (asName : Option String) (source : String)
    (hcolumns : Component.HasOwnColumns table) :
    Resolved (· = table.id) (.tableSource (.table table) asName)
      (table.columns.map fun c => ⟨source, c.1, .column table c.1 c.2⟩) := by
  refine ⟨?_, ?_, ?_, hcolumns⟩
  · intro v hv
    obtain ⟨column, hcolumn, rfl⟩ := List.mem_map.1 hv
    refine ⟨?_, .inl rfl⟩
    rw [Component.providedKeys_eq]
    exact List.mem_map_of_mem (List.mem_map_of_mem hcolumn)
  · simp [Component.reach, Component.IsSupplied]
  · intro k hk _
    obtain ⟨column, hcolumn, rfl⟩ := List.mem_map.1 hk
    refine ⟨rfl, fun d hd => ?_⟩
    cases List.mem_singleton.1 hd
    exact mem_seeds_table hcolumn

def PlainLevel (schema : Schema) (level : Select Constant) : Prop :=
  (∀ s ∈ level.items, s.NoOver) ∧ (∀ e ∈ level.exprs, e.NoOver) ∧
    ∀ next source scope next',
      Gives (TableRef.resolveOnly schema level.sources) next (source, scope) next' →
        ∀ key ∈ level.groupBy, ¬ key.DenotesAggregate scope level.items

def ResolvesTo (reads : Nat) (next : UInt64) (c : Component) (scope : Scope) (next' : UInt64) : Prop :=
  next'.toNat = next.toNat + reads ∧ Resolved (Between next.toNat next'.toNat) c scope

theorem table_resolvesTo {name : String} {asName : Option String}
    (h : Gives ((TableRef.table name asName).resolve schema) next (c, scope) next')
    (hcs : NoCollision cs) (hreads : next.toNat + 1 < UInt64.size) (hseeds : ∀ d ∈ c.seeds, d ∈ cs) :
    ResolvesTo 1 next c scope next' := by
  obtain ⟨t, table, _, rfl, rfl, rfl, rfl⟩ := gives_table h
  have hnext : (next + 1).toNat = next.toNat + 1 := by
    rw [UInt64.toNat_add]
    exact Nat.mod_eq_of_lt hreads
  refine ⟨hnext, (tableSource_resolved asName _ (ownColumns hcs hseeds)).mono ?_⟩
  rintro id rfl
  exact ⟨Nat.le_refl _, by omega⟩

theorem querySource_resolved {ids : UInt64 → Prop} {inner : Component} {innerScope : Scope}
    {asName : Option String} (h : Resolved ids inner innerScope) :
    Resolved ids (.querySource inner asName) (asName.elim innerScope innerScope.renamed) := by
  have hreach : ∀ d ∈ inner.reach false, d ∈ (Component.querySource inner asName).reach false :=
    fun d hd => .tail _ hd
  refine ⟨?_, ?_, ?_, h.bindable⟩
  · have hscope : ∀ w ∈ innerScope, Visible (.querySource inner asName) ids w.chain := by
      refine fun w hw => (h.visible w hw).mono (fun _ => id) fun k hk => ?_
      rw [Component.providedKeys]
      exact hk
    cases asName with
    | none => exact hscope
    | some a =>
      intro v hv
      obtain ⟨w, hw, rfl⟩ := List.mem_map.1 hv
      exact hscope w hw
  · rw [Component.reach]
    simp only [List.forall_mem_cons]
    exact ⟨trivial, h.supplied⟩
  · intro k hk hkind
    obtain ⟨hrooted, hseeds⟩ := h.rooted k hk hkind
    exact ⟨hrooted, fun d hd => seeds_mono hreach d (hseeds d hd)⟩

theorem joined_resolved {n m k : Nat} {l r on : Component} {kind : Sql.JoinKind}
    {leftScope rightScope : Scope} {e : Sql.Expr Constant} (hcs : NoCollision cs) (hnm : n ≤ m)
    (hmk : m ≤ k) (hl : Resolved (Between n m) l leftScope) (hr : Resolved (Between m k) r rightScope)
    (hseeds : ∀ d ∈ (joined l r on kind).seeds, d ∈ cs)
    (hon : e.predicate (leftScope ++ rightScope) false = .ok on) (hover : e.NoOver) :
    Resolved (Between n k) (joined l r on kind) (leftScope ++ rightScope) := by
  have hids : ∀ id, Between n m id → ¬ Between m k id := by
    intro id h h'
    exact absurd h.2 (Nat.not_lt.2 h'.1)
  have hleft : ∀ id, Between n m id → Between n k id := fun id h => ⟨h.1, Nat.lt_of_lt_of_le h.2 hmk⟩
  have hright : ∀ id, Between m k id → Between n k id := fun id h => ⟨Nat.le_trans hnm h.1, h.2⟩
  have hscope : ∀ v ∈ leftScope ++ rightScope, v ∈ leftScope ∨ v ∈ rightScope :=
    fun v => List.mem_append.1
  cases kind with
  | right =>
    have hswap : ∀ v ∈ leftScope ++ rightScope, v ∈ rightScope ∨ v ∈ leftScope :=
      fun v hv => (hscope v hv).symm
    have h := join_resolved hcs hr hl hseeds (fun id h h' => hids id h' h) hswap hon hover
    exact h.mono fun id h => h.elim (hright id) (hleft id)
  | _ =>
    have h := join_resolved hcs hl hr hseeds hids hscope hon hover
    exact h.mono fun id h => h.elim (hleft id) (hright id)

theorem joined_seeds {l r on : Component} {kind : Sql.JoinKind} :
    (∀ d ∈ l.seeds, d ∈ (joined l r on kind).seeds) ∧ ∀ d ∈ r.seeds, d ∈ (joined l r on kind).seeds := by
  cases kind with
  | right => exact ⟨seeds_mono mem_reach_right, seeds_mono mem_reach_left⟩
  | _ => exact ⟨seeds_mono mem_reach_left, seeds_mono mem_reach_right⟩

theorem resolve_resolvesTo (schema : Schema) (hcs : NoCollision cs) :
    (∀ (q : Select Constant) next c scope next', Gives (q.resolve schema) next (c, scope) next' →
      (∀ level ∈ q.levels, PlainLevel schema level) → next.toNat + q.reads < UInt64.size →
      (∀ d ∈ c.seeds, d ∈ cs) → ResolvesTo q.reads next c scope next') ∧
    ∀ (t : TableRef Constant) next c scope next', Gives (t.resolve schema) next (c, scope) next' →
      (∀ level ∈ t.levels, PlainLevel schema level) → (∀ e ∈ t.conditions, e.NoOver) →
      next.toNat + t.reads < UInt64.size → (∀ d ∈ c.seeds, d ∈ cs) →
      ResolvesTo t.reads next c scope next' := by
  apply resolve_induct
  case table =>
    intro name asName next c scope next' h _ _ hreads hseeds
    exact table_resolvesTo h hcs hreads hseeds
  case query =>
    intro q asName next c scope next' ih hlevels _ hreads hseeds
    have hinner : ∀ d ∈ c.seeds, d ∈ (Component.querySource c asName).seeds :=
      seeds_mono fun d hd => .tail _ hd
    have hresolved := ih hlevels hreads fun d hd => hseeds d (hinner d hd)
    exact ⟨hresolved.1, querySource_resolved hresolved.2⟩
  case join =>
    intro left right kind e next l leftScope mid r rightScope next' on _ _ hon ihl ihr hlevels hconditions
      hreads hseeds
    simp only [TableRef.levels, List.forall_mem_append] at hlevels
    simp only [TableRef.conditions, List.forall_mem_append] at hconditions
    rw [TableRef.reads] at hreads ⊢
    have hl := ihl hlevels.1 hconditions.1.1 (by omega) fun d hd => hseeds d (joined_seeds.1 d hd)
    have hmid := hl.1
    have hr := ihr hlevels.2 hconditions.1.2 (by omega) fun d hd => hseeds d (joined_seeds.2 d hd)
    have hnext := hr.1
    refine ⟨by omega, joined_resolved hcs (by omega) (by omega) hl.2 hr.2 hseeds hon ?_⟩
    exact hconditions.2 e (by simp)
  case select =>
    intro isDistinct items t filter groupBy having orderBy next source sourceScope next' c scope hsource
      hquery ih hlevels hreads hseeds
    obtain ⟨hitems, hexprs, hgroups⟩ := hlevels _ (.head _)
    have hconditions : ∀ e ∈ t.conditions, e.NoOver := by
      intro e he
      apply hexprs
      simp [Select.exprs, he]
    have hresolved := ih (fun level hl => hlevels level (.tail _ (List.mem_append_left _ hl))) hconditions
      hreads fun d hd => hseeds d (seeds_mono (queryOver_reach hquery) d hd)
    exact ⟨hresolved.1, queryOver_resolved hquery hresolved.2 hitems hexprs
      (hgroups next source sourceScope next' hsource)⟩

theorem toQuery_resolved {statement : Select Constant} {query : Component} {names : List String}
    {nextId : UInt64} (h : (statement.toQuery schema nextId).1 = .ok (query, names))
    (hover : statement.NoOver) (hgroups : statement.GroupsPlain schema)
    (hreads : nextId.toNat + statement.reads < UInt64.size) (hcs : NoCollision query.seeds) :
    ∃ ids scope, Resolved ids query scope := by
  obtain ⟨scope, next', hresolve⟩ := gives_of_toQuery h
  have hlevels : ∀ level ∈ statement.levels, PlainLevel schema level :=
    fun level hl => ⟨(hover level hl).1, (hover level hl).2, hgroups level hl⟩
  have hresolved := (resolve_resolvesTo schema hcs).1 statement nextId query scope next' hresolve
    hlevels hreads fun d hd => hd
  exact ⟨_, scope, hresolved.2⟩

/-- The query of a statement, and every query and join inside it, has what it requires. -/
theorem toQuery_supplied {statement : Select Constant} {query : Component} {names : List String}
    {nextId : UInt64} (h : (statement.toQuery schema nextId).1 = .ok (query, names))
    (hover : statement.NoOver) (hgroups : statement.GroupsPlain schema)
    (hreads : nextId.toNat + statement.reads < UInt64.size) (hcs : NoCollision query.seeds) :
    ∀ d ∈ query.reach false, d.IsSupplied := by
  obtain ⟨ids, scope, hresolved⟩ := toQuery_resolved h hover hgroups hreads hcs
  exact hresolved.supplied

end Runs

end QuerySearch
