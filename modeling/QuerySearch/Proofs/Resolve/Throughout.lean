import QuerySearch.Proofs.Component.Throughout
import QuerySearch.Proofs.Meaning.Truth
import QuerySearch.Proofs.Resolve.Denoted
import QuerySearch.Proofs.Resolve.Supplied

/-! Resolution puts components together from the chains that are in scope.  A property that holds
throughout these, and that is carried over to whatever is put together, holds throughout the result. -/

namespace QuerySearch

open Component (Throughout Outgoing throughout_leaf throughout_sorted
  mem_sortedByKey)
open Sql (Expr Constant SelectItem)

/-- A property that the values of a statement take over from the chains in scope. -/
structure Carried (p : Component → Prop) : Prop extends Outgoing p where
  aggregation : ∀ {func arg isDistinct}, arg.kind.isReferencable = true → Throughout p arg →
    p (.aggregation func arg isDistinct)
  aggWindow : ∀ {func arg isDistinct partition orderBy},
    p (.aggWindow (.aggregation func arg isDistinct) partition orderBy)
  funcWindow : ∀ {func partition orderBy}, p (.funcWindow (.windowClause func) partition orderBy)
  partitionList : ∀ {items : List Component}, (∀ c ∈ items, c.kind.isReferencable = true) →
    p (.partitionListOf items)
  groupList : ∀ {items : List Component}, (∀ c ∈ items, c.kind.isReferencable = true) →
    p (.groupListOf items)
  sortItem : ∀ {chain dir}, chain.kind.isReferencable = true → p (.sortItem chain dir)
  sortList : ∀ {items : List Component},
    (∀ c ∈ items, ∃ chain dir, c = .sortItem chain dir ∧ chain.kind.isReferencable = true) →
    p (.sortList items)
  select : ∀ {items}, p (.select items)

section Values

variable {p : Component → Prop} {scope : Scope} {c item : Component} {items : List Component}

theorem throughout_listOrAbsent (hp : Carried p) {build : List Component → Component}
    (hbuild : Throughout p (build items)) : Throughout p (listOrAbsent build items) := by
  cases items with
  | nil => exact throughout_leaf (hp.leaf rfl) rfl
  | cons => exact hbuild

theorem Carried.groups (hp : Carried p)
    (h : ∀ c ∈ items, Throughout p c ∧ c.kind.isReferencable = true) :
    Throughout p (listOrAbsent .groupListOf items) :=
  throughout_listOrAbsent hp <| throughout_sorted
    (hp.groupList fun c hc => (h c hc).2) rfl fun c hc => (h c hc).1

theorem Carried.partitions (hp : Carried p)
    (h : ∀ c ∈ items, Throughout p c ∧ c.kind.isReferencable = true) :
    Throughout p (listOrAbsent .partitionListOf items) :=
  throughout_listOrAbsent hp <| throughout_sorted
    (hp.partitionList fun c hc => (h c hc).2) rfl fun c hc => (h c hc).1

def IsKeyOver (p : Component → Prop) (c : Component) : Prop :=
  ∃ chain dir, c = .sortItem chain dir ∧ Throughout p chain ∧ chain.kind.isReferencable = true

theorem Carried.keys (hp : Carried p) (h : ∀ c ∈ items, IsKeyOver p c) :
    Throughout p (listOrAbsent .sortListOf items) := by
  refine throughout_listOrAbsent hp (throughout_sorted (hp.sortList fun c hc => ?_) rfl fun c hc => ?_)
  · obtain ⟨chain, dir, rfl, _, hkind⟩ := h c (mem_sortedByKey.1 hc)
    exact ⟨chain, dir, rfl, hkind⟩
  · obtain ⟨chain, dir, rfl, hchain, hkind⟩ := h c hc
    exact .intro (hp.sortItem hkind) (by simpa [Component.children] using hchain)

def Scope.Over (p : Component → Prop) (scope : Scope) : Prop := ∀ v ∈ scope, Throughout p v.chain

theorem IsCall.throughout (hp : Carried p) {name : String} {isDistinct : Bool}
    {args : List (Except ResolveError Component)}
    {window : Option (Except ResolveError (Component × Component))} (h : IsCall name isDistinct args window c)
    (hargs : ∀ arg, args = [.ok arg] → Throughout p arg)
    (hwindow : ∀ partition orderBy, window = some (.ok (partition, orderBy)) →
      Throughout p partition ∧ Throughout p orderBy) : Throughout p c := by
  have haggregation {func arg} (hkind : arg.kind.isReferencable = true) (harg : Throughout p arg) :
      Throughout p (.aggregation func arg isDistinct) :=
    .intro (hp.aggregation hkind harg) (by simpa [Component.children] using harg)
  cases h with
  | @rank func partition orderBy =>
    obtain ⟨hpartition, horder⟩ := hwindow partition orderBy rfl
    refine .intro hp.funcWindow ?_
    simpa [Component.children] using ⟨throughout_leaf (hp.leaf rfl) rfl, hpartition, horder⟩
  | aggregation _ hkind => exact haggregation hkind (hargs _ rfl)
  | @window func arg partition orderBy _ hkind =>
    obtain ⟨hpartition, horder⟩ := hwindow partition orderBy rfl
    refine .intro hp.aggWindow ?_
    simpa [Component.children] using ⟨haggregation hkind (hargs _ rfl), hpartition, horder⟩

mutual

theorem value_throughout (hp : Carried p) (hscope : scope.Over p) : (e : Expr Constant) → {c : Component} →
    e.value scope = .ok c → Throughout p c
  | .column column, c, h => by
    obtain ⟨v, hv, rfl⟩ := lookup_ok h
    exact hscope v hv
  | .constant v, c, h => by
    have hleaf : c.children = [] := by
      cases v <;> cases h <;> rfl
    exact throughout_leaf (hp.leaf hleaf) hleaf
  | .call name isDistinct star args window, c, h => by
    refine (callValue_isCall h).2.throughout hp (fun arg harg => ?_) fun partition orderBy hw => ?_
    · exact valueEach_throughout hp hscope args _ (by rw [harg]; exact .head _) rfl
    · exact window_throughout hp hscope window hw
  | .compare .., _, h | .logic .., _, h | .not _, _, h | .isNull .., _, h | .subquery _, _, h => by cases h

theorem valueEach_throughout (hp : Carried p) (hscope : scope.Over p) : (es : List (Expr Constant)) →
    ∀ v ∈ Expr.valueEach scope es, ∀ {c : Component}, v = .ok c → Throughout p c
  | [], v, hv, _, _ => nomatch hv
  | e :: es, v, hv, c, h => by
    cases hv with
    | head => exact value_throughout hp hscope e h
    | tail _ hv => exact valueEach_throughout hp hscope es v hv h

theorem window_throughout (hp : Carried p) (hscope : scope.Over p) : (w : Option (Sql.Window Constant)) →
    {partition orderBy : Component} → Sql.Window.value? scope w = some (.ok (partition, orderBy)) →
      Throughout p partition ∧ Throughout p orderBy
  | none, _, _, h => nomatch h
  | some ⟨partitionBy, orderBy⟩, partition, order, h => by
    obtain ⟨groups, hgroups, h⟩ := ok_of_bind (Option.some.inj h)
    obtain ⟨keys, hkeys, h⟩ := ok_of_bind h
    cases h
    refine ⟨hp.partitions fun g hg => ?_, hp.keys (sortKeys_throughout hp hscope orderBy hkeys)⟩
    obtain ⟨v, hv, hrun⟩ := exists_of_forall₂ (forall₂_of_mapM hgroups) hg
    obtain ⟨chain, hchain, href⟩ := ok_of_bind hrun
    obtain ⟨rfl, hkind⟩ := referencable_ok href
    exact ⟨valueEach_throughout hp hscope partitionBy v hv hchain, hkind⟩

theorem sortKeys_throughout (hp : Carried p) (hscope : scope.Over p) : (ks : List (Sql.SortKey Constant)) →
    {keys : List Component} → Sql.SortKey.values scope ks = .ok keys → ∀ k ∈ keys, IsKeyOver p k
  | [], keys, h => by
    cases h
    simp
  | ⟨e, descending⟩ :: ks, keys, h => by
    rw [Sql.SortKey.values] at h
    obtain ⟨item, hitem, h⟩ := ok_of_bind h
    obtain ⟨chain, hchain, h⟩ := ok_of_bind h
    obtain ⟨chain', href, h⟩ := ok_of_bind h
    obtain ⟨rest, hrest, h⟩ := ok_of_bind h
    obtain ⟨rfl, hkind⟩ := referencable_ok href
    cases h
    have hkey := hp.provided item (value_throughout hp hscope e hitem) chain (outputChain_ok hchain)
    rw [List.forall_mem_cons]
    exact ⟨⟨chain, _, rfl, hkey, hkind⟩, sortKeys_throughout hp hscope ks hrest⟩

end

theorem items_throughout {select : List (SelectItem Constant)} (hp : Carried p) (hscope : scope.Over p)
    (h : List.Forall₂ (ItemOf scope) select items) : ∀ item ∈ items, Throughout p item := by
  intro item hitem
  obtain ⟨s, _, e, asName, _, hvalue⟩ := exists_of_forall₂ h hitem
  exact value_throughout hp hscope e hvalue

theorem reference_throughout {select : List (SelectItem Constant)} {key : Expr Constant} (hp : Carried p)
    (hscope : scope.Over p) (hitems : ∀ item ∈ items, Throughout p item)
    (h : reference scope select items key = .ok c) : Throughout p c ∧ c.kind.isReferencable = true := by
  obtain ⟨hkind, ⟨v, hv, rfl⟩ | ⟨i, item, _, hitem, hc⟩ | ⟨_, item, hitem, hc⟩⟩ := reference_ok h
  · exact ⟨hscope v hv, hkind⟩
  · exact ⟨hp.provided item (hitems item (List.mem_of_getElem? hitem)) c hc, hkind⟩
  · exact ⟨hp.provided item (value_throughout hp hscope key hitem) c hc, hkind⟩

theorem throughout_of_compares {operand : Component → Prop}
    (hcomparison : ∀ {l op r}, operand l → operand r → p (.comparison l op r))
    (hconnection : ∀ {l op r}, l.Compares operand → r.Compares operand → p (.connection l op r))
    (h : c.Compares fun d => operand d ∧ Throughout p d) : Throughout p c := by
  induction h with
  | comparison hl hr =>
    exact .intro (hcomparison hl.1 hr.1) (by simpa [Component.children] using ⟨hl.2, hr.2⟩)
  | connection hl hr ihl ihr =>
    refine .intro (hconnection (hl.mono fun _ => And.left) (hr.mono fun _ => And.left)) ?_
    simpa [Component.children] using ⟨ihl, ihr⟩

theorem predicate_operands {operand : Component → Prop} {e : Expr Constant} {negated : Bool} (hp : Carried p)
    (hscope : scope.Over p) (hoperand : ∀ o ∈ e.operands, ∀ d, o.value scope = .ok d → operand d)
    (h : e.predicate scope negated = .ok c) : c.Compares fun d => operand d ∧ Throughout p d :=
  (predicate_compares h).mono fun d ⟨o, ho, hd⟩ => ⟨hoperand o ho d hd, value_throughout hp hscope o hd⟩

theorem predicate_throughout {e : Expr Constant} {negated : Bool} (hp : Carried p)
    (hcomparison : ∀ {l op r}, p (.comparison l op r)) (hconnection : ∀ {l op r}, p (.connection l op r))
    (hscope : scope.Over p) (h : e.predicate scope negated = .ok c) : Throughout p c := by
  have hoperands : c.Compares fun d => True ∧ Throughout p d :=
    predicate_operands hp hscope (fun _ _ _ _ => trivial) h
  exact throughout_of_compares (fun _ _ => hcomparison) (fun _ _ => hconnection) hoperands

end Values

section Queries

open Sql (Select TableRef)

variable {p : Component → Prop} {schema : Schema} {scope outs : Scope} {c source : Component}
  {q : Select Constant}

theorem queryOver_throughout (hp : Carried p) (hscope : scope.Over p)
    (h : queryOver source scope q = .ok (c, outs)) : ∃ items filter groupBy having orderBy,
      List.Forall₂ (ItemOf scope) q.items items ∧ outputs scope q.items items = .ok outs ∧
      predicateOrAbsent scope q.filter = .ok filter ∧ predicateOrAbsent scope q.having = .ok having ∧
      c = .query (.select items) source filter groupBy having orderBy q.distinct ∧
      Throughout p (.select items) ∧ Throughout p groupBy ∧ Throughout p orderBy ∧ outs.Over p := by
  obtain ⟨items, hitems, h⟩ := ok_of_bind h
  obtain ⟨filter, hfilter, h⟩ := ok_of_bind h
  obtain ⟨groups, hgroups, h⟩ := ok_of_bind h
  obtain ⟨having, hhaving, h⟩ := ok_of_bind h
  obtain ⟨keys, hkeys, h⟩ := ok_of_bind h
  obtain ⟨outputs, houtputs, h⟩ := ok_of_bind h
  cases h
  have hvalues := items_throughout hp hscope (items_of hitems)
  refine ⟨items, filter, _, having, _, items_of hitems, houtputs, hfilter, hhaving, rfl,
    .intro hp.select hvalues, hp.groups fun g hg => ?_, hp.keys fun k hk => ?_, fun v hv => ?_⟩
  · obtain ⟨key, _, href⟩ := exists_of_forall₂ (forall₂_of_mapM hgroups) hg
    exact reference_throughout hp hscope hvalues href
  · obtain ⟨key, _, hrun⟩ := exists_of_forall₂ (forall₂_of_mapM hkeys) hk
    obtain ⟨chain, href, hrun⟩ := ok_of_bind hrun
    cases hrun
    exact ⟨chain, _, rfl, reference_throughout hp hscope hvalues href⟩
  · obtain ⟨item, hitem, hchain⟩ := outputs_ok houtputs v hv
    exact hp.provided item (hvalues item hitem) _ hchain

theorem Scope.Over.renamed (h : scope.Over p) (asName : Option String) :
    (asName.elim scope scope.renamed).Over p := by
  cases asName with
  | none => exact h
  | some a =>
    intro v hv
    obtain ⟨u, hu, rfl⟩ := List.mem_map.1 hv
    exact h u hu

def Sql.Select.rowConditions {α : Type} (q : Select α) : List (Expr α) :=
  q.sources.flatMap TableRef.conditions ++ q.filter.toList

/-- A property that queries and sources take over too, where the conditions on rows and those on groups
are of these sorts. -/
structure CarriedUp (p condition : Component → Prop) (onRows onGroups : Expr Constant → Prop) : Prop
    extends Carried p where
  rows : ∀ {scope e c}, scope.Traced → scope.Over p → onRows e → e.predicate scope false = .ok c →
    Throughout p c ∧ condition c
  groups : ∀ {scope e c}, scope.Traced → scope.Over p → onGroups e → e.predicate scope false = .ok c →
    Throughout p c
  absent : condition .absent
  tableSource : ∀ {t asName}, p (.tableSource (.table t) asName)
  querySource : ∀ {c asName}, p (.querySource c asName)
  join : ∀ {l r type on}, condition on → p (.join l r type on)
  query : ∀ {items source filter groupBy having orderBy isDistinct},
    (∀ item ∈ items, item.provided.length = 1) → condition filter →
      p (.query (.select items) source filter groupBy having orderBy isDistinct)

section Statements

variable {condition : Component → Prop} {onRows onGroups : Expr Constant → Prop} {l r on : Component}
  {kind : Sql.JoinKind}

theorem CarriedUp.filter (hp : CarriedUp p condition onRows onGroups) (htraced : scope.Traced)
    (hscope : scope.Over p) {e : Option (Expr Constant)} (he : ∀ e' ∈ e, onRows e')
    (h : predicateOrAbsent scope e = .ok c) : Throughout p c ∧ condition c := by
  cases e with
  | none =>
    cases h
    exact ⟨throughout_leaf (hp.leaf rfl) rfl, hp.absent⟩
  | some e => exact hp.rows htraced hscope (he e rfl) h

theorem CarriedUp.having (hp : CarriedUp p condition onRows onGroups) (htraced : scope.Traced)
    (hscope : scope.Over p) {e : Option (Expr Constant)} (he : ∀ e' ∈ e, onGroups e')
    (h : predicateOrAbsent scope e = .ok c) : Throughout p c := by
  cases e with
  | none =>
    cases h
    exact throughout_leaf (hp.leaf rfl) rfl
  | some e => exact hp.groups htraced hscope (he e rfl) h

theorem CarriedUp.joined (hp : CarriedUp p condition onRows onGroups) (hl : Throughout p l)
    (hr : Throughout p r) (hon : Throughout p on ∧ condition on) : Throughout p (joined l r on kind) := by
  have hjoin {l r : Component} {type : JoinType} (hl : Throughout p l) (hr : Throughout p r) :
      Throughout p (.join l r type on) :=
    .intro (hp.join hon.2) (by simpa [Component.children] using ⟨hl, hr, hon.1⟩)
  cases kind with
  | right => exact hjoin hr hl
  | _ => exact hjoin hl hr

def Sql.Select.Conditioned (onRows onGroups : Expr Constant → Prop) (q : Select Constant) : Prop :=
  (∀ e ∈ q.rowConditions, onRows e) ∧ ∀ e ∈ q.having, onGroups e

theorem resolve_throughout (hp : CarriedUp p condition onRows onGroups) :
    (∀ (q : Select Constant) next c scope next', Gives (q.resolve schema) next (c, scope) next' →
      (∀ level ∈ q.levels, level.Conditioned onRows onGroups) → Throughout p c ∧ scope.Over p) ∧
    ∀ (t : TableRef Constant) next c scope next', Gives (t.resolve schema) next (c, scope) next' →
      (∀ e ∈ t.conditions, onRows e) → (∀ level ∈ t.levels, level.Conditioned onRows onGroups) →
        Throughout p c ∧ scope.Over p := by
  apply resolve_induct
  case table =>
    intro name asName next c scope next' h _ _
    obtain ⟨_, table, _, _, _, rfl, rfl⟩ := gives_table h
    have hleaf {d : Component} (hd : d.children = []) : Throughout p d := throughout_leaf (hp.leaf hd) hd
    refine ⟨.intro hp.tableSource (by simpa [Component.children] using hleaf rfl), fun v hv => ?_⟩
    obtain ⟨column, _, rfl⟩ := List.mem_map.1 hv
    exact hleaf rfl
  case query =>
    intro q asName next c scope next' ih _ hlevels
    obtain ⟨hc, hscope⟩ := ih hlevels
    exact ⟨.intro hp.querySource (by simpa [Component.children] using hc), hscope.renamed asName⟩
  case join =>
    intro left right kind e next l leftScope mid r rightScope next' on hleft hright hon ihl ihr
      hconditions hlevels
    simp only [TableRef.conditions, TableRef.levels, List.forall_mem_append] at hconditions hlevels
    obtain ⟨hl, hleftScope⟩ := ihl hconditions.1.1 hlevels.1
    obtain ⟨hr, hrightScope⟩ := ihr hconditions.1.2 hlevels.2
    have hscope : (leftScope ++ rightScope).Over p := List.forall_mem_append.2 ⟨hleftScope, hrightScope⟩
    have htraced : (leftScope ++ rightScope).Traced :=
      List.forall_mem_append.2 ⟨resolve_traced.2 _ _ _ _ _ hleft, resolve_traced.2 _ _ _ _ _ hright⟩
    exact ⟨hp.joined hl hr (hp.rows htraced hscope (hconditions.2 e (by simp)) hon), hscope⟩
  case select =>
    intro isDistinct items t filter groupBy having orderBy next source sourceScope next' c scope ht hquery ih
      hlevels
    obtain ⟨hrows, hgroups⟩ := hlevels _ (.head _)
    simp only [Sql.Select.rowConditions, List.flatMap_singleton, List.forall_mem_append] at hrows
    obtain ⟨hsource, hscope⟩ := ih hrows.1 fun level hl => hlevels level (.tail _ (List.mem_append_left _ hl))
    have htraced := resolve_traced.2 _ _ _ _ _ ht
    obtain ⟨items, filter, groups, having, keys, hitems, _, hfilter, hhaving, rfl, hsel, hgroup, horder, hout⟩ :=
      queryOver_throughout hp.toCarried hscope hquery
    have hone : ∀ item ∈ items, item.provided.length = 1 := by
      intro item hitem
      obtain ⟨_, _, e, asName, _, hvalue⟩ := exists_of_forall₂ hitems hitem
      obtain ⟨chain, _, _, hprovided⟩ := value_denotes htraced e hvalue
      rw [hprovided, List.length_singleton]
    obtain ⟨hfilter, hcondition⟩ := hp.filter htraced hscope (by simpa using hrows.2) hfilter
    have hhaving := hp.having htraced hscope hgroups hhaving
    refine ⟨.intro (hp.query hone hcondition) ?_, hout⟩
    simpa [Component.children] using ⟨hsel, hsource, hfilter, hgroup, hhaving, horder⟩

theorem toQuery_throughout {statement : Select Constant} {query : Component} {names : List String}
    {nextId : UInt64} (hp : CarriedUp p condition onRows onGroups)
    (h : (statement.toQuery schema nextId).1 = .ok (query, names))
    (hlevels : ∀ level ∈ statement.levels, level.Conditioned onRows onGroups) : Throughout p query := by
  obtain ⟨scope, next', hresolve⟩ := gives_of_toQuery h
  exact ((resolve_throughout hp).1 statement nextId query scope next' hresolve hlevels).1

end Statements

end Queries

end QuerySearch
