import QuerySearch.Proofs.Component.Names
import QuerySearch.Proofs.Component.Throughout
import QuerySearch.Proofs.Resolve.Throughout

/-! The clauses of the queries that statements are resolved to have no sources and no bound columns
inside, so that all sources are where they are read from. -/

namespace QuerySearch

namespace Component

def Layered : Component → Prop
  | .tableSource (.table _) _ => True
  | .querySource q _ => q.Layered
  | .join l r _ on => l.Layered ∧ r.Layered ∧ on.Plain
  | .query sel source filter groupBy having orderBy _ => source.Layered ∧ sel.Plain ∧
    filter.Plain ∧ groupBy.Plain ∧ having.Plain ∧ orderBy.Plain
  | _ => False

theorem Layered.child {c d : Component} (h : c.Layered) (hd : d ∈ c.children) :
    d.Plain ∨ d.Layered ∧ d.aliased.Sublist c.aliased := by
  cases c with
  | tableSource t asName =>
    cases t with
    | table t =>
      cases List.mem_singleton.1 hd
      exact .inl (throughout_leaf ⟨id, id⟩ rfl)
    | _ => exact h.elim
  | querySource q asName =>
    cases List.mem_singleton.1 hd
    exact .inr ⟨h, List.sublist_append_right _ _⟩
  | join l r type on =>
    simp only [children, List.mem_cons, List.not_mem_nil, or_false] at hd
    obtain rfl | rfl | rfl := hd
    · exact .inr ⟨h.1, List.sublist_append_left _ _⟩
    · exact .inr ⟨h.2.1, List.sublist_append_right _ _⟩
    · exact .inl h.2.2
  | query sel source filter groupBy having orderBy isDistinct =>
    obtain ⟨hsource, hsel, hfilter, hgroup, hhaving, horder⟩ := h
    simp only [children, List.mem_cons, List.not_mem_nil, or_false] at hd
    obtain rfl | rfl | rfl | rfl | rfl | rfl := hd
    · exact .inl hsel
    · exact .inr ⟨hsource, .refl _⟩
    · exact .inl hfilter
    · exact .inl hgroup
    · exact .inl hhaving
    · exact .inl horder
  | _ => exact h.elim

theorem Layered.chainForm {c : Component} (h : c.Layered) : c.chainForm = c := by
  cases c with
  | tableSource | querySource | join | query => rfl
  | _ => exact h.elim

theorem inherited_layered (sources : List Component) :
    Inherited fun d => d.Plain ∨ d.Layered ∧ d.aliased.Sublist sources where
  word h := .inl (inherited_plain.word h)
  child h hd := by
    obtain h | ⟨hlayered, hsub⟩ := h
    · exact .inl (h.child hd)
    · exact (hlayered.child hd).imp_right fun hd => ⟨hd.1, hd.2.trans hsub⟩
  chainForm h := by
    obtain h | h := h
    · exact .inl (inherited_plain.chainForm h)
    · rw [h.1.chainForm]
      exact .inr h
  repeating h := h.imp inherited_plain.repeating fun h => h.1.elim

theorem Layered.reach (c : Component) (h : c.Layered) (d : Component) (hd : d ∈ c.reach false) :
    d.Plain ∨ d.Layered ∧ d.aliased.Sublist c.aliased :=
  (inherited_layered c.aliased).reach c (.inr ⟨h, .refl _⟩) false d hd

theorem Layered.unread : (c : Component) → c.Layered → c.Unread
  | .tableSource (.table t) _, _ => by
    have ht : (table t).Unread := throughout_leaf id rfl
    exact .intro id (by simpa [children] using ht)
  | .querySource q _, h => .intro id (by simpa [children] using Layered.unread q h)
  | .join l r _ on, h => by
    refine .intro id ?_
    simp only [children, List.forall_mem_cons, List.not_mem_nil, false_imp_iff, implies_true, and_true]
    exact ⟨Layered.unread l h.1, Layered.unread r h.2.1, h.2.2.unread⟩
  | .query sel source filter groupBy having orderBy _, h => by
    obtain ⟨hsource, hsel, hfilter, hgroup, hhaving, horder⟩ := h
    refine .intro id ?_
    simp only [children, List.forall_mem_cons, List.not_mem_nil, false_imp_iff, implies_true, and_true]
    exact ⟨hsel.unread, Layered.unread source hsource, hfilter.unread, hgroup.unread, hhaving.unread,
      horder.unread⟩

end Component

open Component (Throughout plain_column)
open Sql (Expr Constant SelectItem)

section Values

variable {scope : Scope} {c : Component}

def Scope.Plain (scope : Scope) : Prop := ∀ v ∈ scope, v.chain.Plain

theorem carried_plain : Carried fun c => ¬ c.IsBound ∧ ¬ c.IsRelation where
  leaf {c} hleaf := by
    cases c with
    | tableSource | querySource | join | query | boundColumn => cases hleaf
    | _ => exact ⟨id, id⟩
  rank := ⟨id, id⟩
  aggregate _ _ _ := ⟨id, id⟩
  aggregation _ _ := ⟨id, id⟩
  aggWindow := ⟨id, id⟩
  funcWindow := ⟨id, id⟩
  partitionList _ := ⟨id, id⟩
  groupList _ := ⟨id, id⟩
  sortItem _ := ⟨id, id⟩
  sortList _ := ⟨id, id⟩
  select := ⟨id, id⟩

theorem predicate_plain (hscope : scope.Plain) {e : Expr Constant} {negated : Bool}
    (h : e.predicate scope negated = .ok c) : c.Plain :=
  predicate_throughout carried_plain ⟨id, id⟩ ⟨id, id⟩ hscope h

theorem predicateOrAbsent_plain {e : Option (Expr Constant)} (hscope : scope.Plain)
    (h : predicateOrAbsent scope e = .ok c) : c.Plain := by
  cases e with
  | none =>
    cases h
    exact Component.plain_absent
  | some p => exact predicate_plain hscope h

end Values

namespace Sql

mutual

def Select.aliases {α : Type} : Select α → List String
  | ⟨_, _, sources, _, _, _, _⟩ => TableRef.aliasesEach sources

def TableRef.aliases {α : Type} : TableRef α → List String
  | .table _ asName => asName.toList
  | .query q asName => asName.toList ++ q.aliases
  | .join l r _ _ => l.aliases ++ r.aliases

def TableRef.aliasesEach {α : Type} : List (TableRef α) → List String
  | [] => []
  | t :: ts => t.aliases ++ TableRef.aliasesEach ts

end

end Sql

section Runs

open Sql (Select TableRef)
open Component (asName?)

variable {schema : Schema} {c source : Component} {scope outs : Scope} {next next' : UInt64}

structure Laid (aliases : List String) (c : Component) (scope : Scope) : Prop where
  layered : c.Layered
  scope : scope.Plain
  names : (c.aliased.filterMap asName?).Perm aliases
  provides : ∀ d ∈ c.aliased, d.providedKeys ≠ []
  own : c.providedKeys ≠ []

theorem items_provide {select : List (SelectItem Constant)} {items : List Component}
    (hvalues : List.Forall₂ (ItemOf scope) select items)
    (h : outputs scope select items = .ok outs) (hne : select ≠ []) :
    (Component.select items).providedKeys ≠ [] := by
  cases hvalues with
  | nil => exact absurd rfl hne
  | @cons _ item _ items =>
    rw [outputs, List.zip_cons_cons, List.mapM_cons] at h
    obtain ⟨v, hv, _⟩ := ok_of_bind h
    obtain ⟨chain, hchain, _⟩ := ok_of_bind hv
    have hmem : chain.fingerprint ∈ (Component.select (item :: items)).providedKeys := by
      rw [Component.providedKeys_eq]
      exact List.mem_map_of_mem (mem_providedByAll.2 ⟨item, .head _, outputChain_ok hchain⟩)
    exact List.ne_nil_of_mem hmem

theorem queryOver_laid {aliases : List String} {q : Select Constant}
    (h : queryOver source scope q = .ok (c, outs)) (hitems : q.items ≠ [])
    (hsource : Laid aliases source scope) : Laid aliases c outs := by
  have hscope := hsource.scope
  obtain ⟨items, filter, groups, having, keys, hvalues, houtputs, hfilter, hhaving, rfl, hsel, hgroup,
    horder, hout⟩ := queryOver_throughout carried_plain hscope h
  refine ⟨⟨hsource.layered, hsel, predicateOrAbsent_plain hscope hfilter, hgroup,
    predicateOrAbsent_plain hscope hhaving, horder⟩, hout, hsource.names, hsource.provides, ?_⟩
  simpa only [Component.providedKeys] using items_provide hvalues houtputs hitems

theorem table_laid {table : Table} (asName : Option String) (source : String) (h : table.columns ≠ []) :
    Laid asName.toList (.tableSource (.table table) asName)
      (table.columns.map fun c => ⟨source, c.1, .column table c.1 c.2⟩) := by
  have hown : (Component.tableSource (.table table) asName).providedKeys ≠ [] := by
    simpa [Component.providedKeys] using h
  refine ⟨trivial, ?_, ?_, ?_, hown⟩
  · intro v hv
    obtain ⟨column, _, rfl⟩ := List.mem_map.1 hv
    exact plain_column
  · cases asName <;> simp [Component.aliased, asName?]
  · intro d hd
    cases List.mem_singleton.1 (List.mem_of_mem_filter hd)
    exact hown

theorem querySource_laid {aliases : List String} (asName : Option String) (h : Laid aliases c scope) :
    Laid (asName.toList ++ aliases) (.querySource c asName) (asName.elim scope scope.renamed) := by
  have hown : (Component.querySource c asName).providedKeys ≠ [] := by
    rw [Component.providedKeys]
    exact h.own
  refine ⟨h.layered, ?_, ?_, ?_, hown⟩
  · intro v hv
    cases asName with
    | none => exact h.scope v hv
    | some a =>
      obtain ⟨u, hu, rfl⟩ := List.mem_map.1 hv
      exact h.scope u hu
  · rw [Component.aliased, List.filterMap_append]
    refine List.Perm.append ?_ h.names
    cases asName <;> simp [asName?]
  · intro d hd
    cases List.mem_append.1 hd with
    | inl hd =>
      cases List.mem_singleton.1 (List.mem_of_mem_filter hd)
      exact hown
    | inr hd => exact h.provides d hd

theorem joined_laid {l r on : Component} {kind : Sql.JoinKind} {aliases aliases' : List String}
    {leftScope rightScope : Scope} {e : Expr Constant} (hl : Laid aliases l leftScope)
    (hr : Laid aliases' r rightScope) (hon : e.predicate (leftScope ++ rightScope) false = .ok on) :
    Laid (aliases ++ aliases') (joined l r on kind) (leftScope ++ rightScope) := by
  have hscope : (leftScope ++ rightScope).Plain := by
    intro v hv
    exact (List.mem_append.1 hv).elim (hl.scope v) (hr.scope v)
  have hon := predicate_plain hscope hon
  have hleft (type : JoinType) : Laid (aliases ++ aliases') (.join l r type on) (leftScope ++ rightScope) := by
    refine ⟨⟨hl.layered, hr.layered, hon⟩, hscope, ?_, ?_, ?_⟩
    · rw [Component.aliased, List.filterMap_append]
      exact hl.names.append hr.names
    · intro d hd
      exact (List.mem_append.1 hd).elim (hl.provides d) (hr.provides d)
    · rw [Component.providedKeys]
      exact List.append_ne_nil_of_left_ne_nil hl.own _
  have hright (type : JoinType) : Laid (aliases ++ aliases') (.join r l type on) (leftScope ++ rightScope) := by
    refine ⟨⟨hr.layered, hl.layered, hon⟩, hscope, ?_, ?_, ?_⟩
    · rw [Component.aliased, List.filterMap_append]
      exact (hr.names.append hl.names).trans List.perm_append_comm
    · intro d hd
      exact (List.mem_append.1 hd).elim (hr.provides d) (hl.provides d)
    · rw [Component.providedKeys]
      exact List.append_ne_nil_of_left_ne_nil hr.own _
  cases kind with
  | right => exact hright _
  | _ => exact hleft _

theorem resolve_laid (schema : Schema) (hcolumns : ∀ name t, schema.table? name = some t → t.columns ≠ []) :
    (∀ (q : Select Constant) next c scope next', Gives (q.resolve schema) next (c, scope) next' →
      (∀ level ∈ q.levels, level.items ≠ []) → Laid q.aliases c scope) ∧
    ∀ (t : TableRef Constant) next c scope next', Gives (t.resolve schema) next (c, scope) next' →
      (∀ level ∈ t.levels, level.items ≠ []) → Laid t.aliases c scope := by
  apply resolve_induct
  case table =>
    intro name asName next c scope next' h _
    obtain ⟨t, table, ht, rfl, _, rfl, rfl⟩ := gives_table h
    exact table_laid asName _ (hcolumns name t ht)
  case query =>
    intro q asName next c scope next' ih hitems
    exact querySource_laid asName (ih hitems)
  case join =>
    intro left right kind e next l leftScope mid r rightScope next' on _ _ hon ihl ihr hitems
    simp only [TableRef.levels, List.forall_mem_append] at hitems
    exact joined_laid (ihl hitems.1) (ihr hitems.2) hon
  case select =>
    intro isDistinct items t filter groupBy having orderBy next source sourceScope next' c scope _ hquery ih
      hitems
    have hlaid := ih fun level hl => hitems level (.tail _ (List.mem_append_left _ hl))
    rw [← List.append_nil t.aliases] at hlaid
    exact queryOver_laid hquery (hitems _ (.head _)) hlaid

theorem toQuery_laid {statement : Select Constant} {query : Component} {names : List String}
    {nextId : UInt64} (h : (statement.toQuery schema nextId).1 = .ok (query, names))
    (hitems : ∀ level ∈ statement.levels, level.items ≠ [])
    (hcolumns : ∀ name t, schema.table? name = some t → t.columns ≠ []) :
    ∃ scope, Laid statement.aliases query scope := by
  obtain ⟨scope, next', hresolve⟩ := gives_of_toQuery h
  exact ⟨scope, (resolve_laid schema hcolumns).1 statement nextId query scope next' hresolve hitems⟩

end Runs

end QuerySearch
