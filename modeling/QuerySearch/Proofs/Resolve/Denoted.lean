import QuerySearch.Proofs.Resolve.Runs
import QuerySearch.Proofs.Resolve.Values

/-! Which chain an expression of a statement stands for, with or without a window: the values, keys and
outputs of a resolved query provide just these. -/

namespace QuerySearch

open Sql (Expr Constant SelectItem)

namespace Component

def IsOrigin : Component → Prop
  | .column .. | .windowChain .. | .int _ | .float _ | .str _ => True
  | .aggChain _ arg => arg.kind.isReferencable = true
  | _ => False

theorem IsOrigin.provided_eq {c : Component} (h : c.IsOrigin) : c.provided = [c] := by
  cases c with
  | column | windowChain | int | float | str | aggChain => rfl
  | _ => exact h.elim

theorem IsConstant.origin {c : Component} (h : c.IsConstant) : c.IsOrigin := by
  cases c with
  | int | float | str => trivial
  | _ => exact h.elim

theorem provided_of_referencable {c : Component} (h : c.kind.isReferencable = true) : c.provided = [c] := by
  rw [kind_isReferencable_iff] at h
  cases c with
  | column | aggChain | windowChain => rfl
  | _ => exact absurd rfl h

theorem provided_aggregation (func : AggFunc) {arg : Component} (isDistinct : Bool)
    (h : arg.kind.isReferencable = true) :
    (aggregation func arg isDistinct).provided = [.aggChain func arg] := by
  rw [provided, provided_of_referencable h]
  rfl

end Component

section Values

variable {scope : Scope} {c chain : Component}

/-- The chain that an expression stands for.  A window does not matter to it, nor does DISTINCT. -/
inductive Denotes (scope : Scope) : Expr Constant → Component → Prop
  | column {column v} (hv : v ∈ scope) (hmeant : Scope.isMeant column v = true) :
    Denotes scope (.column column) v.chain
  | constant {v c} (h : constantValue v = .ok c) : Denotes scope (.constant v) c
  | aggregate {name func isDistinct e arg window} (hfunc : AggFunc.ofName? name = some func)
    (harg : Denotes scope e arg) :
    Denotes scope (.call name isDistinct false [e] window) (.aggChain func arg)
  | rank {name func isDistinct window} (hfunc : WindowFunc.ofName? name = some func) :
    Denotes scope (.call name isDistinct false [] (some window)) (.windowChain func .absent)

def Scope.Traced (scope : Scope) : Prop := ∀ v ∈ scope, v.chain.IsOrigin

theorem lookup_meant {column : Sql.ColumnRef} (h : scope.lookup column = .ok c) :
    Denotes scope (.column column) c := by
  rw [Scope.lookup] at h
  split at h
  · cases h
  · rename_i chain hchains
    cases h
    have hmem : c ∈ (scope.filter (Scope.isMeant column)).map (·.chain) := by
      apply Component.mem_of_mem_unique
      rw [hchains]
      exact .head _
    obtain ⟨v, hv, rfl⟩ := List.mem_map.1 hmem
    obtain ⟨hv, hmeant⟩ := List.mem_filter.1 hv
    exact .column hv hmeant
  · cases h

inductive IsCall (name : String) (isDistinct : Bool) : List (Except ResolveError Component) →
    Option (Except ResolveError (Component × Component)) → Component → Prop
  | rank {func partition orderBy} (hfunc : WindowFunc.ofName? name = some func) :
    IsCall name isDistinct [] (some (.ok (partition, orderBy)))
      (.funcWindow (.windowClause func) partition orderBy)
  | aggregation {func arg} (hfunc : AggFunc.ofName? name = some func)
    (harg : arg.kind.isReferencable = true) :
    IsCall name isDistinct [.ok arg] none (.aggregation func arg isDistinct)
  | window {func arg partition orderBy} (hfunc : AggFunc.ofName? name = some func)
    (harg : arg.kind.isReferencable = true) :
    IsCall name isDistinct [.ok arg] (some (.ok (partition, orderBy)))
      (.aggWindow (.aggregation func arg isDistinct) partition orderBy)

theorem callValue_isCall {name : String} {isDistinct star : Bool}
    {args : List (Except ResolveError Component)}
    {window : Option (Except ResolveError (Component × Component))}
    (h : callValue name isDistinct star args window = .ok c) :
    star = false ∧ IsCall name isDistinct args window c := by
  rw [callValue] at h
  split at h
  · cases h
  rename_i hstar
  refine ⟨by simpa using hstar, ?_⟩
  split at h
  · rename_i func hfunc
    split at h
    · cases h
    · split at h
      · rename_i hargs
        obtain ⟨⟨partition, orderBy⟩, hwindow, h⟩ := ok_of_bind h
        cases h
        rw [List.isEmpty_iff.1 hargs, hwindow]
        exact .rank hfunc
      · cases h
  split at h
  · cases h
  · rename_i func hfunc
    split at h
    · obtain ⟨chain, harg, h⟩ := ok_of_bind h
      obtain ⟨chain', href, h⟩ := ok_of_bind h
      obtain ⟨rfl, hkind⟩ := referencable_ok href
      rw [harg]
      split at h
      · cases h
        exact .aggregation hfunc hkind
      · obtain ⟨⟨partition, orderBy⟩, hwindow, h⟩ := ok_of_bind h
        cases h
        rw [hwindow]
        exact .window hfunc hkind
    · cases h

theorem denotes_referencable {e : Expr Constant} (hkind : c.kind.isReferencable = true)
    (h : ∃ chain, Denotes scope e chain ∧ chain.IsOrigin ∧ c.provided = [chain]) : Denotes scope e c := by
  obtain ⟨chain, hchain, _, hprovided⟩ := h
  rw [Component.provided_of_referencable hkind] at hprovided
  cases hprovided
  exact hchain

theorem value_denotes (hscope : scope.Traced) : (e : Expr Constant) → {c : Component} →
    e.value scope = .ok c → ∃ chain, Denotes scope e chain ∧ chain.IsOrigin ∧ c.provided = [chain]
  | .column column, c, h => by
    obtain ⟨v, hv, rfl⟩ := lookup_ok h
    exact ⟨v.chain, lookup_meant h, hscope v hv, (hscope v hv).provided_eq⟩
  | .constant v, c, h => by
    have hconstant := constantValue_ok h
    exact ⟨c, .constant h, hconstant.origin, hconstant.provided_eq⟩
  | .call name isDistinct star args window, c, h => by
    obtain ⟨rfl, hcall⟩ := callValue_isCall h
    generalize hargs : Expr.valueEach scope args = values at hcall
    generalize hwindow : Sql.Window.value? scope window = calledOver at hcall
    cases hcall with
    | rank hfunc =>
      cases args with
      | nil =>
        cases window with
        | none => cases hwindow
        | some w => exact ⟨_, .rank hfunc, trivial, rfl⟩
      | cons => cases hargs
    | aggregation hfunc harg =>
      obtain ⟨e, rfl, he⟩ := valueEach_singleton hargs
      have hchain := denotes_referencable harg (value_denotes hscope e he)
      exact ⟨_, .aggregate hfunc hchain, harg, Component.provided_aggregation _ isDistinct harg⟩
    | window hfunc harg =>
      obtain ⟨e, rfl, he⟩ := valueEach_singleton hargs
      have hchain := denotes_referencable harg (value_denotes hscope e he)
      exact ⟨_, .aggregate hfunc hchain, harg, Component.provided_aggregation _ isDistinct harg⟩
  | .subquery _, _, h | .compare .., _, h | .logic .., _, h | .not _, _, h | .isNull .., _, h => by cases h

end Values

section Keys

variable {scope outs : Scope} {c : Component} {select : List (SelectItem Constant)}
  {items : List Component} {key : Expr Constant}

/-- The chain that a sort key stands for: that of the select item whose position or name it gives, or else
its own. -/
inductive KeyDenotes (scope : Scope) (select : List (SelectItem Constant)) (key : Expr Constant) :
    Component → Prop
  | own {chain} (hplace : key.itemPlace scope select = none) (h : Denotes scope key chain) :
    KeyDenotes scope select key chain
  | item {i e asName chain} (hplace : key.itemPlace scope select = some i)
    (hitem : select[i]? = some (.expr e asName)) (h : Denotes scope e chain) :
    KeyDenotes scope select key chain

def ItemOf (scope : Scope) (s : SelectItem Constant) (item : Component) : Prop :=
  ∃ e asName, s = .expr e asName ∧ e.value scope = .ok item

theorem items_of (h : select.mapM (selectItemValue scope) = .ok items) :
    List.Forall₂ (ItemOf scope) select items := by
  refine (forall₂_of_mapM h).imp fun s item hitem => ?_
  cases s with
  | star => cases hitem
  | expr e asName => exact ⟨e, asName, rfl, hitem⟩

theorem outputChain_denotes (hscope : scope.Traced) {e : Expr Constant} {item : Component}
    (hitem : e.value scope = .ok item) (h : outputChain item = .ok c) : Denotes scope e c ∧ c.IsOrigin := by
  obtain ⟨chain, hchain, horigin, hprovided⟩ := value_denotes hscope e hitem
  have hc := outputChain_ok h
  rw [hprovided, List.mem_singleton] at hc
  subst hc
  exact ⟨hchain, horigin⟩

end Keys

section Scopes

open Sql (Select TableRef)

variable {schema : Schema} {scope outs : Scope} {source c : Component} {next next' : UInt64}
  {q : Select Constant}

def SortItemOf (scope : Scope) (select : List (SelectItem Constant)) (items : List Component)
    (k : Sql.SortKey Constant) (key : Component) : Prop :=
  ∃ chain, reference scope select items k.expr = .ok chain ∧ key = .sortItem chain (sortDir k.descending)

theorem queryOver_ok (h : queryOver source scope q = .ok (c, outs)) : ∃ items filter groups having keys,
    List.Forall₂ (ItemOf scope) q.items items ∧ predicateOrAbsent scope q.filter = .ok filter ∧
      predicateOrAbsent scope q.having = .ok having ∧
      List.Forall₂ (SortItemOf scope q.items items) q.orderBy keys ∧
      outputs scope q.items items = .ok outs ∧
      c = .query (.select items) source filter (listOrAbsent .groupListOf groups) having
        (listOrAbsent .sortListOf keys) q.distinct := by
  obtain ⟨items, hitems, h⟩ := ok_of_bind h
  obtain ⟨filter, hfilter, h⟩ := ok_of_bind h
  obtain ⟨groups, hgroup, h⟩ := ok_of_bind h
  obtain ⟨having, hhaving, h⟩ := ok_of_bind h
  obtain ⟨keys, hkeys, h⟩ := ok_of_bind h
  obtain ⟨outputs, houtputs, h⟩ := ok_of_bind h
  cases h
  refine ⟨items, filter, groups, having, keys, items_of hitems, hfilter, hhaving, ?_, houtputs, rfl⟩
  refine (forall₂_of_mapM hkeys).imp fun k key hkey => ?_
  obtain ⟨chain, hchain, hkey⟩ := ok_of_bind hkey
  cases hkey
  exact ⟨chain, hchain, rfl⟩

theorem queryOver_traced (hscope : scope.Traced) (h : queryOver source scope q = .ok (c, outs)) :
    outs.Traced := by
  obtain ⟨items, _, _, _, _, hitems, _, _, _, houtputs, _⟩ := queryOver_ok h
  intro v hv
  obtain ⟨⟨s, item⟩, hmem, hrun⟩ := exists_of_forall₂ (forall₂_of_mapM houtputs) hv
  obtain ⟨chain, hchain, hrun⟩ := ok_of_bind hrun
  cases hrun
  obtain ⟨s', _, e, asName, _, hitem⟩ := exists_of_forall₂ hitems (List.of_mem_zip hmem).2
  exact (outputChain_denotes hscope hitem hchain).2

theorem Scope.Traced.renamed (h : scope.Traced) (asName : Option String) :
    (asName.elim scope scope.renamed).Traced := by
  cases asName with
  | none => exact h
  | some a =>
    intro v hv
    obtain ⟨u, hu, rfl⟩ := List.mem_map.1 hv
    exact h u hu

theorem resolve_traced :
    (∀ (q : Select Constant) next c scope next', Gives (q.resolve schema) next (c, scope) next' →
      scope.Traced) ∧
    ∀ (t : TableRef Constant) next c scope next', Gives (t.resolve schema) next (c, scope) next' →
      scope.Traced := by
  apply resolve_induct
  case table =>
    intro name asName next c scope next' h
    obtain ⟨_, table, _, _, _, _, rfl⟩ := gives_table h
    intro v hv
    obtain ⟨column, _, rfl⟩ := List.mem_map.1 hv
    trivial
  case query => exact fun q asName next c scope next' h => h.renamed asName
  case join =>
    exact fun left right kind e next l leftScope mid r rightScope next' on _ _ _ hl hr =>
      List.forall_mem_append.2 ⟨hl, hr⟩
  case select =>
    exact fun isDistinct items t filter groupBy having orderBy next source sourceScope next' c scope _
      hquery hsource => queryOver_traced hsource hquery

end Scopes

end QuerySearch
