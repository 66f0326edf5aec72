import QuerySearch.Proofs.Enumerate.Charges
import QuerySearch.Proofs.Resolve.Supplied
import QuerySearch.Proofs.Resolve.Denoted

/-! The tables that a query reads, at all levels: the outputs of a resolved query are columns of these or
aggregates of such columns, ranks and constants, and a table counts no more than a query that reads it. -/

namespace QuerySearch

open Sql (Select TableRef Constant)

namespace Component

def tables : Component → List Table
  | .tableSource (.table t) _ => [t]
  | .querySource q _ => q.tables
  | .join l r .. => l.tables ++ r.tables
  | .query _ source .. => source.tables
  | _ => []

def BasedOn (ts : List Table) : Component → Prop
  | .column t name type => t ∈ ts ∧ (name, type) ∈ t.columns
  | .aggChain _ arg => arg.BasedOn ts
  | _ => True

section Tables

variable {c : Component} {ts ts' : List Table} {t : Table} {f : Fingerprint}

theorem BasedOn.mono (hts : ∀ t ∈ ts, t ∈ ts') (h : c.BasedOn ts) : c.BasedOn ts' := by
  fun_induction BasedOn ts c with
  | case1 t name type => exact ⟨hts t h.1, h.2⟩
  | case2 func arg ih => exact ih h
  | case3 c hcolumn haggregate =>
    cases c with
    | column t name type => exact (hcolumn t name type rfl).elim
    | aggChain func arg => exact (haggregate func arg rfl).elim
    | _ => trivial

theorem mem_providedByAll {d : Component} {cs : List Component} (h : d ∈ providedByAll cs) :
    ∃ c ∈ cs, d ∈ c.provided := by
  induction cs with
  | nil => cases h
  | cons c cs ih =>
    rw [providedByAll, List.mem_append] at h
    cases h with
    | inl h => exact ⟨c, .head _, h⟩
    | inr h =>
      obtain ⟨c', hc', hd⟩ := ih h
      exact ⟨c', .tail _ hc', hd⟩

theorem IsConstant.basedOn (h : c.IsConstant) : c.BasedOn ts := by
  cases c with
  | int | float | str => trivial
  | _ => exact h.elim

theorem mem_reach_of_mem_tables (h : t ∈ c.tables) : .table t ∈ c.reach false := by
  fun_induction tables c with
  | case1 u asName =>
    cases List.mem_singleton.1 h
    exact .tail _ (.head _)
  | case2 q asName ih => exact .tail _ (ih h)
  | case3 l r type on ihl ihr =>
    simp only [reach, List.mem_cons, List.mem_append]
    exact .inr (.inr (.inl ((List.mem_append.1 h).imp ihl ihr)))
  | case4 sel source filter groupBy having orderBy isDistinct ih =>
    simp only [reach, List.mem_cons, List.mem_append]
    exact .inr (.inl (.inl (.inl (.inl (.inr (ih h))))))
  | case5 => cases h

theorem counter_source_le (sel source filter groupBy having orderBy : Component) (isDistinct : Bool)
    (f : Fingerprint) : source.counter.get f ≤
      (Component.query sel source filter groupBy having orderBy isDistinct).counter.get f := by
  rw [counter]
  split <;> simp <;> omega

theorem counter_table_le (h : t ∈ c.tables) (f : Fingerprint) :
    (Component.table t).counter.get f ≤ c.counter.get f := by
  fun_induction tables c with
  | case1 u asName =>
    cases List.mem_singleton.1 h
    simp only [counter]
    exact Nat.le_refl _
  | case2 q asName ih =>
    rw [counter.eq_def (.querySource q asName)]
    exact ih h
  | case3 l r type on ihl ihr =>
    have hjoin : (Component.join l r type on).counter.get f = l.counter.get f + r.counter.get f +
        (on.counter.get f + (Counter.one (.ofJoinType type)).get f) := by
      simp [counter, Nat.add_assoc]
    rw [hjoin]
    cases List.mem_append.1 h with
    | inl h => exact Nat.le_trans (ihl h) (by omega)
    | inr h => exact Nat.le_trans (ihr h) (by omega)
  | case4 sel source filter groupBy having orderBy isDistinct ih =>
    exact Nat.le_trans (ih h) (counter_source_le ..)
  | case5 => cases h

end Tables

end Component

open Component (BasedOn)

section Resolution

variable {schema : Schema} {scope outs : Scope} {c source : Component} {q : Select Constant}
  {ts : List Table}

def Scope.BasedOn (ts : List Table) (scope : Scope) : Prop := ∀ v ∈ scope, v.chain.BasedOn ts

theorem Denotes.basedOn {e : Sql.Expr Constant} (h : Denotes scope e c) (hscope : scope.BasedOn ts) :
    c.BasedOn ts := by
  induction h with
  | column hv => exact hscope _ hv
  | constant hc => exact (constantValue_ok hc).basedOn
  | aggregate _ _ ih => exact ih
  | rank => trivial

theorem Scope.BasedOn.mono {ts' : List Table} (h : scope.BasedOn ts) (hts : ∀ t ∈ ts, t ∈ ts') :
    scope.BasedOn ts' :=
  fun v hv => (h v hv).mono hts

theorem Scope.BasedOn.renamed (h : scope.BasedOn ts) (asName : Option String) :
    (asName.elim scope scope.renamed).BasedOn ts := by
  cases asName with
  | none => exact h
  | some a =>
    intro v hv
    obtain ⟨u, hu, rfl⟩ := List.mem_map.1 hv
    exact h u hu

theorem queryOver_basedOn (htraced : scope.Traced) (hscope : scope.BasedOn source.tables)
    (h : queryOver source scope q = .ok (c, outs)) :
    (∀ d ∈ c.provided, d.BasedOn c.tables) ∧ outs.BasedOn c.tables := by
  obtain ⟨items, filter, groups, having, keys, hitems, _, _, _, houtputs, rfl⟩ := queryOver_ok h
  have hprovided : ∀ item ∈ items, ∀ d ∈ item.provided, d.BasedOn source.tables := by
    intro item hitem d hd
    obtain ⟨_, _, e, asName, _, hvalue⟩ := exists_of_forall₂ hitems hitem
    obtain ⟨chain, hchain, _, heq⟩ := value_denotes htraced e hvalue
    rw [heq, List.mem_singleton] at hd
    exact hd ▸ hchain.basedOn hscope
  refine ⟨fun d hd => ?_, fun v hv => ?_⟩
  · rw [Component.provided, Component.provided] at hd
    obtain ⟨item, hitem, hd⟩ := Component.mem_providedByAll hd
    exact hprovided item hitem d hd
  · obtain ⟨item, hitem, hchain⟩ := outputs_ok houtputs v hv
    exact hprovided item hitem _ hchain

theorem resolve_basedOn :
    (∀ (q : Select Constant) next c scope next', Gives (q.resolve schema) next (c, scope) next' →
      (∀ d ∈ c.provided, d.BasedOn c.tables) ∧ scope.BasedOn c.tables) ∧
    ∀ (t : TableRef Constant) next c scope next', Gives (t.resolve schema) next (c, scope) next' →
      scope.BasedOn c.tables := by
  apply resolve_induct
  case table =>
    intro name asName next c scope next' h
    obtain ⟨_, table, _, _, _, rfl, rfl⟩ := gives_table h
    intro v hv
    obtain ⟨column, hcolumn, rfl⟩ := List.mem_map.1 hv
    exact ⟨.head _, hcolumn⟩
  case query => exact fun q asName next c scope next' h => h.2.renamed asName
  case join =>
    intro left right kind e next l leftScope mid r rightScope next' on _ _ _ hl hr
    have htables : ∀ t, t ∈ (joined l r on kind).tables ↔ t ∈ l.tables ∨ t ∈ r.tables := by
      intro t
      cases kind with
      | right => exact List.mem_append.trans or_comm
      | _ => exact List.mem_append
    exact List.forall_mem_append.2 ⟨hl.mono fun t ht => (htables t).2 (.inl ht),
      hr.mono fun t ht => (htables t).2 (.inr ht)⟩
  case select =>
    intro isDistinct items t filter groupBy having orderBy next source sourceScope next' c scope ht hquery
      hsource
    exact queryOver_basedOn (resolve_traced.2 t next source sourceScope next' ht) hsource hquery

theorem toQuery_basedOn {statement : Select Constant} {query : Component} {names : List String}
    {nextId : UInt64} (h : (statement.toQuery schema nextId).1 = .ok (query, names)) :
    ∀ d ∈ query.provided, d.BasedOn query.tables := by
  obtain ⟨scope, next', hresolve⟩ := gives_of_toQuery h
  exact (resolve_basedOn.1 statement nextId query scope next' hresolve).1

end Resolution

end QuerySearch
