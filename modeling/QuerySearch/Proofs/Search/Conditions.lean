import QuerySearch.Proofs.Binding.Throughout
import QuerySearch.Proofs.Component.Calls
import QuerySearch.Proofs.Meaning.Readings
import QuerySearch.Proofs.Projection.Throughout
import QuerySearch.Proofs.Resolve.Throughout
import QuerySearch.Proofs.Search.Passes
import QuerySearch.Proofs.Search.Supplied

/-! No call of a function gets into a condition on rows.  Comparisons of aggregations are for HAVING, and
they are offered as filters and as conditions of joins too, but calls stand only where the requirement that
there be none looks for them. -/

namespace QuerySearch

open Component (Throughout KeepsCallsApart CallFree Shallow callFree_leaf)
open Sql (Expr Constant)

section Resolution

variable {scope : Scope} {e : Expr Constant} {c : Component}

theorem Component.IsOrigin.isChain (h : c.IsOrigin) : c.kind.isChain = true := by
  rw [kind, fingerprint_eq]
  cases c with
  | column | windowChain | int | float | str | aggChain => rfl
  | _ => exact h.elim

theorem value_isChain (htraced : scope.Traced) (hcall : e.NoCall) (h : e.value scope = .ok c) :
    c.kind.isChain = true := by
  cases e with
  | column =>
    obtain ⟨v, hv, rfl⟩ := lookup_ok h
    exact (htraced v hv).isChain
  | constant => exact (constantValue_ok h).origin.isChain
  | call => exact hcall.elim
  | _ => cases h

theorem value_admitted (htraced : scope.Traced) (hover : e.NoOver) (h : e.value scope = .ok c) :
    Category.value.admits c.kind = true := by
  cases e with
  | column | constant =>
    have hchain := value_isChain htraced (by simp [Expr.NoCall]) h
    exact Bool.or_eq_true_iff.2 (.inl hchain)
  | call name isDistinct star args window =>
    obtain rfl : window = none := hover.2
    obtain ⟨func, arg, _, _, rfl⟩ := callValue_ok h
    rw [(Component.kind_eq_iff (.aggregation func arg isDistinct) .aggregation).2 rfl]
    rfl
  | _ => cases h

theorem Sql.Expr.NoOver.operand {α : Type} {e operand : Expr α} (h : e.NoOver) (ho : operand ∈ e.operands) :
    operand.NoOver :=
  Expr.forall_operands id id id e h operand ho

theorem carried_keepsCallsApart : Carried KeepsCallsApart where
  leaf := Component.keepsCallsApart_leaf
  rank := callFree_leaf rfl
  aggregate h hmem _ := Component.outgoing_callFree.provided _ h.here _ hmem
  aggregation hkind h := h.here.callFree_of_referencable hkind
  aggWindow := trivial
  funcWindow := trivial
  partitionList _ := trivial
  groupList _ := trivial
  sortItem _ := trivial
  sortList _ := trivial
  select := trivial

theorem shallow_of_compares (h : c.Compares Shallow) : c.Shallow := by
  induction h with
  | comparison hl hr => exact ⟨hl, hr⟩
  | connection _ _ ihl ihr => exact ⟨ihl, ihr⟩

theorem keepsCallsApart_of_compares (h : c.Compares fun d => d.Shallow ∧ Throughout KeepsCallsApart d) :
    Throughout KeepsCallsApart c :=
  throughout_of_compares (fun hl hr => ⟨hl, hr⟩)
    (fun hl hr => ⟨shallow_of_compares hl, shallow_of_compares hr⟩) h

theorem value_callFree (htraced : scope.Traced) (hscope : scope.Over KeepsCallsApart) (hcall : e.NoCall)
    (h : e.value scope = .ok c) : c.CallFree :=
  (value_throughout carried_keepsCallsApart hscope e h).here.callFree (value_isChain htraced hcall h)

theorem value_shallow (htraced : scope.Traced) (hscope : scope.Over KeepsCallsApart) (hover : e.NoOver)
    (h : e.value scope = .ok c) : c.Shallow :=
  (value_throughout carried_keepsCallsApart hscope e h).here.shallow_of_value (value_admitted htraced hover h)

theorem carriedUp_keepsCallsApart : CarriedUp KeepsCallsApart CallFree Expr.NoCall Expr.NoOver := by
  refine { carried_keepsCallsApart with
    rows := @fun scope e c htraced hscope hcall h => ?_
    groups := fun htraced hscope hover h => ?_
    absent := callFree_leaf rfl
    tableSource := trivial
    querySource := trivial
    join := id
    query := fun _ => id }
  · have hoperands : c.Compares fun d => d.CallFree ∧ Throughout KeepsCallsApart d :=
      predicate_operands carried_keepsCallsApart hscope
        (fun _ ho _ hd => value_callFree htraced hscope (hcall.operand ho) hd) h
    have hfree : c.Compares fun d => True ∧ d.CallFree := hoperands.mono fun _ hd => ⟨trivial, hd.1⟩
    exact ⟨keepsCallsApart_of_compares (hoperands.mono fun _ hd => ⟨hd.1.shallow, hd.2⟩),
      throughout_of_compares (fun _ _ => id) (fun _ _ => id) hfree⟩
  · exact keepsCallsApart_of_compares <| predicate_operands carried_keepsCallsApart hscope
      (fun _ ho _ hd => value_shallow htraced hscope (hover.operand ho) hd) h

end Resolution

namespace Component

section Forms

variable {c c' q : Component}

theorem narrows_filtersRows : Narrows FiltersRows where
  select := id
  named := trivial
  querySource := id
  join := id
  query := id

theorem isFunctionCall_iff : c.IsFunctionCall ↔
    c.ctorIdx ∈ [Kind.aggregation.rank, Kind.aggWindow.rank, Kind.funcWindow.rank] := by
  cases c <;> simp [IsFunctionCall, Kind.rank, Component.ctorIdx, Kind.ctorIdx]

theorem filtersRows_of_not_isRelation (h : ¬ c.IsRelation) : c.FiltersRows := by
  cases c with
  | join | query => exact absurd trivial h
  | _ => trivial

theorem rebinds_callFree : Rebinds fun c => ¬ c.IsFunctionCall where
  boundColumn := id
  named := id
  alike h _ heq := by rwa [isFunctionCall_iff, heq, ← isFunctionCall_iff]

theorem rebinds_filtersRows : Rebinds FiltersRows where
  boundColumn := trivial
  named := trivial
  alike _ hplain heq := filtersRows_of_not_isRelation (by rwa [isRelation_iff, heq, ← isRelation_iff])

theorem bind_callFreeConditions :
    (∀ c s c' env t, Gives (bindSource c) s (c', env) t → c.CallFreeConditions → c'.CallFreeConditions) ∧
    ∀ c s c' outputs t, Gives (bindQuery c) s (c', outputs) t → c.CallFreeConditions →
      c'.CallFreeConditions := by
  apply bind_induct
  case table => exact fun _ _ _ _ _ _ hc => .intro trivial fun _ hd => hc.child hd
  case subquery =>
    intro q asName s inner outputs u a t ih _ hc
    exact .intro trivial (by simpa [children] using ih (hc.child (.head _)))
  case join =>
    intro l r type on s l' leftEnv u r' rightEnv t on' ihl ihr hon hc
    have hl := ihl (hc.child (by simp [children]))
    have hr := ihr (hc.child (by simp [children]))
    have hfree : on'.CallFree := bound_throughout rebinds_callFree on on' hc.here hon
    have hon := bound_throughout rebinds_filtersRows on on' (hc.child (by simp [children])) hon
    exact .intro hfree (by simpa [children] using ⟨hl, hr, hon⟩)
  case query =>
    intro given source filter groupBy having orderBy isDistinct s source' env u filter' groupBy' having' items
      outputs t orderBy' ih hfilter hgroup hhaving hitems horder hc
    have hgiven : ∀ d ∈ given, d.CallFreeConditions := fun d hd => (hc.child (.head _)).child hd
    have hsel : (select items).CallFreeConditions :=
      .intro trivial (bindItems_throughout rebinds_filtersRows hitems hgiven)
    have hsource := ih (hc.child (by simp [children]))
    have hfree : filter'.CallFree := bound_throughout rebinds_callFree filter filter' hc.here hfilter
    have hfilter := bound_throughout rebinds_filtersRows filter filter' (hc.child (by simp [children])) hfilter
    have hgroup := bound_throughout rebinds_filtersRows groupBy groupBy' (hc.child (by simp [children])) hgroup
    have hhaving := bound_throughout rebinds_filtersRows having having' (hc.child (by simp [children])) hhaving
    have horder := boundKeys_throughout rebinds_filtersRows trivial orderBy orderBy'
      (hc.child (by simp [children])) horder
    exact .intro hfree (by simpa [children] using ⟨hsel, hsource, hfilter, hgroup, hhaving, horder⟩)

theorem CallFreeConditions.rendered {target forms : List Component} {names : List String}
    (hq : q.CallFreeConditions) (hforms : q.projections target names = .ok forms) :
    ∀ form ∈ forms, form.CallFreeConditions ∧
      ∀ supply bound, (form.bindNames supply).1 = .ok bound → bound.CallFreeConditions := by
  intro form hform
  have hform := projections_throughout narrows_filtersRows hforms hq form hform
  refine ⟨hform, fun supply bound hbound => ?_⟩
  obtain ⟨outputs, hgives⟩ := gives_of_bindNames (Prod.ext hbound rfl)
  exact bind_callFreeConditions.2 _ _ _ _ _ hgives hform

end Forms

end Component

structure Component.Guarded (c : Component) : Prop where
  keepsCallsApart : c.KeepsCallsApart
  conditions : c.CallFreeConditions

section Additions

variable {w : Workshop} {b : Bank} {c d : Component}

theorem Component.guarded_of_throughout (h : Throughout KeepsCallsApart c) : c.Guarded :=
  ⟨h.here, h.mono fun _ => KeepsCallsApart.filtersRows⟩

theorem Built.guarded (horderly : w.bank.Orderly) (hbank : ∀ d ∈ w.bank.toList, d.Guarded)
    (h : Built w c) : c.Guarded := by
  have hreferencable {rs : List Requirement} {d : Component} (hd : w.Fits .referencable rs d) : d.CallFree :=
    (hbank d hd.mem).keepsCallsApart.callFree_of_referencable (hd.admits horderly)
  have hvalue {rs : List Requirement} {d : Component} (hd : w.Fits .value rs d) : d.Shallow :=
    (hbank d hd.mem).keepsCallsApart.shallow_of_value (hd.admits horderly)
  have hpredicate {rs : List Requirement} {d : Component} (hd : w.Fits .predicate rs d) : d.Shallow :=
    (hbank d hd.mem).keepsCallsApart.shallow_of_predicate (hd.admits horderly)
  have hrows {rs : List Requirement} {d : Component} (hd : w.Fits .predicate rs d)
      (hrequired : .noAggregation ∈ rs) : d.CallFree := by
    have hno : Requirement.noAggregation.holds d = true := hd.holds hrequired
    exact (hpredicate hd).callFree hno
  have hapart : c.KeepsCallsApart := by
    cases h with
    | aggChain harg | aggregation harg => exact hreferencable harg
    | windowChain harg => exact (hbank _ harg.mem).keepsCallsApart.callFree (harg.admits horderly)
    | comparison hl hr => exact ⟨hvalue hl, hvalue hr⟩
    | connection hl hr => exact ⟨hpredicate hl, hpredicate hr⟩
    | join hl hr hon => exact hrows hon (by simp)
    | query hsource hfilter => exact hrows hfilter (by simp)
    | _ => trivial
  refine ⟨hapart, .intro hapart.filtersRows fun d hd => ?_⟩
  obtain hd | ⟨items, rfl, hitems⟩ := h.mem_of_child hd
  · exact (hbank d hd).conditions
  · exact .intro trivial fun e he => (hbank e (hitems e he)).conditions

theorem Drawn.conditions (hbank : ∀ d ∈ b.toList, d.Guarded) (h : Drawn b c) : c.CallFreeConditions := by
  induction h with
  | child hd hc => exact (hbank _ hd).conditions.child hc
  | column => exact .intro trivial (by simp [Component.children])
  | aggChain _ _ _ _ ih => exact .intro trivial (by simpa [Component.children] using ih)
  | arg _ ih => exact ih.child (.head _)

theorem Proposed.guarded (hbank : ∀ d ∈ b.toList, d.Guarded) (h : Proposed b c) : c.Guarded := by
  have hsorted {items : List Component} {list : Component} (hhere : list.FiltersRows)
      (hchildren : list.children = Component.sortedByKey items)
      (hitems : ∀ d ∈ items, d.CallFreeConditions) : list.CallFreeConditions :=
    Component.throughout_sorted hhere hchildren hitems
  cases h with
  | groupList hitems | partitionList hitems =>
    exact ⟨trivial, hsorted trivial rfl fun d hd => (hitems d hd).conditions hbank⟩
  | @sortList chain hchain =>
    have hitem : (Component.sortItem chain .asc).CallFreeConditions :=
      .intro trivial (by simpa [Component.children] using hchain.conditions hbank)
    exact ⟨trivial, hsorted trivial rfl (by simpa using hitem)⟩

end Additions

namespace Search

variable {query c : Component} {names : List String} {config : SearchConfig} {s : Search} {n : Nat}

theorem start_guarded (hquery : Throughout KeepsCallsApart query)
    (h : c ∈ (start query names config).bank.toList) : c.Guarded :=
  Component.guarded_of_throughout
    (forall_mem_start (Component.inherited_keepsCallsApart.reach query hquery false)
      (fun _ _ _ => Component.throughout_leaf trivial rfl) (fun _ => Component.inherited_keepsCallsApart.word)
      (Component.throughout_leaf trivial rfl) c h)

theorem Reaches.guarded (h : s.Reaches t) (horderly : s.bank.Orderly)
    (hstart : ∀ c ∈ s.bank.toList, c.Guarded) : ∀ c ∈ t.bank.toList, c.Guarded :=
  h.bank_forall hstart (fun _ _ hbank _ hc => hc.guarded hbank)
    fun _ hu hbank _ hc => hc.guarded (hu.orderly horderly) hbank

theorem guarded_renderedBy (horderly : s.bank.Orderly) (hstart : ∀ c ∈ s.bank.toList, c.Guarded) (n : Nat) :
    ∀ q ∈ s.renderedBy n, q.Guarded := by
  induction n with
  | zero => exact fun q hq => hstart q (Bank.mem_of_select hq).1
  | succ n ih =>
    refine List.forall_mem_append.2 ⟨ih, fun q hq => ?_⟩
    have hreaches : s.Reaches (s.stepped n) := reaches_stepped n
    exact (discoveries_built (mem_rendered hq)).guarded (hreaches.orderly horderly)
      (hreaches.guarded horderly hstart)

end Search

namespace Candidates

variable {schema : Schema} {statement : Sql.Select Constant} {config : SearchConfig} {query : Component}
  {names : List String} {s : Candidates} {t : Search}

/-- In every state of the stream for a statement whose conditions on rows have no calls and whose conditions
on groups have no windows: no query that has been rendered until then has a call in a condition on rows, at any
level, and neither have its narrowed forms, before and after names are bound to them. -/
theorem asks_callFreeConditions (h : (statement.toQuery schema 0).1 = .ok (query, names))
    (hlevels : ∀ level ∈ statement.levels,
      (∀ e ∈ level.rowConditions, e.NoCall) ∧ ∀ e ∈ level.having, e.NoOver)
    (hs : (ofStatement schema statement config).Asks s) (ht : s.search = some t) :
    ∃ n, t = (Search.start query names config).stepped n ∧
      ∀ q ∈ (Search.start query names config).renderedBy (n + 1), q.CallFreeConditions ∧
        ∀ target outputNames forms, q.projections target outputNames = .ok forms → ∀ form ∈ forms,
          form.CallFreeConditions ∧
            ∀ supply bound, (form.bindNames supply).1 = .ok bound → bound.CallFreeConditions := by
  obtain ⟨n, rfl⟩ := hs.stepped h ht
  have hquery := toQuery_throughout carriedUp_keepsCallsApart h hlevels
  refine ⟨n, rfl, fun q hq => ?_⟩
  have hguarded := Search.guarded_renderedBy Search.orderly_start
    (fun c hc => Search.start_guarded hquery hc) (n + 1) q hq
  exact ⟨hguarded.conditions, fun target outputNames forms hforms => hguarded.conditions.rendered hforms⟩

section Parcels

open Search (scanCounts scanCountQuery parcelTables toQuery_scanCounts)

theorem asks_callFreeConditions_scanCounts :
    (scanCounts.toQuery parcelTables 0).1 = .ok (scanCountQuery, ["id", "tmp"]) ∧
      (∀ level ∈ scanCounts.levels,
        (∀ e ∈ level.rowConditions, e.NoCall) ∧ ∀ e ∈ level.having, e.NoOver) ∧
      (ofStatement parcelTables scanCounts {}).Asks (ofStatement parcelTables scanCounts {}) ∧
      (ofStatement parcelTables scanCounts {}).search =
        some (Search.start scanCountQuery ["id", "tmp"] {}).varyAll ∧
      ∃ n, ∀ q ∈ (Search.start scanCountQuery ["id", "tmp"] {}).renderedBy (n + 1), q.CallFreeConditions := by
  have hlevels : ∀ level ∈ scanCounts.levels,
      (∀ e ∈ level.rowConditions, e.NoCall) ∧ ∀ e ∈ level.having, e.NoOver := by
    simp [scanCounts, Search.scanJoin, Sql.Select.levels, Sql.TableRef.levels, Sql.TableRef.levelsEach,
      Sql.Select.rowConditions, Sql.TableRef.conditions, Expr.NoCall]
  have hsearch : (ofStatement parcelTables scanCounts {}).search =
      some (Search.start scanCountQuery ["id", "tmp"] {}).varyAll := by
    rw [ofStatement_eq toQuery_scanCounts]
  obtain ⟨n, _, hqueries⟩ := asks_callFreeConditions toQuery_scanCounts hlevels .refl hsearch
  exact ⟨toQuery_scanCounts, hlevels, .refl, hsearch, n, fun q hq => (hqueries q hq).1⟩

end Parcels

end Candidates

end QuerySearch
