import QuerySearch.Proofs.Outcomes
import QuerySearch.Resolve.Query

/-! Runs of the resolution of statements, and the induction over all that is resolved in one. -/

namespace QuerySearch

open Sql (Constant Expr Select TableRef)

variable {schema : Schema} {source c query : Component} {sourceScope scope outs : Scope}
  {statement : Select Constant} {names : List String} {next next' : UInt64}

section Steps

theorem gives_table {name : String} {asName : Option String}
    (h : Gives ((TableRef.table name asName).resolve schema) next (c, scope) next') :
    ∃ t table, schema.table? name = some t ∧ table = ⟨Text.lowercase t.name, t.columns, next⟩ ∧
      next' = next + 1 ∧ c = .tableSource (.table table) asName ∧
      scope = table.columns.map fun c => ⟨asName.getD table.name, c.1, .column table c.1 c.2⟩ := by
  rw [TableRef.resolve] at h
  split at h
  · exact absurd h gives_throw
  · rename_i t ht
    obtain ⟨id, u, hid, h⟩ := gives_bind.1 h
    obtain ⟨hpair, rfl⟩ := gives_pure.1 h
    cases gives_modifyGet.1 hid
    cases hpair
    exact ⟨t, _, ht, rfl, rfl, rfl, rfl⟩

theorem gives_query {q : Select Constant} {asName : Option String}
    (h : Gives ((TableRef.query q asName).resolve schema) next (c, scope) next') :
    ∃ inner innerScope, Gives (q.resolve schema) next (inner, innerScope) next' ∧
      c = .querySource inner asName ∧ scope = asName.elim innerScope innerScope.renamed := by
  rw [TableRef.resolve] at h
  obtain ⟨⟨inner, innerScope⟩, u, hq, h⟩ := gives_bind.1 h
  obtain ⟨hpair, rfl⟩ := gives_pure.1 h
  cases hpair
  refine ⟨inner, innerScope, hq, rfl, ?_⟩
  cases asName <;> rfl

theorem gives_join {left right : TableRef Constant} {kind : Sql.JoinKind} {on : Option (Expr Constant)}
    (h : Gives ((TableRef.join left right kind on).resolve schema) next (c, scope) next') :
    ∃ l leftScope mid r rightScope e on', Gives (left.resolve schema) next (l, leftScope) mid ∧
      Gives (right.resolve schema) mid (r, rightScope) next' ∧ on = some e ∧
      e.predicate (leftScope ++ rightScope) false = .ok on' ∧ c = joined l r on' kind ∧
      scope = leftScope ++ rightScope := by
  rw [TableRef.resolve] at h
  obtain ⟨⟨l, leftScope⟩, u, hl, h⟩ := gives_bind.1 h
  obtain ⟨⟨r, rightScope⟩, v, hr, h⟩ := gives_bind.1 h
  cases on with
  | none => exact absurd h gives_throw
  | some e =>
    obtain ⟨on', w, hlift, h⟩ := gives_bind.1 h
    obtain ⟨hpair, rfl⟩ := gives_pure.1 h
    obtain ⟨hon, rfl⟩ := gives_liftM.1 hlift
    cases hpair
    exact ⟨l, leftScope, u, r, rightScope, e, on', hl, hr, rfl, hon, rfl, rfl⟩

theorem gives_select {q : Select Constant} (h : Gives (q.resolve schema) next (c, scope) next') :
    ∃ source sourceScope, Gives (TableRef.resolveOnly schema q.sources) next (source, sourceScope) next' ∧
      queryOver source sourceScope q = .ok (c, scope) := by
  cases q with
  | mk isDistinct items sources filter groupBy having orderBy =>
    rw [Select.resolve] at h
    obtain ⟨⟨source, sourceScope⟩, u, hsource, h⟩ := gives_bind.1 h
    obtain ⟨hover, rfl⟩ := gives_liftM.1 h
    exact ⟨source, sourceScope, hsource, hover⟩

end Steps

/-- What holds of the tables, and of subqueries, joins and queries if it holds of their parts, holds of
all that is resolved. -/
theorem resolve_induct {P : Select Constant → UInt64 → Component → Scope → UInt64 → Prop}
    {T : TableRef Constant → UInt64 → Component → Scope → UInt64 → Prop}
    (table : ∀ name asName next c scope next',
      Gives ((TableRef.table name asName).resolve schema) next (c, scope) next' →
      T (.table name asName) next c scope next')
    (query : ∀ q asName next c scope next', P q next c scope next' →
      T (.query q asName) next (.querySource c asName) (asName.elim scope scope.renamed) next')
    (join : ∀ left right kind e next l leftScope mid r rightScope next' on,
      Gives (left.resolve schema) next (l, leftScope) mid →
      Gives (right.resolve schema) mid (r, rightScope) next' →
      e.predicate (leftScope ++ rightScope) false = .ok on →
      T left next l leftScope mid → T right mid r rightScope next' →
      T (.join left right kind (some e)) next (joined l r on kind) (leftScope ++ rightScope) next')
    (select : ∀ isDistinct items t filter groupBy having orderBy next source sourceScope next' c scope,
      Gives (t.resolve schema) next (source, sourceScope) next' →
      queryOver source sourceScope ⟨isDistinct, items, [t], filter, groupBy, having, orderBy⟩ =
        .ok (c, scope) →
      T t next source sourceScope next' →
      P ⟨isDistinct, items, [t], filter, groupBy, having, orderBy⟩ next c scope next') :
    (∀ (q : Select Constant) next c scope next', Gives (q.resolve schema) next (c, scope) next' →
      P q next c scope next') ∧
    ∀ (t : TableRef Constant) next c scope next', Gives (t.resolve schema) next (c, scope) next' →
      T t next c scope next' := by
  have hall : (∀ (q : Select Constant) next c scope next', Gives (q.resolve schema) next (c, scope) next' →
      P q next c scope next') ∧
      (∀ (ts : List (TableRef Constant)) next c scope next',
        Gives (TableRef.resolveOnly schema ts) next (c, scope) next' →
        ∃ t, ts = [t] ∧ Gives (t.resolve schema) next (c, scope) next' ∧ T t next c scope next') ∧
      ∀ (t : TableRef Constant) next c scope next', Gives (t.resolve schema) next (c, scope) next' →
        T t next c scope next' := by
    apply Sql.Select.resolve.mutual_induct schema
    case case1 => exact fun name asName _ => table name asName
    case case2 => exact fun name asName _ _ => table name asName
    case case3 =>
      intro q asName ih next c scope next' h
      obtain ⟨inner, innerScope, hq, rfl, rfl⟩ := gives_query h
      exact query q asName next inner innerScope next' (ih next inner innerScope next' hq)
    case case4 =>
      intro left right kind on ihl ihr next c scope next' h
      obtain ⟨l, leftScope, mid, r, rightScope, e, on', hl, hr, rfl, hon, rfl, rfl⟩ := gives_join h
      exact join left right kind e next l leftScope mid r rightScope next' on' hl hr hon
        (ihl next l leftScope mid hl) (ihr mid r rightScope next' hr)
    case case5 =>
      intro isDistinct items sources filter groupBy having orderBy ih next c scope next' h
      obtain ⟨source, sourceScope, hsource, hquery⟩ := gives_select h
      obtain ⟨t, rfl, ht, hT⟩ := ih next source sourceScope next' hsource
      exact select isDistinct items t filter groupBy having orderBy next source sourceScope next' c scope ht
        hquery hT
    case case6 =>
      intro next c scope next' h
      exact absurd h gives_throw
    case case7 =>
      intro t ih next c scope next' h
      exact ⟨t, rfl, h, ih next c scope next' h⟩
    case case8 =>
      intro t t' ts next c scope next' h
      exact absurd h gives_throw
  exact ⟨hall.1, hall.2.2⟩

section Statements

theorem toQuery_ok (h : (statement.toQuery schema next).1 = .ok (query, names)) :
    names = statement.outputNames ∧
      ∃ scope next', Gives (statement.resolve schema) next (query, scope) next' := by
  have hrun : ∃ next', Gives (do return ((← statement.resolve schema).1, statement.outputNames) :
      Resolve (Component × List String)) next (query, names) next' :=
    ⟨_, Prod.ext h rfl⟩
  obtain ⟨next', hrun⟩ := hrun
  obtain ⟨⟨c, scope⟩, next'', hresolve, hrun⟩ := gives_bind.1 hrun
  obtain ⟨hpair, _⟩ := gives_pure.1 hrun
  cases hpair
  exact ⟨rfl, scope, next'', hresolve⟩

theorem gives_of_toQuery (h : (statement.toQuery schema next).1 = .ok (query, names)) :
    ∃ scope next', Gives (statement.resolve schema) next (query, scope) next' :=
  (toQuery_ok h).2

theorem toQuery_of_gives
    (hsource : Gives (TableRef.resolveOnly schema statement.sources) next (source, scope) next')
    (h : queryOver source scope statement = .ok (query, outs)) :
    (statement.toQuery schema next).1 = .ok (query, statement.outputNames) := by
  obtain ⟨isDistinct, items, sources, filter, groupBy, having, orderBy⟩ := statement
  have hresolve : Gives (Select.resolve schema ⟨isDistinct, items, sources, filter, groupBy, having, orderBy⟩)
      next (query, outs) next' := by
    rw [Select.resolve]
    exact gives_bind.2 ⟨_, _, hsource, gives_liftM.2 ⟨h, rfl⟩⟩
  have hrun : Gives (do
      return ((← Select.resolve schema ⟨isDistinct, items, sources, filter, groupBy, having, orderBy⟩).1,
        Select.outputNames ⟨isDistinct, items, sources, filter, groupBy, having, orderBy⟩))
      next (query, Select.outputNames ⟨isDistinct, items, sources, filter, groupBy, having, orderBy⟩) next' :=
    gives_bind.2 ⟨_, _, hresolve, gives_pure.2 ⟨rfl, rfl⟩⟩
  exact congrArg Prod.fst hrun

end Statements

end QuerySearch
