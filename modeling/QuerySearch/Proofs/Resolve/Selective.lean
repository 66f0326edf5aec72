import Mathlib
import QuerySearch.Proofs.Projection.Asked
import QuerySearch.Proofs.Resolve.Denoted

/-! Whether the query that a statement stands for can be narrowed to its own outputs. -/

namespace QuerySearch

open Sql (Constant Select TableRef)

variable {schema : Schema} {source c query : Component} {scope outs : Scope} {q : Select Constant}

theorem queryOver_selective (hscope : scope.Traced) (hsource : source.SelectiveSource)
    (h : queryOver source scope q = .ok (c, outs)) :
    c.SelectiveQuery ∧ c.provided.length = q.outputNames.length := by
  obtain ⟨items, filter, groups, having, keys, hitems, _, _, _, _, rfl⟩ := queryOver_ok h
  have hone : ∀ item ∈ items, item.providedKeys.length = 1 := by
    intro item hitem
    obtain ⟨_, _, e, asName, _, hvalue⟩ := exists_of_forall₂ hitems hitem
    obtain ⟨chain, _, _, hprovided⟩ := value_denotes hscope e hvalue
    rw [Component.providedKeys_eq, hprovided]
    rfl
  refine ⟨⟨hsource, hone⟩, ?_⟩
  have hlength : (items.map fun item => item.providedKeys.length).sum = items.length := by
    rw [List.map_congr_left hone, List.map_const', List.sum_replicate_nat, Nat.mul_one]
  rw [← List.length_map Component.fingerprint, ← Component.providedKeys_eq, Component.providedKeys,
    Component.providedKeys_select, List.length_flatMap, hlength, Select.outputNames, List.length_map,
    hitems.length_eq]

theorem joined_selective {l r : Component} (hl : l.SelectiveSource) (hr : r.SelectiveSource)
    (on : Component) (kind : Sql.JoinKind) : (joined l r on kind).SelectiveSource := by
  cases kind with
  | inner | left | full => exact ⟨hl, hr⟩
  | right => exact ⟨hr, hl⟩

theorem resolve_selective :
    (∀ (q : Select Constant) next c scope next', Gives (q.resolve schema) next (c, scope) next' →
      c.SelectiveQuery ∧ c.provided.length = q.outputNames.length) ∧
    ∀ (t : TableRef Constant) next c scope next', Gives (t.resolve schema) next (c, scope) next' →
      c.SelectiveSource := by
  apply resolve_induct
  case table =>
    intro name asName next c scope next' h
    obtain ⟨_, _, _, _, _, rfl, _⟩ := gives_table h
    trivial
  case query => exact fun q asName next c scope next' h => h.1
  case join =>
    exact fun left right kind e next l leftScope mid r rightScope next' on _ _ _ hl hr =>
      joined_selective hl hr on kind
  case select =>
    exact fun isDistinct items t filter groupBy having orderBy next source sourceScope next' c scope ht
      hquery hsource =>
        queryOver_selective (resolve_traced.2 t next source sourceScope next' ht) hsource hquery

/-- A statement can be narrowed to its own outputs just if each of its levels is asked for something. -/
theorem projections_toQuery {statement : Select Constant} {names : List String} {next : UInt64}
    (h : (statement.toQuery schema next).1 = .ok (query, names)) :
    (query.Asked (query.provided.map Component.fingerprint) →
      ∃ forms, forms ≠ [] ∧ query.projections query.provided names = .ok forms) ∧
    (¬ query.Asked (query.provided.map Component.fingerprint) →
      query.projections query.provided names = .error .unsatisfiable) := by
  obtain ⟨rfl, scope, next', hresolve⟩ := toQuery_ok h
  obtain ⟨hquery, hlength⟩ := resolve_selective.1 statement next query scope next' hresolve
  have hdecides := Component.projections_decides hquery hlength
  refine ⟨fun hasked => ?_, fun hasked => ?_⟩
  · obtain ⟨forms, hforms, hne⟩ := hdecides.succeeds hasked
    exact ⟨forms, hne, hforms⟩
  · obtain ⟨e, he, rfl⟩ := hdecides.fails hasked
    exact he

def votes : Table := ⟨"votes", [("ward", .number)], 0⟩

def ward : Component := .column votes "ward" .number

def voteTables : Schema := .ofDefs [⟨"votes", [⟨"ward", "int"⟩]⟩]

/-- `SELECT item FROM (SELECT ward FROM votes) AS v` -/
def ofWards (item : Sql.SelectItem Constant) : Select Constant where
  distinct := false
  items := [item]
  sources := [.query ⟨false, [.expr (.column ⟨none, "ward"⟩) none], [.table "votes" none], none, [], none, []⟩
    (some "v")]
  filter := none
  groupBy := []
  having := none
  orderBy := []

def wardSource : Component :=
  .querySource (.query (.select [ward]) (.tableSource (.table votes) none) .absent .absent .absent .absent
    false) (some "v")

def wardQuery (item : Component) : Component :=
  .query (.select [item]) wardSource .absent .absent .absent .absent false

theorem ward_keys : ward.requiredKeys = [ward.fingerprint] ∧ ward.providedKeys = [ward.fingerprint] := by
  simp [ward, Component.requiredKeys, Component.providedKeys]

theorem toQuery_wards :
    ((ofWards (.expr (.column ⟨some "v", "ward"⟩) none)).toQuery voteTables 0).1 =
      .ok (wardQuery ward, ["ward"]) := by
  cbv

theorem toQuery_one :
    ((ofWards (.expr (.constant (.int 1)) (some "one"))).toQuery voteTables 0).1 =
      .ok (wardQuery (.int 1), ["one"]) := by
  cbv

theorem asked_wards : (wardQuery ward).Asked ((wardQuery ward).provided.map Component.fingerprint) := by
  have hwanted : ward.fingerprint ∈ (wardQuery ward).provided.map Component.fingerprint := .head _
  have hprovided : ward.fingerprint ∈ (Component.select [ward]).providedKeys := by
    rw [Component.providedKeys_select, List.flatMap_singleton, ward_keys.2]
    exact .head _
  refine ⟨⟨_, hprovided, .inl hwanted⟩, fun kept hkept => ⟨⟨_, hprovided, .inl ?_⟩, fun _ _ => trivial⟩⟩
  have hkeptWard : ward.fingerprint ∈ kept.flatMap Component.providedKeys :=
    (hkept.provides _).2 ⟨by rwa [← Component.providedKeys_select], .inl hwanted⟩
  obtain ⟨item, hitem, _⟩ := List.mem_flatMap.1 hkeptWard
  have hward := List.mem_singleton.1 (hkept.isGiven item hitem)
  subst hward
  exact List.mem_append_left _ (List.mem_flatMap.2 ⟨_, hitem, by rw [ward_keys.1]; exact .head _⟩)

theorem projections_wards :
    ((ofWards (.expr (.column ⟨some "v", "ward"⟩) none)).toQuery voteTables 0).1 =
        .ok (wardQuery ward, ["ward"]) ∧
      ∃ forms, forms ≠ [] ∧ (wardQuery ward).projections (wardQuery ward).provided ["ward"] = .ok forms :=
  ⟨toQuery_wards, (projections_toQuery toQuery_wards).1 asked_wards⟩

theorem not_asked_one :
    ¬ (wardQuery (.int 1)).Asked ((wardQuery (.int 1)).provided.map Component.fingerprint) := by
  rintro ⟨_, hsource⟩
  have hkeys : [Component.int 1].flatMap Component.providedKeys = [(Component.int 1).fingerprint] := by
    simp [Component.providedKeys_eq, Component.provided]
  have hkept : Component.OneEach (fun k => k ∈ [(Component.int 1).fingerprint] ∨
      k ∈ Component.absent.requiredKeys) [.int 1] [.int 1] :=
    { isGiven := fun _ hitem => hitem
      one := by simp [Component.providedKeys_eq, Component.provided]
      nodup := by rw [hkeys]; exact List.nodup_singleton _
      provides := fun k => by rw [hkeys]; exact ⟨fun hk => ⟨hk, .inl hk⟩, And.left⟩ }
  have habsent : Component.absent.requiredKeys = [] := by simp [Component.requiredKeys]
  have hasks : Component.asks [.int 1] .absent .absent .absent .absent = [] := by
    simp [Component.asks, Component.requiredKeys]
  obtain ⟨⟨k, _, hasked⟩, _⟩ := hsource [.int 1] hkept
  rw [hasks, habsent] at hasked
  exact hasked.elim List.not_mem_nil List.not_mem_nil

theorem projections_one :
    ((ofWards (.expr (.constant (.int 1)) (some "one"))).toQuery voteTables 0).1 =
        .ok (wardQuery (.int 1), ["one"]) ∧
      (wardQuery (.int 1)).projections (wardQuery (.int 1)).provided ["one"] = .error .unsatisfiable := by
  have hselective : (wardQuery (.int 1)).SelectiveQuery := by
    simp [wardQuery, wardSource, ward, Component.SelectiveQuery, Component.SelectiveSource,
      Component.providedKeys_eq, Component.provided]
  have hlength : (wardQuery (.int 1)).provided.length = ["one"].length := rfl
  obtain ⟨e, he, rfl⟩ := (Component.projections_decides hselective hlength).fails not_asked_one
  exact ⟨toQuery_one, he⟩

end QuerySearch
