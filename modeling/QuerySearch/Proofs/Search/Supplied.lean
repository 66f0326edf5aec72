import Mathlib
import QuerySearch.Proofs.Component.Collected
import QuerySearch.Proofs.Resolve.Supplied
import QuerySearch.Proofs.Search.Reached

/-! Queries and joins in the bank of a search have what they require, and those that the search adds are
not nested too deep. -/

namespace QuerySearch

open Component (NoCollision)

def Component.WithinDepth (n : Nat) : Component → Prop
  | .query sel source filter groupBy having orderBy isDistinct =>
    (query sel source filter groupBy having orderBy isDistinct).depth ≤ max 1 n
  | .join l r type on => (join l r type on).depth ≤ n - 1
  | _ => True

section Additions

variable {w : Workshop} {b : Bank} {c : Component} {n : Nat}

theorem Built.supplied (h : Built w c) : c.IsSupplied := by
  cases h with
  | @join l r type on hl hr hon =>
    have hkeys : (Component.join l r type on).providedKeys = l.providedKeys ++ r.providedKeys := by
      rw [Component.providedKeys]
    rw [← hkeys] at hon
    refine ⟨hon.suppliedBy (by simp), fun k hk _ hk' => ?_⟩
    exact hr.providesNone (by simp) k hk' hk
  | query _ hfilter hgroup hhaving _ hitems =>
    simp only [Component.IsSupplied, List.forall_mem_cons]
    exact ⟨Component.suppliedBy_select fun d hd => (hitems d hd).suppliedBy (.head _),
      hfilter.suppliedBy (.head _), hgroup.suppliedBy (.head _), hhaving.suppliedBy (.head _), by simp⟩
  | _ => trivial

theorem Built.withinDepth (h : Built w c) : c.WithinDepth w.limits.depth := by
  cases h with
  | join hl hr =>
    rw [Component.WithinDepth, Component.depth]
    exact Nat.max_le.2 ⟨hl.depth (.head _), hr.depth (.tail _ (.head _))⟩
  | query hsource =>
    have hdepth := hsource.depth (.head _)
    rw [Component.WithinDepth, Component.depth]
    rw [Workshop.sourceDepth] at hdepth
    omega
  | _ => trivial

theorem Proposed.supplied (h : Proposed b c) : c.IsSupplied := by
  cases h <;> trivial

theorem Proposed.withinDepth (h : Proposed b c) : c.WithinDepth n := by
  cases h <;> trivial

end Additions

namespace Search

variable {query c : Component} {names : List String} {config : SearchConfig} {s : Search}

theorem mem_start (h : c ∈ (start query names config).bank.toList) :
    c ∈ query.reach false ∨ (∃ t name type, c = .column t name type) ∨ c ∈ terminals := by
  have hmem := List.mem_of_mem_filter (Bank.mem_ofList h)
  simp only [List.mem_append] at hmem
  obtain (h | h) | h := hmem
  · exact .inl (Component.mem_reach_of_mem_all h)
  · obtain ⟨d, hd, hc⟩ := List.mem_flatMap.1 h
    obtain ⟨t, rfl⟩ := (Component.kind_eq_table d).1 (beq_iff_eq.1 (List.mem_filter.1 hd).2)
    rw [Component.provided] at hc
    obtain ⟨column, _, rfl⟩ := List.mem_map.1 hc
    exact .inr (.inl ⟨t, _, _, rfl⟩)
  · exact .inr (.inr h)

theorem forall_mem_start {p : Component → Prop} (hreach : ∀ d ∈ query.reach false, p d)
    (hcolumn : ∀ t name type, p (.column t name type)) (hword : ∀ d, d.IsWord → p d) (habsent : p .absent) :
    ∀ c ∈ (start query names config).bank.toList, p c := by
  intro c hc
  obtain hc | ⟨t, name, type, rfl⟩ | hc := mem_start hc
  · exact hreach c hc
  · exact hcolumn t name type
  · obtain hc | rfl := Component.isWord_of_mem_terminals hc
    · exact hword c hc
    · exact habsent

theorem start_supplied (hquery : ∀ d ∈ query.reach false, d.IsSupplied) :
    ∀ c ∈ (start query names config).bank.toList, c.IsSupplied := by
  refine forall_mem_start hquery (fun _ _ _ => trivial) (fun d hd => ?_) trivial
  cases d with
  | distinct | compareOp | logicOp | joinType | aggFunc | windowFunc | sortDir => trivial
  | _ => exact hd.elim

theorem Reaches.withinDepth (h : (start query names config).Reaches s) (hc : c ∈ s.bank.toList)
    (hadded : c ∉ (start query names config).bank.toList) : c.WithinDepth config.depth := by
  have hbank : ∀ d ∈ s.bank.toList,
      d ∈ (start query names config).bank.toList ∨ d.WithinDepth config.depth := by
    refine h.bank_forall (fun d hd => .inl hd) (fun u _ _ d hd => .inr hd.withinDepth) ?_
    intro u hu _ d hd
    have hlimits : u.limits.depth = config.depth := congrArg Limits.depth hu.limits_eq
    rw [← hlimits]
    exact .inr hd.withinDepth
  exact (hbank c hc).resolve_left hadded

/-- In every state of the search for a statement without windows, every query and join in the bank has
what it requires, and those that were added are within the depth limit. -/
theorem reached_supplied {schema : Schema} {statement : Sql.Select Sql.Constant} {nextId : UInt64}
    (h : (statement.toQuery schema nextId).1 = .ok (query, names)) (hover : statement.NoOver)
    (hgroups : statement.GroupsPlain schema) (hreads : nextId.toNat + statement.reads < UInt64.size)
    (hcs : NoCollision query.seeds) (hs : (start query names config).Reaches s) :
    ∀ c ∈ s.bank.toList, c.IsSupplied ∧
      (c ∉ (start query names config).bank.toList → c.WithinDepth config.depth) := by
  have hquery := toQuery_supplied h hover hgroups hreads hcs
  intro c hc
  refine ⟨?_, hs.withinDepth hc⟩
  exact hs.bank_forall (start_supplied hquery) (fun u _ _ d hd => hd.supplied)
    (fun u _ _ d hd => hd.supplied) c hc

section Parcels

open Sql (Constant)

def parcels : Table := ⟨"parcels", [("id", .number)], 0⟩

def scans : Table := ⟨"scans", [("parcel", .number)], 1⟩

def parcelTables : Schema := .ofDefs [⟨"parcels", [⟨"id", "int"⟩]⟩, ⟨"scans", [⟨"parcel", "int"⟩]⟩]

def parcelId : Component := .column parcels "id" .number

def scannedParcel : Component := .column scans "parcel" .number

def scanJoin : Sql.TableRef Constant :=
  .join (.table "parcels" none) (.table "scans" none) .inner
    (some (.compare (.column ⟨none, "id"⟩) .eq (.column ⟨none, "parcel"⟩)))

/-- `SELECT id, count(parcel) FROM parcels JOIN scans ON id = parcel GROUP BY 1` -/
def scanCounts : Sql.Select Constant where
  distinct := false
  items := [.expr (.column ⟨none, "id"⟩) none,
    .expr (.call "count" false false [.column ⟨none, "parcel"⟩] none) none]
  sources := [scanJoin]
  filter := none
  groupBy := [.constant (.int 1)]
  having := none
  orderBy := []

def scanSource : Component :=
  .join (.tableSource (.table parcels) none) (.tableSource (.table scans) none) .inner
    (.comparison parcelId .eq scannedParcel)

def scanScope : Scope := [⟨"parcels", "id", parcelId⟩, ⟨"scans", "parcel", scannedParcel⟩]

def scanCountQuery : Component :=
  .query (.select [parcelId, .aggregation .count scannedParcel false]) scanSource .absent
    (.groupList [parcelId]) .absent .absent false

def scanItems : List Component := [parcelId, .aggregation .count scannedParcel false]

theorem scanItems_eq : scanCounts.items.mapM (selectItemValue scanScope) = .ok scanItems := by
  have hid : scanScope.lookup ⟨none, "id"⟩ = .ok parcelId := by cbv
  have hparcel : scanScope.lookup ⟨none, "parcel"⟩ = .ok scannedParcel := by cbv
  have hcount : AggFunc.ofName? "count" = some .count := by cbv
  have hwindow : WindowFunc.ofName? "count" = none := by cbv
  have hreference : referencable scannedParcel = .ok scannedParcel :=
    referencable_rooted (c := scannedParcel) trivial
  simp [scanCounts, scanItems, selectItemValue, Sql.Expr.value, callValue, Sql.Expr.valueEach,
    Sql.Window.value?, hid, hparcel, hcount, hwindow, hreference, bind, Except.bind, pure, Except.pure]

theorem queryOver_scanCounts : queryOver scanSource scanScope scanCounts = .ok (scanCountQuery,
    [⟨"parcels", "id", parcelId⟩, ⟨"", "tmp", .aggChain .count scannedParcel⟩]) := by
  have hgroups : scanCounts.groupBy.mapM (reference scanScope scanCounts.items scanItems) =
      .ok [parcelId] := by
    have hreference : referencable parcelId = .ok parcelId := referencable_rooted (c := parcelId) trivial
    simp [scanCounts, reference, scanItems, outputChain, parcelId, Component.provided]
    exact congrArg (· >>= fun c => pure [c]) hreference
  have houtputs : outputs scanScope scanCounts.items scanItems =
      .ok [⟨"parcels", "id", parcelId⟩, ⟨"", "tmp", .aggChain .count scannedParcel⟩] := by rfl
  have hlist : listOrAbsent Component.groupListOf [parcelId] = .groupList [parcelId] := by
    simp [listOrAbsent, Component.groupListOf, Component.sortedByKey]
  rw [queryOver, scanItems_eq]
  simp only [bind, Except.bind, pure, Except.pure, hgroups, houtputs, hlist]
  rfl

theorem toQuery_scanCounts : (scanCounts.toQuery parcelTables 0).1 = .ok (scanCountQuery, ["id", "tmp"]) := by
  have hjoin : Gives (Sql.TableRef.resolveOnly parcelTables scanCounts.sources) 0
      (scanSource, scanScope) 2 := by cbv
  exact toQuery_of_gives hjoin queryOver_scanCounts

theorem noCollision_scanCounts : NoCollision scanCountQuery.seeds := by
  have hchains : [parcelId, scannedParcel, .aggChain .count scannedParcel].Pairwise
      fun c d => c.fingerprint ≠ d.fingerprint := by
    simp [parcelId, scannedParcel]
    decide +kernel
  have hreach : ∀ c ∈ scanCountQuery.reach false, c.chainFields = [] ∨
      c ∈ [parcelId, scannedParcel, .aggChain .count scannedParcel] := by
    simp [scanCountQuery, scanSource, parcelId, scannedParcel, Component.reach, Component.reachAll,
      Component.chainForm, Component.chainFields]
  have htables : ∀ t, .table t ∈ scanCountQuery.reach false → t = parcels ∨ t = scans := by
    simp [scanCountQuery, scanSource, parcelId, scannedParcel, Component.reach, Component.reachAll,
      Component.chainForm]
  refine Component.noCollision_of_pairwise (fun c hc => ?_) hchains
  obtain hc | ⟨t, ht, hc⟩ := mem_seeds hc
  · exact hreach c hc
  · obtain rfl | rfl := htables t ht
    · cases List.mem_singleton.1 hc
      exact .inr (.head _)
    · cases List.mem_singleton.1 hc
      exact .inr (.tail _ (.head _))

theorem groupsPlain_scanCounts : scanCounts.GroupsPlain parcelTables := by
  have hlevels : scanCounts.levels = [scanCounts] := rfl
  rw [Sql.Select.GroupsPlain, hlevels]
  simp only [List.forall_mem_singleton]
  intro _ _ scope _ _ key hkey
  cases List.mem_singleton.1 hkey
  rintro (hcall | ⟨i, item, hplace, hitem, hcall⟩)
  · cases hcall
  · have hi : i = 0 := by
      simpa [Sql.Expr.itemPlace] using hplace.symm
    subst hi
    cases hitem
    cases hcall

theorem reached_scanCounts :
    (scanCounts.toQuery parcelTables 0).1 = .ok (scanCountQuery, ["id", "tmp"]) ∧ scanCounts.NoOver ∧
      scanCounts.GroupsPlain parcelTables ∧
      (0 : UInt64).toNat + scanCounts.reads < UInt64.size ∧ NoCollision scanCountQuery.seeds ∧
      (start scanCountQuery ["id", "tmp"] {}).Reaches
        (start scanCountQuery ["id", "tmp"] {}).varyAll.step.2 ∧
      ∀ c ∈ (start scanCountQuery ["id", "tmp"] {}).varyAll.step.2.bank.toList, c.IsSupplied ∧
        (c ∉ (start scanCountQuery ["id", "tmp"] {}).bank.toList → c.WithinDepth 2) := by
  have hover : scanCounts.NoOver := by
    simp [Sql.Select.NoOver, scanCounts, scanJoin, Sql.Select.levels, Sql.TableRef.levels,
      Sql.TableRef.levelsEach, Sql.SelectItem.NoOver, Sql.Expr.NoOver, Sql.Expr.NoOverEach,
      Sql.Select.exprs, Sql.TableRef.conditions]
  have hreads : (0 : UInt64).toNat + scanCounts.reads < UInt64.size := by decide
  have hs := (reaches_varyAll (s := start scanCountQuery ["id", "tmp"] {})).step
  exact ⟨toQuery_scanCounts, hover, groupsPlain_scanCounts, hreads, noCollision_scanCounts, hs,
    reached_supplied toQuery_scanCounts hover groupsPlain_scanCounts hreads noCollision_scanCounts hs⟩

end Parcels

end Search

end QuerySearch
