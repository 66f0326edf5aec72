import QuerySearch.Proofs.Resolve.Throughout
import QuerySearch.Proofs.Search.Passes
import QuerySearch.Proofs.Search.Start

/-! The lists of groups, partitions and sort keys in the bank of a search are lists of chains, but for the
values that the variations put in the place of a group that is compared with them. -/

namespace QuerySearch

namespace Component

def ListsChains : Component → Prop
  | .partitionList items | .groupList items => ∀ c ∈ items, c.kind.isReferencable = true
  | .sortItem chain _ => chain.kind.isReferencable = true
  | .sortList items => ∀ c ∈ items, ∃ chain dir, c = .sortItem chain dir ∧ chain.kind.isReferencable = true
  | _ => True

def Groups (query c : Component) : Prop :=
  ∃ items, (.groupList items ∈ query.reach false ∨ .partitionList items ∈ query.reach false) ∧ c ∈ items

/-- The query compares a group or a partition with this for equality. -/
def EquatesGroup (query v : Component) : Prop :=
  ∃ l r reference, .comparison l .eq r ∈ query.reach false ∧ query.Groups reference ∧
    (l.fingerprint = reference.fingerprint ∧ v = r ∨ r.fingerprint = reference.fingerprint ∧ v = l)

/-- Chains are listed, or the one other side of such a comparison. -/
def ListsSides (query c : Component) : Prop :=
  c.ListsChains ∨ ∃ v, (c = .groupList [v] ∨ c = .partitionList [v]) ∧ query.EquatesGroup v

section Lists

variable {c : Component} {items : List Component}

theorem listsChains_groupListOf (h : ∀ c ∈ items, c.kind.isReferencable = true) :
    (groupListOf items).ListsChains := fun c hc => h c (mem_sortedByKey.1 hc)

theorem listsChains_partitionListOf (h : ∀ c ∈ items, c.kind.isReferencable = true) :
    (partitionListOf items).ListsChains := fun c hc => h c (mem_sortedByKey.1 hc)

theorem listsChains_of_leaf (h : c.children = []) : c.ListsChains := by
  cases c with
  | partitionList items | groupList items | sortList items =>
    obtain rfl : items = [] := h
    exact fun c hc => nomatch hc
  | sortItem => cases h
  | _ => trivial

theorem inherited_listsChains : Inherited (Throughout ListsChains) := by
  refine inherited_throughout (fun _ hc => listsChains_of_leaf hc.children_eq) (fun c hc => ?_)
    fun _ _ _ _ => trivial
  cases c with
  | aggregation | comparison | connection => trivial
  | _ => exact hc

theorem carriedUp_listsChains : CarriedUp ListsChains (fun _ => True) (fun _ => True) fun _ => True := by
  have hcarried : Carried ListsChains := {
    leaf := listsChains_of_leaf
    rank := trivial
    aggregate := fun _ _ _ => trivial
    aggregation := fun _ _ => trivial
    aggWindow := trivial
    funcWindow := trivial
    partitionList := listsChains_partitionListOf
    groupList := listsChains_groupListOf
    sortItem := id
    sortList := id
    select := trivial }
  exact {
    hcarried with
    rows := fun _ hscope _ h => ⟨predicate_throughout hcarried trivial trivial hscope h, trivial⟩
    groups := fun _ hscope _ h => predicate_throughout hcarried trivial trivial hscope h
    absent := trivial
    tableSource := trivial
    querySource := trivial
    join := fun _ => trivial
    query := fun _ _ => trivial }

end Lists

end Component

open Component (ListsChains ListsSides EquatesGroup Groups groupListOf partitionListOf)

theorem Built.listsChains {w : Workshop} {query c : Component} (horderly : w.bank.Orderly)
    (hbank : ∀ d ∈ w.bank.toList, query.ListsSides d) (h : Built w c) : c.ListsChains := by
  cases h with
  | partitionList hitems =>
    exact Component.listsChains_partitionListOf fun d hd => (hitems d hd).admits horderly
  | groupList hitems => exact Component.listsChains_groupListOf fun d hd => (hitems d hd).admits horderly
  | sortItem hchain => exact hchain.admits horderly
  | sortList hitems =>
    intro d hd
    have hfits := hitems d (Component.mem_sortedByKey.1 hd)
    have hkind : d.kind = .sortItem := (beq_iff_eq.1 (hfits.admits horderly)).symm
    have hlists := hbank d hfits.mem
    rw [Component.kind_eq_iff] at hkind
    cases d with
    | sortItem chain dir =>
      refine ⟨chain, dir, rfl, hlists.resolve_right ?_⟩
      rintro ⟨v, heq | heq, _⟩
      · cases heq
      · cases heq
    | _ => cases hkind
  | _ => trivial

namespace Variation

variable {b : Bank} {e : Estimator} {query c d : Component} {items chosen : List Component} {v : Variation}

theorem mem_free_of_cost (hb : b.Orderly) (hc : c ∈ b.toList) (hcost : e.cost c = 0) :
    c ∈ free b e c.kind := by
  obtain ⟨k, hk⟩ := Bank.mem_toList.1 hc
  obtain rfl := hb.shelved k c hk
  refine Bank.mem_select.2 ⟨⟨c.kind, ?_, hk⟩, rfl, ?_⟩
  · exact beq_iff_eq.2 rfl
  · exact Int.ofNat_le.2 (Nat.le_of_eq hcost)

theorem mem_free_of_model (hb : b.Orderly) (hc : c ∈ b.toList)
    (hmodel : ∀ f, c.counter.get f ≤ e.model.get f) : c ∈ free b e c.kind :=
  mem_free_of_cost hb hc (Estimator.costUnder_eq_zero hmodel)

structure OfQuery (query c : Component) : Prop where
  lists : c.ListsChains
  groups : ∀ items, c = .groupList items ∨ c = .partitionList items → ∀ i ∈ items, query.Groups i
  comparisons : ∀ l op r, c = .comparison l op r → .comparison l op r ∈ query.reach false

theorem OfQuery.listsSides (h : OfQuery query c) : query.ListsSides c := .inl h.lists

theorem ofQuery_groupListOf (hchains : ∀ i ∈ items, i.kind.isReferencable = true)
    (hgroups : ∀ i ∈ items, query.Groups i) : OfQuery query (groupListOf items) where
  lists := Component.listsChains_groupListOf hchains
  groups items' h := by
    rcases h with h | h
    · cases h
      exact fun i hi => hgroups i (Component.mem_sortedByKey.1 hi)
    · cases h
  comparisons _ _ _ h := nomatch h

section Before

variable (hbank : ∀ d ∈ b.toList, OfQuery query d)

include hbank

theorem ofQuery_partitionToGroup (h : c ∈ partitionToGroup.proposals b e) : OfQuery query c := by
  obtain ⟨items, hitems, rfl⟩ := List.mem_map.1 h
  have hlist := hbank _ (mem_partitionLists hitems)
  exact ofQuery_groupListOf hlist.lists (hlist.groups items (.inr rfl))

theorem ofQuery_groupSubsets (h : c ∈ groupSubsets.proposals b e) : OfQuery query c := by
  obtain ⟨items, hitems, rfl⟩ := List.mem_map.1 h
  obtain ⟨given, hgiven, hitems⟩ := List.mem_flatMap.1 hitems
  obtain ⟨k, _, hitems⟩ := List.mem_flatMap.1 hitems
  have hlist := hbank _ (mem_groupLists hgiven)
  have hsub := mem_of_mem_combinations hitems
  exact ofQuery_groupListOf (fun i hi => hlist.lists i (hsub i hi))
    fun i hi => hlist.groups given (.inl rfl) i (hsub i hi)

theorem listsSides_groupTransitive (h : c ∈ groupTransitive.proposals b e) : query.ListsSides c := by
  obtain ⟨items, hitems, hc⟩ := List.mem_flatMap.1 h
  match items, hc with
  | [reference], hc =>
    have hgroup := (hbank _ (mem_groupLists hitems)).groups _ (.inl rfl) reference (.head _)
    obtain ⟨⟨l, op, r⟩, hparts, hc⟩ := List.mem_flatMap.1 hc
    have hcomparison := (hbank _ (mem_comparisons hparts)).comparisons l op r rfl
    cases op with
    | eq =>
      rw [equals] at hc
      split at hc
      · rename_i hl
        cases List.mem_singleton.1 hc
        exact .inr ⟨r, .inl (by simp [groupListOf, Component.sortedByKey]),
          l, r, reference, hcomparison, hgroup, .inl ⟨Component.beq_iff.1 hl, rfl⟩⟩
      split at hc
      · rename_i hr
        cases List.mem_singleton.1 hc
        exact .inr ⟨l, .inl (by simp [groupListOf, Component.sortedByKey]),
          l, r, reference, hcomparison, hgroup, .inr ⟨Component.beq_iff.1 hr, rfl⟩⟩
      · cases hc
    | ne | lt | le => cases hc
  | [], hc | _ :: _ :: _, hc => cases hc

end Before

theorem referencable_sameName : {c : Component} → c.kind.isReferencable = true →
    ∀ d ∈ sameName b e c, d.kind.isReferencable = true
  | .column t name type, _, d, hd => by
    have hname := (List.mem_filter.1 hd).2
    split at hname
    · exact (Component.kind_isReferencable_iff _).2 nofun
    · cases hname
  | .aggChain func arg, _, d, hd => by
    obtain ⟨arg', _, rfl⟩ := List.mem_map.1 hd
    exact (Component.kind_isReferencable_iff _).2 nofun
  | .windowChain func arg, h, d, hd => by
    rw [List.mem_singleton.1 hd]
    exact h
  | .table _, h, _, _ | .int _, h, _, _ | .float _, h, _, _ | .str _, h, _, _ | .absent, h, _, _
  | .distinct, h, _, _ | .compareOp _, h, _, _ | .logicOp _, h, _, _ | .joinType _, h, _, _
  | .aggFunc _, h, _, _ | .windowFunc _, h, _, _ | .sortDir _, h, _, _ | .aggregation .., h, _, _
  | .windowClause _, h, _, _ | .aggWindow .., h, _, _ | .funcWindow .., h, _, _
  | .partitionList _, h, _, _ | .groupList _, h, _, _ | .sortItem .., h, _, _ | .sortList _, h, _, _
  | .comparison .., h, _, _ | .connection .., h, _, _ | .select _, h, _, _ | .named .., h, _, _
  | .tableSource .., h, _, _ | .querySource .., h, _, _ | .join .., h, _, _ | .query .., h, _, _
  | .boundColumn .., h, _, _ => absurd rfl ((Component.kind_isReferencable_iff _).1 h)

theorem sameName_of_not_referencable (h : c.kind.isReferencable ≠ true) : sameName b e c = [c] := by
  cases c with
  | column | aggChain => exact (h ((Component.kind_isReferencable_iff _).2 nofun)).elim
  | _ => rfl

section After

variable (hbank : ∀ d ∈ b.toList, query.ListsSides d)

include hbank

theorem chains_or_side (h : items ∈ groupLists b e) : (∀ i ∈ items, i.kind.isReferencable = true) ∨
    ∃ v, items = [v] ∧ v.kind.isReferencable ≠ true ∧ query.EquatesGroup v := by
  rcases hbank _ (mem_groupLists h) with hlists | ⟨v, heq | heq, hv⟩
  · exact .inl hlists
  · cases heq
    by_cases hkind : v.kind.isReferencable = true
    · exact .inl (by simpa using hkind)
    · exact .inr ⟨v, rfl, hkind, hv⟩
  · cases heq

theorem listsSides_groupSameColumn (h : c ∈ groupSameColumn.proposals b e) : query.ListsSides c := by
  obtain ⟨items, hitems, rfl⟩ := List.mem_map.1 h
  obtain ⟨given, hgiven, hitems⟩ := List.mem_flatMap.1 hitems
  rcases chains_or_side hbank hgiven with hchains | ⟨v, rfl, hkind, hv⟩
  · refine .inl (Component.listsChains_groupListOf fun d hd => ?_)
    rw [choices] at hitems
    split at hitems
    · cases hitems
    · obtain ⟨i, hi, hmem⟩ := mem_selections_map hitems d hd
      exact referencable_sameName (hchains i hi) d hmem
  · obtain rfl : items = [v] := by
      simpa [choices, selections, sameName_of_not_referencable hkind] using hitems
    exact .inr ⟨v, .inl (by simp [groupListOf, Component.sortedByKey]), hv⟩

theorem listsSides_groupToPartition (h : c ∈ groupToPartition.proposals b e) : query.ListsSides c := by
  obtain ⟨items, hitems, rfl⟩ := List.mem_map.1 h
  rcases chains_or_side hbank hitems with hchains | ⟨v, rfl, _, hv⟩
  · exact .inl (Component.listsChains_partitionListOf hchains)
  · exact .inr ⟨v, .inr (by simp [partitionListOf, Component.sortedByKey]), hv⟩

end After

theorem listsChains_ascending (h : c ∈ ascending d) : c.ListsChains := by
  rw [ascending] at h
  split at h
  · rename_i hkind
    cases List.mem_singleton.1 h
    intro k hk
    cases List.mem_singleton.1 (Component.mem_sortedByKey.1 hk)
    exact ⟨d, .asc, rfl, hkind⟩
  · cases h

theorem listsChains_inequalityToOrder (h : c ∈ inequalityToOrder.proposals b e) : c.ListsChains := by
  obtain ⟨⟨l, op, r⟩, _, hc⟩ := List.mem_flatMap.1 h
  cases op with
  | lt | le =>
    cases List.mem_append.1 hc with
    | inl hc => exact listsChains_ascending hc
    | inr hc => exact listsChains_ascending hc
  | eq | ne => cases hc

end Variation

namespace Search

open Variation (OfQuery)

variable {s t : Search} {query c : Component} {names : List String} {config : SearchConfig}

def varied (s : Search) (n : Nat) : Search := (Variation.all.take n).foldl vary s

theorem forall_vary {p : Component → Prop} {v : Variation} (hbank : ∀ c ∈ s.bank.toList, p c)
    (h : ∀ c ∈ v.proposals s.bank s.estimator, p c) : ∀ c ∈ (s.vary v).bank.toList, p c :=
  fun c hc => (Bank.mem_insertAll hc).elim (hbank c) (h c)

theorem bank_vary_of_nil {v : Variation} (h : v.proposals s.bank s.estimator = []) :
    (s.vary v).bank = s.bank := by
  rw [vary, h]
  rfl

theorem mem_vary {v : Variation} (hc : c ∈ s.bank.toList) : c ∈ (s.vary v).bank.toList :=
  Bank.mem_toList_insertAll hc

theorem model_le_vary {v : Variation} {f : Fingerprint} :
    s.estimator.model.get f ≤ (s.vary v).estimator.model.get f := by
  rw [vary, Estimator.allow, Counter.get_plus]
  exact Nat.le_add_right _ _

theorem listsSides_varied (hstart : ∀ c ∈ s.bank.toList, OfQuery query c) (n : Nat) :
    ∀ c ∈ (s.varied n).bank.toList, query.ListsSides c := by
  have h₁ : ∀ c ∈ (s.varied 1).bank.toList, OfQuery query c :=
    forall_vary hstart fun _ => Variation.ofQuery_partitionToGroup hstart
  have h₂ : ∀ c ∈ (s.varied 2).bank.toList, OfQuery query c :=
    forall_vary h₁ fun _ => Variation.ofQuery_groupSubsets h₁
  have h₃ : ∀ c ∈ (s.varied 3).bank.toList, query.ListsSides c :=
    forall_vary (fun c hc => (h₂ c hc).listsSides) fun _ => Variation.listsSides_groupTransitive h₂
  have h₄ : ∀ c ∈ (s.varied 4).bank.toList, query.ListsSides c :=
    forall_vary h₃ fun _ => Variation.listsSides_groupSameColumn h₃
  have h₅ : ∀ c ∈ (s.varied 5).bank.toList, query.ListsSides c :=
    forall_vary h₄ fun _ => Variation.listsSides_groupToPartition h₄
  match n with
  | 0 => exact fun c hc => (hstart c hc).listsSides
  | 1 => exact fun c hc => (h₁ c hc).listsSides
  | 2 => exact fun c hc => (h₂ c hc).listsSides
  | 3 => exact h₃
  | 4 => exact h₄
  | 5 => exact h₅
  | n + 6 =>
    rw [varied, List.take_of_length_le (Nat.le_add_left 6 n)]
    exact forall_vary h₅ fun _ hc => .inl (Variation.listsChains_inequalityToOrder hc)

theorem listsSides_stepped (hstart : ∀ c ∈ s.bank.toList, OfQuery query c) (horderly : s.bank.Orderly)
    (n : Nat) : ∀ c ∈ (s.stepped n).bank.toList, query.ListsSides c := by
  induction n with
  | zero => exact listsSides_varied hstart 6
  | succ n ih =>
    intro c hc
    rw [stepped, bank_step] at hc
    cases Bank.mem_insertAll hc with
    | inl hc => exact ih c hc
    | inr hc => exact .inl ((discoveries_built hc).listsChains ((reaches_stepped n).orderly horderly) ih)

theorem ofQuery_start (hquery : Component.Throughout ListsChains query)
    (hc : c ∈ (start query names config).bank.toList) : OfQuery query c := by
  have hplain {c : Component} (hlists : c.ListsChains)
      (hgroups : ∀ items, c ≠ .groupList items ∧ c ≠ .partitionList items)
      (hcomparison : ∀ l op r, c ≠ .comparison l op r) : OfQuery query c :=
    ⟨hlists, fun items h => (h.elim (hgroups items).1 (hgroups items).2).elim,
      fun l op r h => (hcomparison l op r h).elim⟩
  refine forall_mem_start (fun c hc => ?_) (fun _ _ _ => hplain trivial (by simp) (by simp)) (fun c hword => ?_)
    (hplain trivial (by simp) (by simp)) c hc
  · refine ⟨(Component.inherited_listsChains.reach query hquery false c hc).here, ?_, ?_⟩
    · rintro items (rfl | rfl) i hi
      · exact ⟨items, .inl hc, hi⟩
      · exact ⟨items, .inr hc, hi⟩
    · rintro l op r rfl
      exact hc
  · cases c with
    | distinct | compareOp | logicOp | joinType | aggFunc | windowFunc | sortDir =>
      exact hplain trivial (by simp) (by simp)
    | _ => exact hword.elim

/-- Whatever the search has listed for grouping, partitioning or sorting can be referred to, unless it is
the only item of its list and the query compares a group or a partition with it for equality. -/
theorem reached_listsSides {schema : Schema} {statement : Sql.Select Sql.Constant} {nextId : UInt64}
    (h : (statement.toQuery schema nextId).1 = .ok (query, names))
    (ht : (∃ n, t = (start query names config).varied n) ∨ ∃ n, t = (start query names config).stepped n) :
    ∀ c ∈ t.bank.toList, query.ListsSides c := by
  have hquery := toQuery_throughout Component.carriedUp_listsChains h
    fun _ _ => ⟨fun _ _ => trivial, fun _ _ => trivial⟩
  have hstart : ∀ c ∈ (start query names config).bank.toList, OfQuery query c :=
    fun c hc => ofQuery_start hquery hc
  obtain ⟨n, rfl⟩ | ⟨n, rfl⟩ := ht
  · exact listsSides_varied hstart n
  · exact listsSides_stepped hstart orderly_start n

theorem exists_mem_start (hc : c ∈ query.all) (hcounter : ∀ f, c.counter.get f ≤ query.counter.get f) :
    ∃ d ∈ (start query names config).bank.toList, d.fingerprint = c.fingerprint := by
  refine Bank.exists_mem_ofList (List.mem_filter.2 ⟨?_, ?_⟩)
  · exact List.mem_append_left _ (List.mem_append_left _ hc)
  · exact beq_iff_eq.2 (Estimator.costUnder_eq_zero fun f =>
      Nat.le_trans (hcounter f) (Estimator.get_le_model f))

section Rides

open Component (sortedByKey)
open Sql (Constant)

def rides : Table := ⟨"rides", [("line", .number)], 0⟩

def line : Component := .column rides "line" .number

/-- `SELECT line FROM rides WHERE line = 5 GROUP BY line` -/
def lineRides : Sql.Select Constant where
  distinct := false
  items := [.expr (.column ⟨none, "line"⟩) none]
  sources := [.table "rides" none]
  filter := some (.compare (.column ⟨none, "line"⟩) .eq (.constant (.int 5)))
  groupBy := [.column ⟨none, "line"⟩]
  having := none
  orderBy := []

def lineIs : Component := .comparison line .eq (.int 5)

def lineQuery : Component :=
  .query (.select [line]) (.tableSource (.table rides) none) lineIs (.groupList [line]) .absent .absent false

theorem toQuery_lineRides :
    (lineRides.toQuery (.ofDefs [⟨"rides", [⟨"line", "int"⟩]⟩]) 0).1 = .ok (lineQuery, ["line"]) := by
  have hsource : Gives (Sql.TableRef.resolveOnly (.ofDefs [⟨"rides", [⟨"line", "int"⟩]⟩]) lineRides.sources) 0
      (.tableSource (.table rides) none, [⟨"rides", "line", line⟩]) 1 := by cbv
  have hlookup : Scope.lookup [⟨"rides", "line", line⟩] ⟨none, "line"⟩ = .ok line := by cbv
  have hreference : referencable line = .ok line := referencable_rooted (c := line) trivial
  have hquery : queryOver (.tableSource (.table rides) none) [⟨"rides", "line", line⟩] lineRides =
      .ok (lineQuery, [⟨"rides", "line", line⟩]) := by
    simp [queryOver, lineRides, selectItemValue, Sql.Expr.value, hlookup, predicateOrAbsent,
      Sql.Expr.predicate, constantValue, normalize, reference, hreference, bind, Except.bind, pure,
      Except.pure, listOrAbsent, groupListOf, sortedByKey, lineQuery, lineIs]
    rfl
  exact toQuery_of_gives hsource hquery

theorem reach_lineQuery : ∀ c ∈ lineQuery.reach false, (c.kind = .groupList → c = .groupList [line]) ∧
    (c.kind = .comparison → c = lineIs) ∧ c.kind ≠ .partitionList := by
  simp only [Component.kind_eq_iff, ne_eq]
  simp [lineQuery, lineIs, line, Component.reach, Component.reachAll, Component.chainForm, Kind.rank,
    Component.ctorIdx, Kind.ctorIdx]

theorem mem_start_lineQuery (h : c ∈ (start lineQuery ["line"] {}).bank.toList) :
    (c.kind = .groupList → c = .groupList [line]) ∧ (c.kind = .comparison → c = lineIs) ∧
      c.kind ≠ .partitionList := by
  have hother {d : Component} (h : d.kind ≠ .groupList ∧ d.kind ≠ .comparison ∧ d.kind ≠ .partitionList) :
      (d.kind = .groupList → d = .groupList [line]) ∧ (d.kind = .comparison → d = lineIs) ∧
        d.kind ≠ .partitionList :=
    ⟨fun hkind => (h.1 hkind).elim, fun hkind => (h.2.1 hkind).elim, h.2.2⟩
  refine forall_mem_start reach_lineQuery (fun _ _ _ => hother ?_) (fun d hword => hother ?_) (hother ?_) c h
  · simp [Component.kind_eq_iff, Kind.rank, Component.ctorIdx, Kind.ctorIdx]
  · cases d with
    | distinct | compareOp | logicOp | joinType | aggFunc | windowFunc | sortDir =>
      simp [Component.kind_eq_iff, Kind.rank, Component.ctorIdx, Kind.ctorIdx]
    | _ => exact hword.elim
  · simp [Component.kind_eq_iff, Kind.rank, Component.ctorIdx, Kind.ctorIdx]

theorem start_lineQuery (hc : c = .groupList [line] ∨ c = lineIs) :
    c ∈ (start lineQuery ["line"] {}).bank.toList ∧ ∀ f, c.counter.get f ≤ lineQuery.counter.get f := by
  have hcounter : ∀ f, c.counter.get f ≤ lineQuery.counter.get f := by
    intro f
    rw [lineQuery, Component.counter]
    rcases hc with rfl | rfl
    · simp
      omega
    · simp
      omega
  have honly : ∀ d : Component, d.fingerprint = c.fingerprint → (d.kind = .groupList → d = .groupList [line]) ∧
      (d.kind = .comparison → d = lineIs) ∧ d.kind ≠ .partitionList → d = c := by
    intro d hkey hd
    have hkind : d.kind = c.kind := congrArg Fingerprint.kind hkey
    rcases hc with rfl | rfl
    · exact hd.1 (hkind.trans ((Component.kind_eq_iff _ _).2 rfl))
    · exact hd.2.1 (hkind.trans ((Component.kind_eq_iff _ _).2 rfl))
  have hpart : c ∈ lineQuery.constituents := by
    rcases hc with rfl | rfl <;> simp [lineQuery, Component.constituents, Component.children]
  have hfound := Component.contains_all_of_constituent (Component.self_mem_all _) hpart
  obtain ⟨d, hd, hkey⟩ := List.mem_map.1 (Component.contains_all_iff.1 hfound)
  obtain rfl := honly d hkey (reach_lineQuery d (Component.mem_reach_of_mem_all hd))
  obtain ⟨d', hd', hkey⟩ := exists_mem_start hd hcounter
  obtain rfl := honly d' hkey (mem_start_lineQuery hd')
  exact ⟨hd', hcounter⟩

theorem groups_lineQuery {b : Bank} {e : Estimator} {items : List Component}
    (hb : b = (start lineQuery ["line"] {}).bank) (h : items ∈ Variation.groupLists b e) : items = [line] := by
  have hlist := (mem_start_lineQuery (hb ▸ Variation.mem_groupLists h)).1 ((Component.kind_eq_iff _ _).2 rfl)
  cases hlist
  rfl

theorem varied_two : ((start lineQuery ["line"] {}).varied 2).bank = (start lineQuery ["line"] {}).bank := by
  have hone : ((start lineQuery ["line"] {}).varied 1).bank = (start lineQuery ["line"] {}).bank := by
    refine bank_vary_of_nil (List.eq_nil_iff_forall_not_mem.2 fun c hc => ?_)
    obtain ⟨items, hitems, _⟩ := List.mem_map.1 hc
    exact (mem_start_lineQuery (Variation.mem_partitionLists hitems)).2.2 ((Component.kind_eq_iff _ _).2 rfl)
  refine Eq.trans (bank_vary_of_nil (List.eq_nil_iff_forall_not_mem.2 fun c hc => ?_)) hone
  obtain ⟨items, hitems, _⟩ := List.mem_map.1 hc
  obtain ⟨given, hgiven, hitems⟩ := List.mem_flatMap.1 hitems
  obtain rfl := groups_lineQuery hone hgiven
  cases hitems

theorem transitive_lineQuery : ∀ c, c ∈ Variation.groupTransitive.proposals
    ((start lineQuery ["line"] {}).varied 2).bank ((start lineQuery ["line"] {}).varied 2).estimator ↔
      c = .groupList [.int 5] := by
  have hlist : groupListOf [.int 5] = .groupList [.int 5] := by simp [groupListOf, sortedByKey]
  have hequals : Variation.equals line (line, .eq, .int 5) = [.groupList [.int 5]] := by
    rw [Variation.equals, if_pos (Component.beq_iff.2 rfl), hlist]
  intro c
  constructor
  · intro hc
    obtain ⟨items, hitems, hc⟩ := List.mem_flatMap.1 hc
    obtain rfl := groups_lineQuery varied_two hitems
    obtain ⟨⟨l, op, r⟩, hparts, hc⟩ := List.mem_flatMap.1 hc
    have hmem := Variation.mem_comparisons hparts
    rw [varied_two] at hmem
    have hcomparison := (mem_start_lineQuery hmem).2.1 ((Component.kind_eq_iff _ _).2 rfl)
    cases hcomparison
    rw [hequals] at hc
    exact List.mem_singleton.1 hc
  · rintro rfl
    have hfree {d : Component} (hd : d = .groupList [line] ∨ d = lineIs) : d ∈ Variation.free
        ((start lineQuery ["line"] {}).varied 2).bank ((start lineQuery ["line"] {}).varied 2).estimator
          d.kind := by
      obtain ⟨hmem, hcounter⟩ := start_lineQuery hd
      refine Variation.mem_free_of_model (varied_two ▸ orderly_start) (varied_two ▸ hmem) fun f => ?_
      have hstart : lineQuery.counter.get f ≤ (start lineQuery ["line"] {}).estimator.model.get f :=
        Estimator.get_le_model f
      exact ((hcounter f).trans hstart).trans (model_le_vary.trans model_le_vary)
    have hgroups := hfree (.inl rfl)
    have hcomparison := hfree (.inr rfl)
    rw [(Component.kind_eq_iff (.groupList [line]) .groupList).2 rfl] at hgroups
    rw [(Component.kind_eq_iff lineIs .comparison).2 rfl] at hcomparison
    refine List.mem_flatMap.2 ⟨[line], List.mem_filterMap.2 ⟨_, hgroups, rfl⟩, ?_⟩
    refine List.mem_flatMap.2 ⟨(line, .eq, .int 5), List.mem_filterMap.2 ⟨_, hcomparison, rfl⟩, ?_⟩
    rw [hequals]
    exact .head _

/-- The search groups by the constant that the only group is compared with. -/
theorem mem_stepped_lineQuery :
    (lineRides.toQuery (.ofDefs [⟨"rides", [⟨"line", "int"⟩]⟩]) 0).1 = .ok (lineQuery, ["line"]) ∧
      .groupList [.int 5] ∈ ((start lineQuery ["line"] {}).stepped 0).bank.toList ∧
      ¬ (Component.groupList [.int 5]).ListsChains := by
  have hkeys : (Component.groupList [line]).fingerprint ≠ (Component.groupList [.int 5]).fingerprint := by
    simp only [line, Component.fingerprint, Component.keys, Keys.same, List.map]
    decide +kernel
  have hthird : .groupList [.int 5] ∈ ((start lineQuery ["line"] {}).varied 3).bank.toList := by
    have hinserted := (Bank.contains_insertAll ((start lineQuery ["line"] {}).varied 2).bank
      (Variation.groupTransitive.proposals ((start lineQuery ["line"] {}).varied 2).bank
        ((start lineQuery ["line"] {}).varied 2).estimator) (.groupList [.int 5])).2
          (.inr ⟨_, (transitive_lineQuery _).2 rfl, rfl⟩)
    have horderly : ((start lineQuery ["line"] {}).varied 2).bank.Orderly := varied_two ▸ orderly_start
    obtain ⟨d, hd, hkey⟩ := ((horderly.insertAll _).indexed _).1 hinserted
    cases Bank.mem_insertAll hd with
    | inl hold =>
      have hkind : d.kind = .groupList :=
        (congrArg Fingerprint.kind hkey).trans ((Component.kind_eq_iff (.groupList [.int 5]) _).2 rfl)
      rw [(mem_start_lineQuery (varied_two ▸ hold)).1 hkind] at hkey
      exact absurd hkey hkeys
    | inr hnew =>
      obtain rfl := (transitive_lineQuery d).1 hnew
      exact hd
  refine ⟨toQuery_lineRides, mem_vary (mem_vary (mem_vary hthird)), fun hlists => ?_⟩
  exact absurd rfl ((Component.kind_isReferencable_iff _).1 (hlists (.int 5) (.head _)))

theorem reached_lineQuery :
    (lineRides.toQuery (.ofDefs [⟨"rides", [⟨"line", "int"⟩]⟩]) 0).1 = .ok (lineQuery, ["line"]) ∧
      (∃ n, (start lineQuery ["line"] {}).varyAll.step.2 = (start lineQuery ["line"] {}).stepped n) ∧
      ∀ c ∈ (start lineQuery ["line"] {}).varyAll.step.2.bank.toList, lineQuery.ListsSides c :=
  ⟨toQuery_lineRides, ⟨1, rfl⟩, reached_listsSides toQuery_lineRides (.inr ⟨1, rfl⟩)⟩

end Rides

end Search

end QuerySearch
