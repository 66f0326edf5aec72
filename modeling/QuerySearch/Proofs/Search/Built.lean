import Mathlib.Data.List.Basic
import QuerySearch.Proofs.Component.Supply
import QuerySearch.Proofs.Enumerate.Affordable

/-! What a workshop can build: each composite with the parts that it is put together from, all of them
from the bank, where their slots look for them and with what is required of them there. -/

namespace QuerySearch

namespace Bank

variable {b : Bank} {c : Component} {cs : List Component}

theorem mem_toList : c ∈ b.toList ↔ ∃ k, c ∈ b.ofKind k := by
  simp [toList, Kind.mem_all]

theorem mem_insert {d : Component} (h : c ∈ (b.insert d).toList) : c ∈ b.toList ∨ c = d := by
  obtain ⟨k, hk⟩ := mem_toList.1 h
  rw [ofKind_insert] at hk
  split at hk
  · cases List.mem_append.1 hk with
    | inl hk => exact .inl (mem_toList.2 ⟨k, hk⟩)
    | inr hk => exact .inr (List.mem_singleton.1 hk)
  · exact .inl (mem_toList.2 ⟨k, hk⟩)

theorem mem_insertAll (h : c ∈ (b.insertAll cs).toList) : c ∈ b.toList ∨ c ∈ cs := by
  induction cs generalizing b with
  | nil => exact .inl h
  | cons d cs ih =>
    cases ih h with
    | inr hc => exact .inr (.tail _ hc)
    | inl hc =>
      cases mem_insert hc with
      | inl hc => exact .inl hc
      | inr hc =>
        subst hc
        exact .inr (.head _)

theorem mem_ofList (h : c ∈ (ofList cs).toList) : c ∈ cs := by
  cases mem_insertAll h with
  | inl h =>
    obtain ⟨k, hk⟩ := mem_toList.1 h
    rw [ofKind_empty] at hk
    cases hk
  | inr h => exact h

theorem mem_of_select {e : Estimator} {slot : Category} {budget : Int} {model : Counter}
    {rs : List Requirement} (h : c ∈ b.select e slot budget model rs) :
    c ∈ b.toList ∧ ∀ q ∈ rs, q.holds c = true := by
  obtain ⟨⟨k, _, hk⟩, hrs, _⟩ := mem_select.1 h
  exact ⟨mem_toList.2 ⟨k, hk⟩, List.all_eq_true.1 hrs⟩

end Bank

theorem mem_combinations {α : Type} {k : Nat} {xs ys : List α} :
    ys ∈ combinations k xs ↔ ys.Sublist xs ∧ ys.length = k := by
  induction xs generalizing k ys with
  | nil => cases k <;> simp +contextual [combinations]
  | cons x xs ih =>
    cases k with
    | zero => simp +contextual [combinations, List.length_eq_zero_iff]
    | succ k =>
      rw [combinations, List.mem_append, List.mem_map]
      simp only [ih]
      constructor
      · rintro (⟨zs, ⟨hzs, rfl⟩, rfl⟩ | ⟨hys, hlength⟩)
        · exact ⟨hzs.cons_cons x, rfl⟩
        · exact ⟨hys.cons x, hlength⟩
      · rintro ⟨hys, hlength⟩
        cases hys with
        | cons _ hys => exact .inr ⟨hys, hlength⟩
        | cons_cons _ hzs => exact .inl ⟨_, ⟨hzs, Nat.succ.inj hlength⟩, rfl⟩

theorem mem_of_mem_combinations {α : Type} {k : Nat} {xs ys : List α} (h : ys ∈ combinations k xs) :
    ∀ y ∈ ys, y ∈ xs :=
  fun _ hy => (mem_combinations.1 h).1.subset hy

theorem mem_combinations_upTo {α : Type} {n : Nat} {xs ys : List α} :
    ys ∈ ((List.range n).flatMap fun k => combinations (k + 1) xs) ↔ ys.Sublist xs ∧ ys ≠ [] ∧ ys.length ≤ n := by
  simp only [List.mem_flatMap, List.mem_range, mem_combinations]
  constructor
  · rintro ⟨k, hk, hsub, hlength⟩
    exact ⟨hsub, List.ne_nil_of_length_pos (by omega), by omega⟩
  · rintro ⟨hsub, hne, hle⟩
    have hpos := List.length_pos_of_ne_nil hne
    exact ⟨ys.length - 1, by omega, hsub, by omega⟩

open Component (SuppliedBy)

open Workshop (argRequirements comparedTypes)

inductive ItemRequirement (groupBy having : Component) : Requirement → Prop
  | aggregations (hgroup : groupBy.isAbsent = true) : ItemRequirement groupBy having .onlyAggregation
  | plain (hgroup : groupBy.isAbsent = true) (hhaving : having.isAbsent = true) :
    ItemRequirement groupBy having .notAggregation
  | grouped (hgroup : groupBy.isAbsent = false) :
    ItemRequirement groupBy having (.groupedBy groupBy.groupKeys)

def QueryBody.clauses (body : QueryBody) : List Component :=
  [body.source, body.filter, body.groupBy, body.having]

def QueryBody.query (body : QueryBody) (items : List Component) (orderBy : Component) (isDistinct : Bool) :
    Component :=
  .query (.select items) body.source body.filter body.groupBy body.having orderBy isDistinct

def Requirement.skipsPlain : Requirement → Bool
  | notAggregation => true
  | _ => false

/-- How a new component comes from a workshop. -/
inductive Built (w : Workshop) : Component → Prop
  | aggChain {func arg} (harg : w.Fits .referencable (argRequirements func) arg) :
    Built w (.aggChain func arg)
  | windowChain {func arg} (harg : w.Fits .chain [] arg) : Built w (.windowChain func arg)
  | aggregation {func arg isDistinct} (harg : w.Fits .referencable (argRequirements func) arg) :
    Built w (.aggregation func arg isDistinct)
  | windowClause {func} : Built w (.windowClause func)
  | partitionList {items} (hitems : ∀ c ∈ items, w.Fits .referencable [] c) :
    Built w (.partitionListOf items)
  | groupList {items} (hitems : ∀ c ∈ items, w.Fits .referencable [] c) : Built w (.groupListOf items)
  | sortItem {chain dir} (hchain : w.Fits .referencable [] chain) : Built w (.sortItem chain dir)
  | sortList {items} (hitems : ∀ c ∈ items, w.Fits (.only .sortItem) [] c) : Built w (.sortListOf items)
  | comparison {l op r type} (hl : w.Fits .value [.present, .typeIn (comparedTypes op)] l)
    (hr : w.Fits .value [.present, .typeIn [type], .notIn [l.fingerprint]] r)
    (htype : l.dataType = some type) : Built w (.comparison l op r)
  | connection {l op r} (hl : w.Fits .predicate [.present] l)
    (hr : w.Fits .predicate [.present, .repeatsNoneOf l] r) : Built w (.connection l op r)
  | aggWindow {call partition orderBy} (hcall : w.Fits (.only .aggregation) [] call)
    (hpartition : w.Fits .partition [] partition) (horder : w.Fits .orderBy [] orderBy) :
    Built w (.aggWindow call partition orderBy)
  | funcWindow {call partition orderBy} (hcall : w.Fits (.only .windowClause) [] call)
    (hpartition : w.Fits .partition [] partition) (horder : w.Fits .orderBy [.present] orderBy) :
    Built w (.funcWindow call partition orderBy)
  | tableSource {t} (ht : w.Fits (.only .table) [] t) : Built w (.tableSource t none)
  | querySource {q} (hq : w.Fits (.only .query) [] q) : Built w (.querySource q none)
  | join {l r type on} (hl : w.Fits .source [.depthAtMost w.sourceDepth] l)
    (hr : w.Fits .source
      [.notIn [l.fingerprint], .depthAtMost w.sourceDepth, .providesNone l.providedKeys] r)
    (hon : w.Fits .predicate
      [.present, .suppliedBy (l.providedKeys ++ r.providedKeys),
        .acrossSides l.providedKeys r.providedKeys, .noAggregation] on) :
    Built w (.join l r type on)
  | query {items source filter groupBy having orderBy isDistinct last}
    (hsource : w.Fits .source [.depthAtMost w.sourceDepth] source)
    (hfilter : w.Fits .predicate [.suppliedBy source.providedKeys, .noAggregation] filter)
    (hgroup : w.Fits .groupBy [.suppliedBy source.providedKeys] groupBy)
    (hhaving : w.Fits .predicate [.suppliedBy source.providedKeys, .groupedBy groupBy.groupKeys] having)
    (hlast : ItemRequirement groupBy having last)
    (hitems : ∀ c ∈ items, w.Fits .selectItem [.suppliedBy source.providedKeys, .present, last] c)
    (hne : items ≠ [])
    (horder : w.Fits .orderBy [.suppliedBy (Component.select items).providedKeys] orderBy) :
    Built w (.query (.select items) source filter groupBy having orderBy isDistinct)

namespace Workshop

variable {w : Workshop} {r : Remainder} {c d : Component} {slot : Category} {rs : List Requirement}
  {q : Requirement}

theorem Fits.mem (h : w.Fits slot rs c) : c ∈ w.bank.toList :=
  Bank.mem_toList.2 (h.1.imp fun _ hk => hk.2)

theorem Fits.holds (h : w.Fits slot rs c) (hq : q ∈ rs) : q.holds c = true := List.all_eq_true.1 h.2 q hq

theorem mem_pick (h : c ∈ w.pick r slot rs) : w.Fits slot rs c := (mem_pick_iff.1 h).1

theorem mem_fill {next : Component → Remainder → List Component} (h : c ∈ w.fill r slot rs next) :
    ∃ d r', w.Fits slot rs d ∧ c ∈ next d r' := by
  obtain ⟨d, hd, hc⟩ := mem_fill_iff.1 h
  exact ⟨d, _, hd.1, hc⟩

theorem mem_lists {items chosen : List Component} (h : chosen ∈ w.lists items) :
    ∀ c ∈ chosen, c ∈ items := by
  obtain ⟨k, _, h⟩ := List.mem_flatMap.1 h
  exact mem_of_mem_combinations h

theorem mem_map_lists {build : List Component → Component}
    (h : c ∈ (w.lists (w.pick r slot rs)).map build) :
    ∃ items, (∀ d ∈ items, w.Fits slot rs d) ∧ build items = c := by
  obtain ⟨items, hitems, rfl⟩ := List.mem_map.1 h
  exact ⟨items, fun d hd => mem_pick (mem_lists hitems d hd), rfl⟩

theorem mem_aggregates {build : AggFunc → Component → List Component}
    (h : c ∈ w.aggregates r build) :
    ∃ func arg, w.Fits .referencable (argRequirements func) arg ∧ c ∈ build func arg := by
  obtain ⟨f, r', _, hc⟩ := mem_fill h
  split at hc
  · obtain ⟨arg, harg, hc⟩ := List.mem_flatMap.1 hc
    exact ⟨_, arg, mem_pick harg, hc⟩
  · cases hc

theorem mem_windowCalls {call : Kind} {build : Component → Component → Component → Component}
    (h : c ∈ w.windowCalls r call rs build) : ∃ func partition orderBy, w.Fits (.only call) [] func ∧
      w.Fits .partition [] partition ∧ w.Fits .orderBy rs orderBy ∧ build func partition orderBy = c := by
  obtain ⟨func, r₁, hfunc, h⟩ := mem_fill h
  obtain ⟨partition, r₂, hpartition, h⟩ := mem_fill h
  obtain ⟨orderBy, horder, rfl⟩ := List.mem_map.1 h
  exact ⟨func, partition, orderBy, hfunc, hpartition, mem_pick (List.mem_of_mem_filter horder), rfl⟩

section Parts

theorem aggChains_built (h : c ∈ w.aggChains r) : Built w c := by
  obtain ⟨func, arg, harg, hc⟩ := mem_aggregates h
  cases List.mem_singleton.1 hc
  exact .aggChain harg

theorem aggregations_built (h : c ∈ w.aggregations r) : Built w c := by
  obtain ⟨func, arg, harg, hc⟩ := mem_aggregates h
  simp only [List.mem_cons, List.not_mem_nil, or_false] at hc
  obtain rfl | rfl := hc
  · exact .aggregation harg
  · exact .aggregation harg

theorem windowChains_built (h : c ∈ w.windowChains r) : Built w c := by
  obtain ⟨f, r', _, hc⟩ := mem_fill h
  split at hc
  · obtain ⟨arg, harg, rfl⟩ := List.mem_map.1 hc
    exact .windowChain (mem_pick harg)
  · cases hc

theorem windowClauses_built (h : c ∈ w.windowClauses r) : Built w c := by
  obtain ⟨f, _, hc⟩ := List.mem_flatMap.1 h
  split at hc
  · cases List.mem_singleton.1 hc
    exact .windowClause
  · cases hc

theorem partitionLists_built (h : c ∈ w.partitionLists r) : Built w c := by
  obtain ⟨items, hitems, rfl⟩ := mem_map_lists h
  exact .partitionList hitems

theorem groupLists_built (h : c ∈ w.groupLists r) : Built w c := by
  obtain ⟨items, hitems, rfl⟩ := mem_map_lists h
  exact .groupList hitems

theorem sortLists_built (h : c ∈ w.sortLists r) : Built w c := by
  obtain ⟨items, hitems, rfl⟩ := mem_map_lists h
  exact .sortList hitems

theorem sortItems_built (h : c ∈ w.sortItems r) : Built w c := by
  obtain ⟨chain, r', hchain, h⟩ := mem_fill h
  obtain ⟨d, _, hc⟩ := List.mem_flatMap.1 h
  split at hc
  · cases List.mem_singleton.1 hc
    exact .sortItem hchain
  · cases hc

theorem comparisons_built (h : c ∈ w.comparisons r) : Built w c := by
  obtain ⟨o, r₁, _, h⟩ := mem_fill h
  split at h
  · obtain ⟨lhs, r₂, hlhs, h⟩ := mem_fill h
    split at h
    · rename_i htype
      obtain ⟨rhs, hrhs, rfl⟩ := List.mem_map.1 h
      exact .comparison hlhs (mem_pick hrhs) htype
    · cases h
  · cases h

theorem connections_built (h : c ∈ w.connections r) : Built w c := by
  obtain ⟨o, r₁, _, h⟩ := mem_fill h
  split at h
  · obtain ⟨lhs, r₂, hlhs, h⟩ := mem_fill h
    obtain ⟨rhs, hrhs, rfl⟩ := List.mem_map.1 h
    exact .connection hlhs (mem_pick hrhs)
  · cases h

theorem aggWindows_built (h : c ∈ w.aggWindows r) : Built w c := by
  obtain ⟨call, partition, orderBy, hcall, hpartition, horder, rfl⟩ := mem_windowCalls h
  exact .aggWindow hcall hpartition horder

theorem funcWindows_built (h : c ∈ w.funcWindows r) : Built w c := by
  obtain ⟨call, partition, orderBy, hcall, hpartition, horder, rfl⟩ := mem_windowCalls h
  exact .funcWindow hcall hpartition horder

theorem tableSources_built (h : c ∈ w.tableSources r) : Built w c := by
  obtain ⟨t, ht, rfl⟩ := List.mem_map.1 h
  exact .tableSource (mem_pick ht)

theorem querySources_built (h : c ∈ w.querySources r) : Built w c := by
  obtain ⟨q, hq, rfl⟩ := List.mem_map.1 h
  exact .querySource (mem_pick hq)

theorem joins_built (h : c ∈ w.joins r) : Built w c := by
  obtain ⟨l, r₁, hl, h⟩ := mem_fill h
  obtain ⟨r, r₂, hr, h⟩ := mem_fill h
  obtain ⟨t, r₃, _, h⟩ := mem_fill h
  split at h
  · obtain ⟨on, hon, rfl⟩ := List.mem_map.1 h
    exact .join hl hr (mem_pick hon)
  · cases h

end Parts

section Requirements

variable {keys : List Fingerprint} {n : Nat}

theorem Fits.suppliedBy (h : w.Fits slot rs c) (hq : .suppliedBy d.providedKeys ∈ rs) : SuppliedBy d c :=
  Component.isSuppliedBy_iff.1 (h.holds hq)

theorem Fits.depth (h : w.Fits slot rs c) (hq : .depthAtMost n ∈ rs) : c.depth ≤ n :=
  of_decide_eq_true (h.holds hq)

theorem Fits.providesNone (h : w.Fits slot rs c) (hq : .providesNone keys ∈ rs) :
    ∀ k ∈ c.providedKeys, k ∉ keys := by
  simpa [Requirement.holds] using h.holds hq

end Requirements

structure BuiltBody (w : Workshop) (body : QueryBody) : Prop where
  source : w.Fits .source [.depthAtMost w.sourceDepth] body.source
  filter : w.Fits .predicate [.suppliedBy body.source.providedKeys, .noAggregation] body.filter
  groupBy : w.Fits .groupBy [.suppliedBy body.source.providedKeys] body.groupBy
  having : w.Fits .predicate
    [.suppliedBy body.source.providedKeys, .groupedBy body.groupBy.groupKeys] body.having

section Queries

variable {budget : Int} {body : QueryBody} {items : List Component} {skipsPlain : Bool}

def left (w : Workshop) (budget : Int) (body : QueryBody) : Remainder :=
  body.clauses.foldl w.after (w.start budget)

def offered (w : Workshop) (budget : Int) (body : QueryBody) (last : Requirement) : List Component :=
  w.pick (w.left budget body) .selectItem [.suppliedBy body.source.providedKeys, .present, last]

theorem mem_completions_iff :
    c ∈ w.completions r budget body skipsPlain items ↔ items ≠ [] ∧ ∃ orderBy isDistinct,
      orderBy ∈ w.pick (w.after r (.select items)) .orderBy
        [.suppliedBy (Component.select items).providedKeys] ∧
      c = body.query items orderBy isDistinct ∧ w.accepts budget c = true ∧
      (skipsPlain = true → c.isPlainSelect = false) := by
  rw [completions]
  by_cases hitems : items = []
  · simp [hitems]
  rw [if_neg (by simpa using hitems)]
  simp only [List.mem_flatMap]
  constructor
  · rintro ⟨orderBy, horder, isDistinct, _, hc⟩
    split at hc
    · rename_i haccepts
      obtain rfl := List.mem_singleton.1 hc
      simp only [Bool.and_eq_true, Bool.not_eq_true', Bool.and_eq_false_iff] at haccepts
      refine ⟨hitems, orderBy, isDistinct, horder, rfl, haccepts.1, fun hskips => ?_⟩
      exact haccepts.2.resolve_left (by simp [hskips])
    · cases hc
  · rintro ⟨_, orderBy, isDistinct, horder, rfl, haccepts, hplain⟩
    refine ⟨orderBy, horder, isDistinct, by cases isDistinct <;> simp, ?_⟩
    rw [if_pos]
    · exact List.mem_singleton_self _
    · cases skipsPlain with
      | true => simpa [QueryBody.query] using And.intro haccepts (hplain rfl)
      | false => simpa [QueryBody.query] using haccepts

theorem mem_queriesOver_iff :
    c ∈ w.queriesOver (w.left budget body) budget body ↔ ∃ last, ItemRequirement body.groupBy body.having last ∧
      c ∈ w.completions (w.left budget body) budget body last.skipsPlain (w.offered budget body last) := by
  rw [queriesOver]
  constructor
  · intro h
    split at h
    · rename_i hgroup
      cases List.mem_append.1 h with
      | inl h => exact ⟨_, .aggregations hgroup, h⟩
      | inr h =>
        split at h
        · rename_i hhaving
          exact ⟨_, .plain hgroup hhaving, h⟩
        · cases h
    · rename_i hgroup
      exact ⟨_, .grouped (Bool.not_eq_true _ ▸ hgroup), h⟩
  · rintro ⟨last, hlast, h⟩
    cases hlast with
    | aggregations hgroup =>
      rw [if_pos hgroup]
      exact List.mem_append_left _ h
    | plain hgroup hhaving =>
      rw [if_pos hgroup, if_pos hhaving]
      exact List.mem_append_right _ h
    | grouped hgroup =>
      rw [if_neg (by simp [hgroup])]
      exact h

/-- How queries come about: clauses that are paid for one after the other, a select list of all that is
offered to them, and an order. -/
theorem mem_queries_iff : c ∈ w.queries budget ↔ ∃ body, BuiltBody w body ∧
    w.Affords (w.start budget) body.clauses ∧ ∃ last, ItemRequirement body.groupBy body.having last ∧
      c ∈ w.completions (w.left budget body) budget body last.skipsPlain (w.offered budget body last) := by
  simp only [← mem_queriesOver_iff]
  constructor
  · intro h
    obtain ⟨source, ⟨hsource, h₁⟩, h⟩ := mem_fill_iff.1 h
    obtain ⟨filter, ⟨hfilter, h₂⟩, h⟩ := mem_fill_iff.1 h
    obtain ⟨groupBy, ⟨hgroup, h₃⟩, h⟩ := mem_fill_iff.1 h
    obtain ⟨having, ⟨hhaving, h₄⟩, h⟩ := mem_fill_iff.1 h
    exact ⟨⟨source, filter, groupBy, having⟩, ⟨hsource, hfilter, hgroup, hhaving⟩, ⟨h₁, h₂, h₃, h₄, trivial⟩, h⟩
  · rintro ⟨body, hbody, ⟨h₁, h₂, h₃, h₄, _⟩, h⟩
    refine mem_fill_iff.2 ⟨body.source, ⟨hbody.source, h₁⟩, ?_⟩
    refine mem_fill_iff.2 ⟨body.filter, ⟨hbody.filter, h₂⟩, ?_⟩
    refine mem_fill_iff.2 ⟨body.groupBy, ⟨hbody.groupBy, h₃⟩, ?_⟩
    exact mem_fill_iff.2 ⟨body.having, ⟨hbody.having, h₄⟩, h⟩

theorem queries_built {budget : Int} (h : c ∈ w.queries budget) : Built w c := by
  obtain ⟨body, hbody, _, last, hlast, h⟩ := mem_queries_iff.1 h
  obtain ⟨hne, orderBy, isDistinct, horder, rfl, _⟩ := mem_completions_iff.1 h
  exact .query hbody.source hbody.filter hbody.groupBy hbody.having hlast (fun _ => mem_pick) hne
    (mem_pick horder)

end Queries

theorem build_built {kind : Kind} {budget : Int} (h : c ∈ w.build kind budget) : Built w c := by
  cases kind with
  | aggChain => exact aggChains_built (List.mem_of_mem_filter h)
  | windowChain => exact windowChains_built (List.mem_of_mem_filter h)
  | aggregation => exact aggregations_built (List.mem_of_mem_filter h)
  | partitionList => exact partitionLists_built (List.mem_of_mem_filter h)
  | windowClause => exact windowClauses_built (List.mem_of_mem_filter h)
  | groupList => exact groupLists_built (List.mem_of_mem_filter h)
  | sortItem => exact sortItems_built (List.mem_of_mem_filter h)
  | sortList => exact sortLists_built (List.mem_of_mem_filter h)
  | connection => exact connections_built (List.mem_of_mem_filter h)
  | comparison => exact comparisons_built (List.mem_of_mem_filter h)
  | aggWindow => exact aggWindows_built (List.mem_of_mem_filter h)
  | funcWindow => exact funcWindows_built (List.mem_of_mem_filter h)
  | tableSource => exact tableSources_built (List.mem_of_mem_filter h)
  | querySource => exact querySources_built (List.mem_of_mem_filter h)
  | join => exact joins_built (List.mem_of_mem_filter h)
  | query => exact queries_built h
  | _ => cases h

end Workshop

section Parts

variable {w : Workshop} {c d : Component}

theorem Built.mem_of_child (h : Built w c) (hd : d ∈ c.children) :
    d ∈ w.bank.toList ∨ ∃ items, d = .select items ∧ ∀ e ∈ items, e ∈ w.bank.toList := by
  cases h with
  | aggChain h | windowChain h | aggregation h | sortItem h | tableSource h | querySource h =>
    cases List.mem_singleton.1 hd
    exact .inl h.mem
  | windowClause => cases hd
  | partitionList hitems | groupList hitems | sortList hitems =>
    exact .inl (hitems d (Component.mem_sortedByKey.1 hd)).mem
  | comparison hl hr | connection hl hr =>
    simp only [Component.children, List.mem_cons, List.not_mem_nil, or_false] at hd
    obtain rfl | rfl := hd
    · exact .inl hl.mem
    · exact .inl hr.mem
  | aggWindow h₁ h₂ h₃ | funcWindow h₁ h₂ h₃ | join h₁ h₂ h₃ =>
    simp only [Component.children, List.mem_cons, List.not_mem_nil, or_false] at hd
    obtain rfl | rfl | rfl := hd
    · exact .inl h₁.mem
    · exact .inl h₂.mem
    · exact .inl h₃.mem
  | query hsource hfilter hgroup hhaving _ hitems _ horder =>
    simp only [Component.children, List.mem_cons, List.not_mem_nil, or_false] at hd
    obtain rfl | rfl | rfl | rfl | rfl | rfl := hd
    · exact .inr ⟨_, rfl, fun e he => (hitems e he).mem⟩
    · exact .inl hsource.mem
    · exact .inl hfilter.mem
    · exact .inl hgroup.mem
    · exact .inl hhaving.mem
    · exact .inl horder.mem

end Parts

end QuerySearch
