import QuerySearch.Proofs.Enumerate.Combinations
import QuerySearch.Proofs.Search.Lists
import QuerySearch.Proofs.Search.Seeded

/-! What the variations reach although each is applied only once.  They come in such an order that in the
end the same lists are there as groups and as partitions, and with a list of groups its parts.  All of it
is free. -/

namespace QuerySearch

namespace Component

def InOrder : Component → Prop
  | .partitionList items | .groupList items => sortedByKey items = items
  | _ => True

section Order

variable {as bs : List Component} {c d : Component}

theorem sortedByKey_of_pairwise (h : (as.map fingerprint).Pairwise fun f g => ¬ g < f) :
    sortedByKey as = as := by
  refine List.mergeSort_of_pairwise ?_
  rw [List.pairwise_map] at h
  exact h.imp (by simp)

theorem sortedByKey_sortedByKey (cs : List Component) : sortedByKey (sortedByKey cs) = sortedByKey cs :=
  sortedByKey_of_pairwise (sortedByKey_pairwise cs)

theorem sortedByKey_of_sublist (h : as.Sublist bs) (hbs : sortedByKey bs = bs) : sortedByKey as = as := by
  have hpairwise := sortedByKey_pairwise bs
  rw [hbs] at hpairwise
  exact sortedByKey_of_pairwise (hpairwise.sublist (h.map _))

theorem eq_groupList_of_fingerprint (h : c.fingerprint = (groupList as).fingerprint) :
    ∃ items, c = .groupList items :=
  (kind_eq_groupList c).1 ((congrArg Fingerprint.kind h).trans ((kind_eq_groupList _).2 ⟨as, rfl⟩))

theorem eq_partitionList_of_fingerprint (h : c.fingerprint = (partitionList as).fingerprint) :
    ∃ items, c = .partitionList items :=
  (kind_eq_partitionList c).1 ((congrArg Fingerprint.kind h).trans ((kind_eq_partitionList _).2 ⟨as, rfl⟩))

theorem inOrder_of_leaf (h : c.children = []) : c.InOrder := by
  cases c with
  | partitionList items | groupList items =>
    obtain rfl : items = [] := h
    exact List.mergeSort_nil
  | _ => trivial

theorem inherited_inOrder : Inherited (Throughout InOrder) := by
  refine inherited_throughout (fun _ hc => inOrder_of_leaf hc.children_eq) (fun c hc => ?_)
    fun _ _ _ _ => trivial
  cases c with
  | aggregation | comparison | connection => trivial
  | _ => exact hc

theorem carriedUp_inOrder : CarriedUp InOrder (fun _ => True) (fun _ => True) fun _ => True := by
  have hcarried : Carried InOrder := {
    leaf := inOrder_of_leaf
    rank := trivial
    aggregate := fun _ _ _ => trivial
    aggregation := fun _ _ => trivial
    aggWindow := trivial
    funcWindow := trivial
    partitionList := fun _ => sortedByKey_sortedByKey _
    groupList := fun _ => sortedByKey_sortedByKey _
    sortItem := fun _ => trivial
    sortList := fun _ => trivial
    select := trivial }
  exact {
    hcarried with
    rows := fun _ hscope _ h => ⟨predicate_throughout hcarried trivial trivial hscope h, trivial⟩
    groups := fun _ hscope _ h => predicate_throughout hcarried trivial trivial hscope h
    absent := trivial
    tableSource := trivial
    querySource := trivial
    join := fun _ => trivial
    query := fun _ _ => trivial }

theorem hashedApart_of_imp (h : c.fingerprint = d.fingerprint → c = d) : HashedApart c d := by
  intro hkind hhash
  have hkey : c.fingerprint = d.fingerprint := by
    rw [fingerprint_eq_ofFields, fingerprint_eq_ofFields d, Fingerprint.ofFields, Fingerprint.ofFields]
    exact Fingerprint.mk.injEq .. ▸ ⟨hkind, hhash⟩
  rw [h hkey]

end Order

end Component

open Component (InOrder HashedApart sortedByKey groupListOf partitionListOf)

namespace Estimator

variable {e : Estimator} {c : Component} {f : Fingerprint} {m n : Nat} {allowance : Counter}

theorem charge_eq_zero_of_le (hle : m ≤ n) (h : e.charge f n = 0) : e.charge f m = 0 := by
  by_cases hm : m = 0
  · rw [charge, if_pos hm]
  · have hn : n ≠ 0 := by omega
    rw [charge, if_neg hn] at h
    rw [charge, if_neg hm]
    by_cases honce : f.kind.isChargedOnce = true
    · rwa [if_pos honce] at h ⊢
    · rw [if_neg honce] at h
      omega

theorem cost_allow (h : e.cost c = 0) : (e.allow allowance).cost c = 0 := by
  rw [cost, costUnder_eq] at h ⊢
  generalize c.counter.entries = es at h ⊢
  induction es with
  | nil => rfl
  | cons x es ih =>
    rw [chargeEach, Nat.add_eq_zero_iff] at h
    have hle : x.2 - (e.allow allowance).model.get x.1 ≤ x.2 - e.model.get x.1 := by
      rw [allow, Counter.get_plus]
      omega
    have hx : (e.allow allowance).charge x.1 (x.2 - (e.allow allowance).model.get x.1) = 0 :=
      charge_eq_zero_of_le hle h.1
    rw [chargeEach, hx, ih h.2]

end Estimator

namespace Variation

variable {b : Bank} {e : Estimator} {c : Component} {items sub chosen given : List Component} {v : Variation}

theorem mem_properSublists :
    sub ∈ properSublists items ↔ sub.Sublist items ∧ sub ≠ [] ∧ sub.length < items.length := by
  rw [properSublists, mem_combinations_upTo]
  refine and_congr_right fun _ => and_congr_right fun hne => ?_
  have hpos := List.length_pos_of_ne_nil hne
  omega

theorem mem_equals {reference : Component} {parts : Component × CompareOp × Component}
    (h : c ∈ equals reference parts) : c = groupListOf [parts.1] ∨ c = groupListOf [parts.2.2] := by
  obtain ⟨l, op, r⟩ := parts
  cases op with
  | eq =>
    rw [equals] at h
    split at h
    · exact .inr (List.mem_singleton.1 h)
    split at h
    · exact .inl (List.mem_singleton.1 h)
    · cases h
  | ne | lt | le => cases h

theorem mem_transitive (h : c ∈ transitive b e items) : ∃ l op r, .comparison l op r ∈ b.toList ∧
    (c = groupListOf [l] ∨ c = groupListOf [r]) := by
  match items, h with
  | [reference], h =>
    obtain ⟨⟨l, op, r⟩, hparts, h⟩ := List.mem_flatMap.1 h
    exact ⟨l, op, r, mem_comparisons hparts, mem_equals h⟩
  | [], h | _ :: _ :: _, h => cases h

theorem mem_orders {parts : Component × CompareOp × Component} (h : c ∈ orders parts) :
    ∃ keys, c = .sortListOf keys := by
  have hascending {d} (h : c ∈ ascending d) : ∃ keys, c = .sortListOf keys := by
    rw [ascending] at h
    split at h
    · exact ⟨_, List.mem_singleton.1 h⟩
    · cases h
  obtain ⟨l, op, r⟩ := parts
  cases op with
  | lt | le => exact (List.mem_append.1 h).elim hascending hascending
  | eq | ne => cases h

def proposes : Variation → List Component → Component
  | .groupToPartition => partitionListOf
  | .inequalityToOrder => .sortListOf
  | _ => groupListOf

theorem mem_proposals (h : c ∈ v.proposals b e) : ∃ items, c = v.proposes items := by
  cases v with
  | groupTransitive =>
    obtain ⟨items, _, h⟩ := List.mem_flatMap.1 h
    obtain ⟨l, _, r, _, h | h⟩ := mem_transitive h
    · exact ⟨[l], h⟩
    · exact ⟨[r], h⟩
  | inequalityToOrder =>
    obtain ⟨parts, _, h⟩ := List.mem_flatMap.1 h
    exact mem_orders h
  | partitionToGroup | groupSubsets | groupSameColumn | groupToPartition =>
    obtain ⟨items, _, rfl⟩ := List.mem_map.1 h
    exact ⟨items, rfl⟩

theorem inOrder_proposals (h : c ∈ v.proposals b e) : c.InOrder := by
  obtain ⟨items, rfl⟩ := mem_proposals h
  cases v with
  | inequalityToOrder => trivial
  | _ => exact Component.sortedByKey_sortedByKey items

theorem exists_sublist_of_forall₂ {r : Component → Component → Prop} (h : List.Forall₂ r chosen items)
    (hsub : sub.Sublist chosen) : ∃ given, given.Sublist items ∧ List.Forall₂ r sub given := by
  induction h generalizing sub with
  | nil =>
    obtain rfl := List.sublist_nil.1 hsub
    exact ⟨[], .slnil, .nil⟩
  | @cons d c _ _ hd _ ih =>
    cases hsub with
    | cons _ hsub =>
      obtain ⟨given, hgiven, hrel⟩ := ih hsub
      exact ⟨given, hgiven.cons c, hrel⟩
    | cons_cons _ hsub =>
      obtain ⟨given, hgiven, hrel⟩ := ih hsub
      exact ⟨c :: given, hgiven.cons_cons c, .cons hd hrel⟩

theorem mem_choices_of_sublist {f : Component → List Component} (h : chosen ∈ choices (items.map f))
    (hsub : sub.Sublist chosen) (hne : sub ≠ []) :
    ∃ given, given.Sublist items ∧ given ≠ [] ∧ sub ∈ choices (given.map f) := by
  have hrel : List.Forall₂ (fun d c => d ∈ f c) chosen items :=
    List.forall₂_map_right_iff.1 ((Search.mem_choices (List.ne_nil_of_mem h)).1 h)
  obtain ⟨given, hgiven, hrel⟩ := exists_sublist_of_forall₂ hrel hsub
  have hgivenne : given ≠ [] := by
    rintro rfl
    exact hne (List.forall₂_nil_right_iff.1 hrel)
  refine ⟨given, hgiven, hgivenne, ?_⟩
  rw [choices, if_neg (by simpa using hgivenne)]
  exact mem_selections.2 (List.forall₂_map_right_iff.2 hrel)

end Variation

namespace Search

variable {s t : Search} {query c : Component} {items sub : List Component} {names : List String}
  {config : SearchConfig} {v : Variation} {m n : Nat}

structure Settled (s : Search) : Prop where
  orderly : s.bank.Orderly
  free : ∀ c ∈ s.bank.toList, s.estimator.cost c = 0
  inOrder : ∀ c ∈ s.bank.toList, c.InOrder

/-- A list of groups in the bank that has the hash of a part of another one is that part. -/
def GroupsApart (b : Bank) : Prop :=
  ∀ items sub items', .groupList items ∈ b.toList → sub.Sublist items → .groupList items' ∈ b.toList →
    (Component.groupList items').fingerprint = (Component.groupList sub).fingerprint → items' = sub

/-- What can be said of a search when all variations are done. -/
structure Closed (s : Search) : Prop where
  /-- The same lists are there as groups and as partitions, unless one has the hash of a list over other
  items. -/
  lists : ∀ items, (∀ c ∈ s.varyAll.bank.toList,
      HashedApart c (groupListOf items) ∧ HashedApart c (partitionListOf items)) →
    (s.varyAll.bank.contains (groupListOf items) = true ↔
      s.varyAll.bank.contains (partitionListOf items) = true)
  /-- The parts of a list of groups are there; where other columns of the same names have been put in, unless
  a list has the hash of a part of another. -/
  parts : ∀ items, .groupList items ∈ s.varyAll.bank.toList →
    .groupList items ∈ (s.varied 3).bank.toList ∨ GroupsApart (s.varied 3).bank →
      ∀ sub, sub.Sublist items → sub ≠ [] → s.varyAll.bank.contains (groupListOf sub) = true
  /-- All that has been proposed is there and free. -/
  proposed : ∀ n (v : Variation), Variation.all[n]? = some v →
    ∀ c ∈ v.proposals (s.varied n).bank (s.varied n).estimator, s.varyAll.bank.contains c = true ∧
      s.varyAll.estimator.cost c = 0

section Variations

theorem contains_vary (h : s.bank.contains c = true) : (s.vary v).bank.contains c = true :=
  (Bank.contains_insertAll _ _ _).2 (.inl h)

theorem contains_of_proposal (h : c ∈ v.proposals s.bank s.estimator) :
    (s.vary v).bank.contains c = true ∧ (s.vary v).estimator.cost c = 0 := by
  refine ⟨(Bank.contains_insertAll _ _ _).2 (.inr ⟨c, h, rfl⟩), Estimator.costUnder_eq_zero fun f => ?_⟩
  rw [vary, Estimator.allow, Counter.get_plus]
  exact (Component.counter_item_le_sum h).trans (Nat.le_add_left _ _)

theorem Settled.vary (h : s.Settled) (v : Variation) : (s.vary v).Settled where
  orderly := h.orderly.insertAll _
  free := fun _ hc => (Bank.mem_insertAll hc).elim (fun hc => Estimator.cost_allow (h.free _ hc))
    fun hc => (contains_of_proposal hc).2
  inOrder := forall_vary h.inOrder fun _ => Variation.inOrder_proposals

theorem varied_succ (h : Variation.all[n]? = some v) : s.varied (n + 1) = (s.varied n).vary v := by
  rw [varied, List.take_add_one, h, List.foldl_append]
  rfl

theorem varied_six : s.varied 6 = s.varyAll := rfl

theorem varied_induction {p : Search → Prop} (hs : p s) (hvary : ∀ t v, p t → p (t.vary v)) (n : Nat) :
    p (s.varied n) := by
  rw [varied]
  generalize Variation.all.take n = vs
  induction vs generalizing s with
  | nil => exact hs
  | cons v vs ih => exact ih (hvary s v hs)

theorem Settled.varied (h : s.Settled) (n : Nat) : (s.varied n).Settled :=
  varied_induction h (fun _ v ht => ht.vary v) n

theorem varied_add (m n : Nat) :
    ∃ vs : List Variation, s.varied (m + n) = vs.foldl Search.vary (s.varied m) := by
  refine ⟨(Variation.all.drop m).take n, ?_⟩
  rw [Search.varied, Search.varied, ← List.foldl_append, List.take_add]

theorem kept_varied (h : (s.varied m).bank.contains c = true ∧ (s.varied m).estimator.cost c = 0)
    (hle : m ≤ n) : (s.varied n).bank.contains c = true ∧ (s.varied n).estimator.cost c = 0 := by
  obtain ⟨k, rfl⟩ := Nat.exists_eq_add_of_le hle
  obtain ⟨vs, hvs⟩ := varied_add (s := s) m k
  rw [hvs]
  clear hvs
  generalize s.varied m = t at h ⊢
  induction vs generalizing t with
  | nil => exact h
  | cons v vs ih => exact ih _ ⟨contains_vary h.1, Estimator.cost_allow h.2⟩

theorem contains_proposed (hv : Variation.all[n]? = some v)
    (h : c ∈ v.proposals (s.varied n).bank (s.varied n).estimator) :
    s.varyAll.bank.contains c = true ∧ s.varyAll.estimator.cost c = 0 := by
  have hlt : n < 6 := (List.getElem?_eq_some_iff.1 hv).1
  have hnext := contains_of_proposal h
  rw [← varied_succ hv] at hnext
  rw [← varied_six]
  exact kept_varied hnext hlt

theorem Settled.contains_of_mem (hs : s.Settled) (h : c ∈ (s.varied n).bank.toList) (hle : n ≤ 6) :
    s.varyAll.bank.contains c = true ∧ s.varyAll.estimator.cost c = 0 := by
  have hn := hs.varied n
  rw [← varied_six]
  exact kept_varied ⟨hn.orderly.contains_of_mem h, hn.free c h⟩ hle

theorem mem_varied_succ (hv : Variation.all[n]? = some v) (h : c ∈ (s.varied (n + 1)).bank.toList) :
    c ∈ (s.varied n).bank.toList ∨ c ∈ v.proposals (s.varied n).bank (s.varied n).estimator := by
  rw [varied_succ hv] at h
  exact Bank.mem_insertAll h

end Variations

section Lists

open Variation (groupLists partitionLists)

theorem Settled.mem_groupLists (h : s.Settled) (hmem : .groupList items ∈ s.bank.toList) :
    items ∈ groupLists s.bank s.estimator := by
  refine List.mem_filterMap.2 ⟨.groupList items, ?_, rfl⟩
  have hfree := Variation.mem_free_of_cost h.orderly hmem (h.free _ hmem)
  rwa [(Component.kind_eq_iff (.groupList items) .groupList).2 rfl] at hfree

theorem Settled.mem_partitionLists (h : s.Settled) (hmem : .partitionList items ∈ s.bank.toList) :
    items ∈ partitionLists s.bank s.estimator := by
  refine List.mem_filterMap.2 ⟨.partitionList items, ?_, rfl⟩
  have hfree := Variation.mem_free_of_cost h.orderly hmem (h.free _ hmem)
  rwa [(Component.kind_eq_iff (.partitionList items) .partitionList).2 rfl] at hfree

theorem groupList_varied_four (h : .groupList items ∈ s.varyAll.bank.toList) :
    .groupList items ∈ (s.varied 4).bank.toList := by
  rw [← varied_six] at h
  have hfive : .groupList items ∈ (s.varied 5).bank.toList := by
    refine (mem_varied_succ (n := 5) rfl h).resolve_right fun hnew => ?_
    obtain ⟨keys, heq⟩ := Variation.mem_proposals hnew
    cases heq
  refine (mem_varied_succ (n := 4) rfl hfive).resolve_right fun hnew => ?_
  obtain ⟨given, heq⟩ := Variation.mem_proposals hnew
  cases heq

theorem partitionList_varied (h : .partitionList items ∈ s.varyAll.bank.toList) :
    .partitionList items ∈ s.bank.toList ∨
      ∃ given, .groupList given ∈ (s.varied 4).bank.toList ∧ items = sortedByKey given := by
  have hnone {n v} (hv : Variation.all[n]? = some v) (hne : v ≠ .groupToPartition)
      (h : .partitionList items ∈ (s.varied (n + 1)).bank.toList) :
      .partitionList items ∈ (s.varied n).bank.toList := by
    refine (mem_varied_succ hv h).resolve_right fun hnew => ?_
    obtain ⟨given, heq⟩ := Variation.mem_proposals hnew
    cases v with
    | groupToPartition => exact hne rfl
    | _ => cases heq
  rw [← varied_six] at h
  have hfive := hnone (n := 5) rfl (by decide) h
  obtain hfour | hnew := mem_varied_succ (n := 4) rfl hfive
  · exact .inl (hnone (n := 0) rfl (by decide) (hnone (n := 1) rfl (by decide)
      (hnone (n := 2) rfl (by decide) (hnone (n := 3) rfl (by decide) hfour))))
  · obtain ⟨given, hgiven, heq⟩ := List.mem_map.1 hnew
    cases heq
    exact .inr ⟨given, Variation.mem_groupLists hgiven, rfl⟩

theorem Settled.contains_partitionListOf (hs : s.Settled) (h : .groupList items ∈ s.varyAll.bank.toList) :
    s.varyAll.bank.contains (partitionListOf items) = true := by
  have hitems := (hs.varied 4).mem_groupLists (groupList_varied_four h)
  have hproposed : partitionListOf items ∈
      Variation.groupToPartition.proposals (s.varied 4).bank (s.varied 4).estimator :=
    List.mem_map_of_mem hitems
  exact (contains_proposed (n := 4) rfl hproposed).1

theorem Settled.contains_groupListOf (hs : s.Settled) (h : .partitionList items ∈ s.varyAll.bank.toList) :
    s.varyAll.bank.contains (groupListOf items) = true := by
  obtain hstart | ⟨given, hgiven, rfl⟩ := partitionList_varied h
  · have hproposed : groupListOf items ∈
        Variation.partitionToGroup.proposals (s.varied 0).bank (s.varied 0).estimator :=
      List.mem_map_of_mem (hs.mem_partitionLists hstart)
    exact (contains_proposed (n := 0) rfl hproposed).1
  · have horder : sortedByKey given = given := (hs.varied 4).inOrder _ hgiven
    rw [groupListOf, horder, horder]
    exact (hs.contains_of_mem hgiven (by decide)).1

theorem Settled.contains_groupListOf_iff (hs : s.Settled) (hapart : ∀ c ∈ s.varyAll.bank.toList,
    HashedApart c (groupListOf items) ∧ HashedApart c (partitionListOf items)) :
    s.varyAll.bank.contains (groupListOf items) = true ↔
      s.varyAll.bank.contains (partitionListOf items) = true := by
  have hsettled : s.varyAll.Settled := varied_six (s := s) ▸ hs.varied 6
  constructor
  · intro h
    obtain ⟨c, hc, hkey⟩ := (hsettled.orderly.indexed _).1 h
    obtain ⟨given, rfl⟩ := Component.eq_groupList_of_fingerprint hkey
    have hmade : .groupList given = groupListOf given := congrArg _ (hsettled.inOrder _ hc).symm
    have hgroups := (hapart _ hc).1
    rw [hmade] at hgroups hkey
    have hperm := Listing.perm_of_fingerprint (l := .groups) hgroups hkey
    rw [Bank.contains, ← (Component.fingerprint_listsOf hperm).2.1]
    exact hs.contains_partitionListOf hc
  · intro h
    obtain ⟨c, hc, hkey⟩ := (hsettled.orderly.indexed _).1 h
    obtain ⟨given, rfl⟩ := Component.eq_partitionList_of_fingerprint hkey
    have hmade : .partitionList given = partitionListOf given := congrArg _ (hsettled.inOrder _ hc).symm
    have hpartitions := (hapart _ hc).2
    rw [hmade] at hpartitions hkey
    have hperm := Listing.perm_of_fingerprint (l := .partitions) hpartitions hkey
    rw [Bank.contains, ← (Component.fingerprint_listsOf hperm).1]
    exact hs.contains_groupListOf hc

end Lists

section Parts

open Variation (groupLists properSublists choices sameName)

theorem contains_sublist_two (hs : s.Settled) (h : .groupList items ∈ (s.varied 2).bank.toList)
    (hsub : sub.Sublist items) (hne : sub ≠ []) : (s.varied 2).bank.contains (groupListOf sub) = true := by
  have hpart {given : List Component} (hgiven : .groupList given ∈ (s.varied 1).bank.toList)
      (hsub : sub.Sublist given) (hlt : sub.length < given.length) :
      (s.varied 2).bank.contains (groupListOf sub) = true := by
    have hproposed : groupListOf sub ∈
        Variation.groupSubsets.proposals (s.varied 1).bank (s.varied 1).estimator :=
      List.mem_map_of_mem (List.mem_flatMap.2 ⟨given, (hs.varied 1).mem_groupLists hgiven,
        Variation.mem_properSublists.2 ⟨hsub, hne, hlt⟩⟩)
    rw [varied_succ (n := 1) rfl]
    exact (contains_of_proposal hproposed).1
  have horder : sortedByKey items = items := (hs.varied 2).inOrder _ h
  by_cases hall : sub.length = items.length
  · rw [hsub.eq_of_length hall, groupListOf, horder]
    exact (hs.varied 2).orderly.contains_of_mem h
  have hlt : sub.length < items.length := Nat.lt_of_le_of_ne hsub.length_le hall
  obtain hold | hnew := mem_varied_succ (n := 1) rfl h
  · exact hpart hold hsub hlt
  · -- a list that has just been proposed is itself a part of one that was there
    obtain ⟨chosen, hchosen, heq⟩ := List.mem_map.1 hnew
    obtain ⟨given, hgiven, hchosen⟩ := List.mem_flatMap.1 hchosen
    obtain ⟨hsublist, -, hshorter⟩ := Variation.mem_properSublists.1 hchosen
    have hmem := Variation.mem_groupLists hgiven
    obtain rfl : sortedByKey chosen = items := Component.groupList.inj heq
    rw [Component.sortedByKey_of_sublist hsublist ((hs.varied 1).inOrder _ hmem)] at hsub hlt
    exact hpart hmem (hsub.trans hsublist) (hlt.trans hshorter)

theorem contains_sublist_three (hs : s.Settled) (h : .groupList items ∈ (s.varied 3).bank.toList)
    (hsub : sub.Sublist items) (hne : sub ≠ []) : (s.varied 3).bank.contains (groupListOf sub) = true := by
  obtain hold | hnew := mem_varied_succ (n := 2) rfl h
  · rw [varied_succ (n := 2) rfl]
    exact contains_vary (contains_sublist_two hs hold hsub hne)
  · obtain ⟨given, _, hnew⟩ := List.mem_flatMap.1 hnew
    obtain ⟨d, heq⟩ : ∃ d, .groupList items = groupListOf [d] := by
      obtain ⟨l, _, r, _, h | h⟩ := Variation.mem_transitive hnew
      · exact ⟨l, h⟩
      · exact ⟨r, h⟩
    obtain rfl : items = [d] := (Component.groupList.inj heq).trans (List.mergeSort_singleton d)
    obtain rfl | rfl := List.sublist_singleton.1 hsub
    · exact absurd rfl hne
    · rw [groupListOf, show sortedByKey [d] = [d] from (hs.varied 3).inOrder _ h]
      exact (hs.varied 3).orderly.contains_of_mem h

theorem Settled.contains_sublist (hs : s.Settled) (h : .groupList items ∈ s.varyAll.bank.toList)
    (hapart : .groupList items ∈ (s.varied 3).bank.toList ∨ GroupsApart (s.varied 3).bank)
    (hsub : sub.Sublist items) (hne : sub ≠ []) : s.varyAll.bank.contains (groupListOf sub) = true := by
  have hthree {c : Component} (h : (s.varied 3).bank.contains c = true) : s.varyAll.bank.contains c = true := by
    obtain ⟨d, hd, hkey⟩ := ((hs.varied 3).orderly.indexed _).1 h
    rw [Bank.contains, ← hkey]
    exact (hs.contains_of_mem hd (by decide)).1
  obtain hold | hnew := mem_varied_succ (n := 3) rfl (groupList_varied_four h)
  · exact hthree (contains_sublist_three hs hold hsub hne)
  obtain hold | hapart := hapart
  · exact hthree (contains_sublist_three hs hold hsub hne)
  obtain ⟨chosen, hchosen, heq⟩ := List.mem_map.1 hnew
  obtain ⟨given, hgiven, hchosen⟩ := List.mem_flatMap.1 hchosen
  have hmem := Variation.mem_groupLists hgiven
  obtain rfl : sortedByKey chosen = items := Component.groupList.inj heq
  -- the part of the sorted choice, in the order in which its items were chosen
  obtain ⟨part, hperm, hpart⟩ := (hsub.subperm.trans (Component.sortedByKey_perm chosen).subperm)
  have hpartne : part ≠ [] := fun hnil => hne (List.nil_perm.1 (hnil ▸ hperm))
  obtain ⟨base, hbase, hbasene, hpart⟩ := Variation.mem_choices_of_sublist hchosen hpart hpartne
  have horder : sortedByKey base = base :=
    Component.sortedByKey_of_sublist hbase ((hs.varied 3).inOrder _ hmem)
  have hcontains := contains_sublist_three hs hmem hbase hbasene
  rw [groupListOf, horder] at hcontains
  obtain ⟨d, hd, hkey⟩ := ((hs.varied 3).orderly.indexed _).1 hcontains
  obtain ⟨base', rfl⟩ := Component.eq_groupList_of_fingerprint hkey
  obtain rfl := hapart given base base' hmem hbase hd hkey
  have hproposed : groupListOf part ∈
      Variation.groupSameColumn.proposals (s.varied 3).bank (s.varied 3).estimator :=
    List.mem_map_of_mem (List.mem_flatMap.2 ⟨_, (hs.varied 3).mem_groupLists hd, hpart⟩)
  rw [Bank.contains, ← (Component.fingerprint_listsOf (hperm.map _)).1]
  exact (contains_proposed (n := 3) rfl hproposed).1

end Parts

theorem settled_start (hquery : Component.Throughout InOrder query) : (start query names config).Settled where
  orderly := orderly_start
  free c hc := by
    have hmem := (List.mem_filter.1 (Bank.mem_ofList hc)).2
    exact beq_iff_eq.1 hmem
  inOrder c hc := by
    refine (forall_mem_start (Component.inherited_inOrder.reach query hquery false) ?_
      (fun _ => Component.inherited_inOrder.word) ?_ c hc).here
    · exact fun _ _ _ => Component.throughout_leaf trivial rfl
    · exact Component.throughout_leaf trivial rfl

theorem settled_of_toQuery {schema : Schema} {statement : Sql.Select Sql.Constant} {nextId : UInt64}
    {outputs : List String} (h : (statement.toQuery schema nextId).1 = .ok (query, outputs)) :
    (start query names config).Settled :=
  settled_start (toQuery_throughout Component.carriedUp_inOrder h
    fun _ _ => ⟨fun _ _ => trivial, fun _ _ => trivial⟩)

/-- Each variation is applied once, and still the lists that the search starts with for a statement are closed
under them, up to collisions of the hash.  What it was offered to start with stays there and free. -/
theorem varyAll_closed {schema : Schema} {statement : Sql.Select Sql.Constant} {nextId : UInt64}
    {outputs : List String} (h : (statement.toQuery schema nextId).1 = .ok (query, outputs))
    (names : List String) (config : SearchConfig) : (start query names config).Closed ∧
      ∀ c ∈ offered query, (start query names config).varyAll.bank.contains c = true ∧
        (start query names config).varyAll.estimator.cost c = 0 := by
  have hs : (start query names config).Settled := settled_of_toQuery h
  have hnameless := toQuery_nameless h
  refine ⟨⟨fun items => hs.contains_groupListOf_iff, fun items hmem hapart sub => ?_,
    fun n v hv c hc => contains_proposed hv hc⟩, fun c hc => ?_⟩
  · exact hs.contains_sublist hmem hapart
  · rw [← varied_six]
    exact kept_varied (m := 0) ⟨contains_start_of_offered hnameless hc, cost_offered hnameless hc⟩
      (by decide)

section Lists

variable {lists : List (List Component)} {t : Table} {b : Bank} {e : Estimator}

/-- The lists of groups and partitions, the sides of comparisons and the tables are these. -/
def Within (lists : List (List Component)) (t : Table) : Component → Prop
  | .groupList items | .partitionList items => items ∈ lists
  | .comparison l _ r => [l] ∈ lists ∧ [r] ∈ lists
  | .table u => u = t
  | _ => True

structure Regrouped (lists : List (List Component)) (t : Table) : Prop where
  inOrder : ∀ items ∈ lists, sortedByKey items = items
  parts : ∀ items ∈ lists, ∀ sub : List Component, sub.Sublist items → sub ≠ [] → sub ∈ lists
  columns : ∀ items ∈ lists, ∀ c ∈ items, c.kind.isReferencable = true →
    ∃ name type, c = .column t name type ∧ ∀ type', (name, type') ∈ t.columns → type' = type

theorem sameName_within (hlists : Regrouped lists t) (hb : ∀ c ∈ b.toList, Within lists t c)
    (horderly : b.Orderly) (hitems : items ∈ lists) (hc : c ∈ items) {d : Component}
    (hd : d ∈ Variation.sameName b e c) : c = d := by
  by_cases hkind : c.kind.isReferencable = true
  · obtain ⟨name, type, rfl, htype⟩ := hlists.columns items hitems c hc hkind
    rw [Variation.sameName, Variation.mem_columnsNamed horderly] at hd
    obtain ⟨u, type', hu, hcolumn, rfl⟩ := hd
    obtain rfl : u = t := hb _ (Variation.mem_free hu)
    rw [htype type' hcolumn]
  · rw [Variation.sameName_of_not_referencable hkind] at hd
    exact (List.mem_singleton.1 hd).symm

theorem choices_within (hlists : Regrouped lists t) (hb : ∀ c ∈ b.toList, Within lists t c)
    (horderly : b.Orderly) (hitems : items ∈ lists) {chosen : List Component}
    (h : chosen ∈ Variation.choices (items.map (Variation.sameName b e))) : chosen = items := by
  have hrel : List.Forall₂ (fun d c => d ∈ Variation.sameName b e c) chosen items :=
    List.forall₂_map_right_iff.1 ((mem_choices (List.ne_nil_of_mem h)).1 h)
  have hpaired : List.Forall₂ (fun c d => c ∈ items ∧ d ∈ Variation.sameName b e c) items chosen :=
    (List.forall₂_and_left _ _).2 ⟨fun _ hc => hc, List.Forall₂.flip hrel⟩
  have hsame : List.Forall₂ Eq items chosen :=
    hpaired.imp fun _ _ h => sameName_within hlists hb horderly hitems h.1 h.2
  rw [List.forall₂_eq_eq_eq] at hsame
  exact hsame.symm

theorem within_proposals (hlists : Regrouped lists t) (hs : ∀ c ∈ s.bank.toList, Within lists t c)
    (horderly : s.bank.Orderly) (h : c ∈ v.proposals s.bank s.estimator) : Within lists t c := by
  have hgroups {items} (h : items ∈ Variation.groupLists s.bank s.estimator) : items ∈ lists :=
    hs _ (Variation.mem_groupLists h)
  have hlist {items : List Component} (hitems : items ∈ lists) :
      Within lists t (groupListOf items) ∧ Within lists t (partitionListOf items) := by
    rw [groupListOf, partitionListOf, hlists.inOrder items hitems]
    exact ⟨hitems, hitems⟩
  cases v with
  | partitionToGroup =>
    obtain ⟨items, hitems, rfl⟩ := List.mem_map.1 h
    exact (hlist (hs _ (Variation.mem_partitionLists hitems))).1
  | groupSubsets =>
    obtain ⟨sub, hsub, rfl⟩ := List.mem_map.1 h
    obtain ⟨items, hitems, hsub⟩ := List.mem_flatMap.1 hsub
    obtain ⟨hsublist, hne, -⟩ := Variation.mem_properSublists.1 hsub
    exact (hlist (hlists.parts items (hgroups hitems) sub hsublist hne)).1
  | groupTransitive =>
    obtain ⟨items, _, h⟩ := List.mem_flatMap.1 h
    obtain ⟨l, op, r, hcomparison, h⟩ := Variation.mem_transitive h
    obtain ⟨hl, hr⟩ := hs _ hcomparison
    obtain rfl | rfl := h
    · exact (hlist hl).1
    · exact (hlist hr).1
  | groupSameColumn =>
    obtain ⟨chosen, hchosen, rfl⟩ := List.mem_map.1 h
    obtain ⟨items, hitems, hchosen⟩ := List.mem_flatMap.1 hchosen
    rw [choices_within hlists hs horderly (hgroups hitems) hchosen]
    exact (hlist (hgroups hitems)).1
  | groupToPartition =>
    obtain ⟨items, hitems, rfl⟩ := List.mem_map.1 h
    exact (hlist (hgroups hitems)).2
  | inequalityToOrder =>
    obtain ⟨keys, rfl⟩ := Variation.mem_proposals h
    trivial

theorem within_start (hreach : ∀ c ∈ query.reach false, Within lists t c) :
    ∀ c ∈ (start query names config).bank.toList, Within lists t c := by
  refine forall_mem_start hreach (fun _ _ _ => trivial) (fun d hd => ?_) trivial
  cases d with
  | distinct | compareOp | logicOp | joinType | aggFunc | windowFunc | sortDir => trivial
  | _ => exact hd.elim

theorem within_varied (hlists : Regrouped lists t) (hreach : ∀ c ∈ query.reach false, Within lists t c)
    (n : Nat) : ∀ c ∈ ((start query names config).varied n).bank.toList, Within lists t c := by
  refine (varied_induction (p := fun s => s.bank.Orderly ∧ ∀ c ∈ s.bank.toList, Within lists t c)
    ⟨orderly_start, within_start hreach⟩ (fun s v hs => ?_) n).2
  exact ⟨hs.1.insertAll _, forall_vary hs.2 fun _ => within_proposals hlists hs.2 hs.1⟩

end Lists

section Collisions

/-- Grouping by this has the hash of grouping by 5. -/
def colliding : Component := .int 3545559070655026109

theorem fingerprint_colliding :
    (groupListOf [colliding]).fingerprint = (Component.groupList [.int 5]).fingerprint ∧
      ∀ items ∈ [[line], [.int 5]],
        (Component.partitionList items).fingerprint ≠ (partitionListOf [colliding]).fingerprint := by
  have hgroups : groupListOf [colliding] = .groupList [colliding] :=
    congrArg Component.groupList (List.mergeSort_singleton _)
  have hpartitions : partitionListOf [colliding] = .partitionList [colliding] :=
    congrArg Component.partitionList (List.mergeSort_singleton _)
  rw [hgroups, hpartitions]
  simp only [List.forall_mem_cons, colliding, line, Component.fingerprint, Component.keys, Keys.same, List.map]
  decide +kernel

theorem regrouped_lines : Regrouped [[line], [.int 5]] rides where
  inOrder items hitems := by
    obtain rfl | rfl := by simpa using hitems
    · exact List.mergeSort_singleton _
    · exact List.mergeSort_singleton _
  parts items hitems sub hsub hne := by
    obtain ⟨c, rfl⟩ : ∃ c, items = [c] := by
      obtain rfl | rfl := by simpa using hitems
      · exact ⟨line, rfl⟩
      · exact ⟨.int 5, rfl⟩
    obtain rfl := (List.sublist_singleton.1 hsub).resolve_left hne
    exact hitems
  columns items hitems c hc hkind := by
    obtain rfl | rfl := by simpa using hitems
    · obtain rfl := List.mem_singleton.1 hc
      exact ⟨"line", .number, rfl, by simp [rides]⟩
    · obtain rfl := List.mem_singleton.1 hc
      exact absurd rfl ((Component.kind_isReferencable_iff _).1 hkind)

theorem within_lineQuery (n : Nat) : ∀ c ∈ ((start lineQuery ["line"] {}).varied n).bank.toList,
    Within [[line], [.int 5]] rides c :=
  within_varied regrouped_lines (by
    simp [lineQuery, lineIs, line, Component.reach, Component.reachAll, Component.chainForm, Within]) n

/-- A list with the hash of one that is there counts as a list of groups, but not as a list of partitions,
for which the hashes differ. -/
theorem not_sameLists_lineQuery :
    (lineRides.toQuery (.ofDefs [⟨"rides", [⟨"line", "int"⟩]⟩]) 0).1 = .ok (lineQuery, ["line"]) ∧
      ¬ ∀ items, ((start lineQuery ["line"] {}).varyAll.bank.contains (groupListOf items) = true ↔
        (start lineQuery ["line"] {}).varyAll.bank.contains (partitionListOf items) = true) := by
  obtain ⟨hsame, hdiffers⟩ := fingerprint_colliding
  refine ⟨toQuery_lineRides, fun hall => ?_⟩
  have hgroups : (start lineQuery ["line"] {}).varyAll.bank.contains (groupListOf [colliding]) = true := by
    rw [Bank.contains, hsame]
    exact (contains_proposed (n := 2) rfl ((transitive_lineQuery _).2 rfl)).1
  have horderly : ((start lineQuery ["line"] {}).varied 6).bank.Orderly :=
    varied_induction (p := fun s => s.bank.Orderly) orderly_start (fun _ _ hs => hs.insertAll _) 6
  have hpartitions := (hall [colliding]).1 hgroups
  rw [← varied_six] at hpartitions
  obtain ⟨c, hc, hkey⟩ := (horderly.indexed _).1 hpartitions
  obtain ⟨items, rfl⟩ := Component.eq_partitionList_of_fingerprint hkey
  exact hdiffers items (within_lineQuery 6 _ hc) hkey

end Collisions

section Stops

open Sql (Constant)

def stops : Table := ⟨"stops", [("line", .number), ("place", .number)], 0⟩

def stopLine : Component := .column stops "line" .number

def stopPlace : Component := .column stops "place" .number

def stopTables : Schema := .ofDefs [⟨"stops", [⟨"line", "int"⟩, ⟨"place", "int"⟩]⟩]

/-- `SELECT line FROM stops GROUP BY line, place` -/
def linePlaces : Sql.Select Constant where
  distinct := false
  items := [.expr (.column ⟨none, "line"⟩) none]
  sources := [.table "stops" none]
  filter := none
  groupBy := [.column ⟨none, "line"⟩, .column ⟨none, "place"⟩]
  having := none
  orderBy := []

def placeQuery : Component :=
  .query (.select [stopLine]) (.tableSource (.table stops) none) .absent (.groupList [stopPlace, stopLine])
    .absent .absent false

def stopLists : List (List Component) := [[stopPlace, stopLine], [stopPlace], [stopLine]]

theorem stopPlace_lt : stopPlace.fingerprint < stopLine.fingerprint := by
  simp only [stopPlace, stopLine, stops, Component.fingerprint, Component.keys, Keys.same]
  decide +kernel

theorem sortedByKey_stops : sortedByKey [stopLine, stopPlace] = [stopPlace, stopLine] := by
  rw [Component.sortedByKey_pair, if_pos stopPlace_lt]

theorem toQuery_linePlaces : (linePlaces.toQuery stopTables 0).1 = .ok (placeQuery, ["line"]) := by
  have hsource : Gives (Sql.TableRef.resolveOnly stopTables linePlaces.sources) 0
      (.tableSource (.table stops) none, [⟨"stops", "line", stopLine⟩, ⟨"stops", "place", stopPlace⟩]) 1 := by
    cbv
  have hline : Scope.lookup [⟨"stops", "line", stopLine⟩, ⟨"stops", "place", stopPlace⟩] ⟨none, "line"⟩ =
      .ok stopLine := by cbv
  have hplace : Scope.lookup [⟨"stops", "line", stopLine⟩, ⟨"stops", "place", stopPlace⟩] ⟨none, "place"⟩ =
      .ok stopPlace := by cbv
  have hchains : referencable stopLine = .ok stopLine ∧ referencable stopPlace = .ok stopPlace :=
    ⟨referencable_rooted (c := stopLine) trivial, referencable_rooted (c := stopPlace) trivial⟩
  have hgroups : listOrAbsent groupListOf [stopLine, stopPlace] = .groupList [stopPlace, stopLine] :=
    congrArg Component.groupList sortedByKey_stops
  have hquery : queryOver (.tableSource (.table stops) none)
      [⟨"stops", "line", stopLine⟩, ⟨"stops", "place", stopPlace⟩] linePlaces =
        .ok (placeQuery, [⟨"stops", "line", stopLine⟩]) := by
    simp [queryOver, linePlaces, selectItemValue, Sql.Expr.value, hline, hplace, predicateOrAbsent, reference,
      hchains, bind, Except.bind, pure, Except.pure, hgroups, placeQuery]
    rfl
  exact toQuery_of_gives hsource hquery

theorem sublist_stops (h : items ∈ stopLists) : items.Sublist [stopPlace, stopLine] := by
  obtain rfl | rfl | rfl := by simpa [stopLists] using h
  all_goals simp

theorem regrouped_stops : Regrouped stopLists stops where
  inOrder items hitems := by
    obtain rfl | rfl | rfl := by simpa [stopLists] using hitems
    · rw [← sortedByKey_stops, Component.sortedByKey_sortedByKey]
    · exact List.mergeSort_singleton _
    · exact List.mergeSort_singleton _
  parts items hitems sub hsub hne := by
    have hall := hsub.trans (sublist_stops hitems)
    simp only [List.sublist_cons_iff, List.sublist_nil, hne, false_or] at hall
    obtain ⟨_, rfl, rfl⟩ | ⟨_, rfl, rfl | ⟨_, rfl, rfl⟩⟩ := hall
    all_goals simp [stopLists]
  columns items hitems c hc hkind := by
    obtain rfl | rfl := by simpa using (sublist_stops hitems).subset hc
    · exact ⟨"place", .number, rfl, by simp [stops]⟩
    · exact ⟨"line", .number, rfl, by simp [stops]⟩

theorem within_placeQuery (n : Nat) : ∀ c ∈ ((start placeQuery ["line"] {}).varied n).bank.toList,
    Within stopLists stops c :=
  within_varied regrouped_stops (by
    simp [placeQuery, stopLine, stopPlace, Component.reach, Component.reachAll, Within, stopLists]) n

theorem nodup_keys_stopLists : (stopLists.map fun items => (Component.groupList items).fingerprint).Nodup ∧
    (stopLists.map fun items => (Component.partitionList items).fingerprint).Nodup := by
  simp only [stopLists, stopPlace, stopLine, stops, Component.fingerprint, Component.keys, Keys.same, List.map]
  decide +kernel

theorem hashedApart_stops (hc : Within stopLists stops c) :
    HashedApart c (groupListOf [stopPlace, stopLine]) ∧ HashedApart c (partitionListOf [stopPlace, stopLine]) := by
  have hmem : [stopPlace, stopLine] ∈ stopLists := .head _
  rw [groupListOf, partitionListOf, regrouped_stops.inOrder _ hmem]
  constructor
  · refine Component.hashedApart_of_imp fun hkey => ?_
    obtain ⟨items, rfl⟩ := Component.eq_groupList_of_fingerprint hkey
    rw [List.inj_on_of_nodup_map nodup_keys_stopLists.1 hc hmem hkey]
  · refine Component.hashedApart_of_imp fun hkey => ?_
    obtain ⟨items, rfl⟩ := Component.eq_partitionList_of_fingerprint hkey
    rw [List.inj_on_of_nodup_map nodup_keys_stopLists.2 hc hmem hkey]

theorem groups_mem_start : .groupList [stopPlace, stopLine] ∈ (start placeQuery ["line"] {}).bank.toList := by
  have hfound : placeQuery.all.contains (.groupList [stopPlace, stopLine]) = true :=
    Component.contains_all_of_constituent (Component.self_mem_all _)
      (by simp [placeQuery, Component.constituents, Component.children])
  obtain ⟨c, hc, hkey⟩ :=
    (orderly_start.indexed _).1 (contains_start_of_all (toQuery_nameless toQuery_linePlaces) hfound)
  obtain ⟨items, rfl⟩ := Component.eq_groupList_of_fingerprint hkey
  obtain rfl : items = [stopPlace, stopLine] := List.inj_on_of_nodup_map nodup_keys_stopLists.1
    (within_placeQuery 0 _ hc) (.head _) hkey
  exact hc

theorem varyAll_closed_placeQuery :
    (linePlaces.toQuery stopTables 0).1 = .ok (placeQuery, ["line"]) ∧
      (∀ c ∈ (start placeQuery ["line"] {}).varyAll.bank.toList,
        HashedApart c (groupListOf [stopPlace, stopLine]) ∧
          HashedApart c (partitionListOf [stopPlace, stopLine])) ∧
      ((start placeQuery ["line"] {}).varyAll.bank.contains (groupListOf [stopPlace, stopLine]) = true ↔
        (start placeQuery ["line"] {}).varyAll.bank.contains (partitionListOf [stopPlace, stopLine]) = true) ∧
      .groupList [stopPlace, stopLine] ∈ ((start placeQuery ["line"] {}).varied 3).bank.toList ∧
      (∀ sub ∈ stopLists, (start placeQuery ["line"] {}).varyAll.bank.contains (groupListOf sub) = true) ∧
      (∀ c ∈ [stopPlace, stopLine], groupListOf [c] ∈ Variation.groupSubsets.proposals
        ((start placeQuery ["line"] {}).varied 1).bank ((start placeQuery ["line"] {}).varied 1).estimator ∧
          (start placeQuery ["line"] {}).varyAll.estimator.cost (groupListOf [c]) = 0) := by
  obtain ⟨hclosed, -⟩ := varyAll_closed toQuery_linePlaces ["line"] {}
  have hapart : ∀ c ∈ (start placeQuery ["line"] {}).varyAll.bank.toList,
      HashedApart c (groupListOf [stopPlace, stopLine]) ∧ HashedApart c (partitionListOf [stopPlace, stopLine]) :=
    fun c hc => hashedApart_stops (within_placeQuery 6 c hc)
  have hone := mem_vary (v := .partitionToGroup) groups_mem_start
  have hthree : .groupList [stopPlace, stopLine] ∈ ((start placeQuery ["line"] {}).varied 3).bank.toList :=
    mem_vary (mem_vary hone)
  have hlast : .groupList [stopPlace, stopLine] ∈ (start placeQuery ["line"] {}).varyAll.bank.toList :=
    mem_vary (mem_vary (mem_vary hthree))
  have hgiven := ((settled_of_toQuery toQuery_linePlaces).varied 1).mem_groupLists hone
  refine ⟨toQuery_linePlaces, hapart, hclosed.lists _ hapart, hthree, fun sub hsub => ?_, fun c hc => ?_⟩
  · have hne : sub ≠ [] := by
      rintro rfl
      simp [stopLists] at hsub
    exact hclosed.parts _ hlast (.inl hthree) sub (sublist_stops hsub) hne
  · have hproposed := List.mem_map_of_mem (f := groupListOf) (List.mem_flatMap.2 ⟨_, hgiven,
      Variation.mem_properSublists.2
        ⟨List.singleton_sublist.2 hc, List.cons_ne_nil _ _, Nat.one_lt_two⟩⟩)
    exact ⟨hproposed, (hclosed.proposed 1 .groupSubsets rfl _ hproposed).2⟩

end Stops

end Search

end QuerySearch
