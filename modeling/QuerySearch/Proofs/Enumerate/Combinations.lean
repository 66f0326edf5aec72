import QuerySearch.Proofs.Component.Counted
import QuerySearch.Proofs.Component.Identity
import QuerySearch.Proofs.Search.Shelves

/-! The lists that a workshop finds: each combination of items that the bank holds, in one order, if the list
as a whole can be paid for.  The items are picked by what they cost alone, and this loses none. -/

namespace QuerySearch

open Component (sortedByKey partitionListOf groupListOf sortListOf HashedApart)

inductive Listing where
  | partitions
  | groups
  | sortKeys

namespace Listing

def kind : Listing → Kind
  | partitions => .partitionList
  | groups => .groupList
  | sortKeys => .sortList

def slot : Listing → Category
  | partitions | groups => .referencable
  | sortKeys => .only .sortItem

def of : Listing → List Component → Component
  | partitions => partitionListOf
  | groups => groupListOf
  | sortKeys => sortListOf

variable {l : Listing} {items items' : List Component} {f : Fingerprint}

theorem children_of : (l.of items).children = sortedByKey items := by
  cases l <;> rfl

theorem of_congr (h : sortedByKey items = sortedByKey items') : l.of items = l.of items' := by
  cases l with
  | partitions => exact congrArg Component.partitionList h
  | groups => exact congrArg Component.groupList h
  | sortKeys => exact congrArg Component.sortList h

theorem isMade_of : (l.of items).IsMade := by
  cases l <;> exact ⟨items, rfl⟩

theorem fields_of : (l.of items).fields = ((sortedByKey items).map Component.fingerprint).map .component := by
  cases l <;> rfl

theorem map_fingerprint_of (hapart : HashedApart (l.of items) (l.of items'))
    (h : (l.of items).fingerprint = (l.of items').fingerprint) :
    (sortedByKey items).map Component.fingerprint = (sortedByKey items').map Component.fingerprint := by
  have hfields := Component.fields_of_fingerprint_eq isMade_of isMade_of hapart h
  rw [fields_of, fields_of] at hfields
  exact List.map_injective_iff.2 (fun _ _ => Fingerprint.Field.component.inj) hfields

theorem perm_of_fingerprint (hapart : HashedApart (l.of items) (l.of items'))
    (h : (l.of items).fingerprint = (l.of items').fingerprint) :
    (items.map Component.fingerprint).Perm (items'.map Component.fingerprint) := by
  calc
    (items.map Component.fingerprint).Perm ((sortedByKey items).map Component.fingerprint) :=
      ((Component.sortedByKey_perm items).map _).symm
    _ = (sortedByKey items').map Component.fingerprint := map_fingerprint_of hapart h
    List.Perm _ (items'.map Component.fingerprint) := (Component.sortedByKey_perm items').map _

theorem counter_item_le {c : Component} (hc : c ∈ items) : c.counter.get f ≤ (l.of items).counter.get f := by
  refine Component.counter_child_le ?_ (by rwa [children_of, Component.mem_sortedByKey])
  cases l <;> exact id

end Listing

theorem nodup_combinations {α : Type} {xs : List α} (h : xs.Nodup) (k : Nat) : (combinations k xs).Nodup := by
  induction xs generalizing k with
  | nil => cases k <;> simp [combinations]
  | cons x xs ih =>
    obtain ⟨hx, hxs⟩ := List.nodup_cons.1 h
    cases k with
    | zero => simp [combinations]
    | succ k =>
      rw [combinations]
      refine List.nodup_append.2 ⟨(ih hxs k).map fun _ _ => List.tail_eq_of_cons_eq, ih hxs (k + 1), ?_⟩
      rintro _ hwith zs hwithout rfl
      obtain ⟨ys, _, rfl⟩ := List.mem_map.1 hwith
      exact hx (mem_of_mem_combinations hwithout x (.head _))

namespace Workshop

variable {w : Workshop} {items chosen : List Component}

theorem mem_lists_iff :
    chosen ∈ w.lists items ↔ chosen.Sublist items ∧ chosen ≠ [] ∧ chosen.length ≤ w.limits.listLength :=
  mem_combinations_upTo

theorem nodup_lists (h : items.Nodup) : (w.lists items).Nodup := by
  refine List.nodup_flatMap.2 ⟨fun k _ => nodup_combinations h _, List.nodup_range.imp ?_⟩
  intro k k' hne xs hxs hxs'
  have hlength := (mem_combinations.1 hxs).2
  have hlength' := (mem_combinations.1 hxs').2
  omega

end Workshop

namespace Bank.Orderly

variable {b : Bank} {as bs picked : List Component} {l : Listing}

theorem eq_of_map_fingerprint (h : b.Orderly) (has : ∀ c ∈ as, c ∈ b.toList) (hbs : ∀ c ∈ bs, c ∈ b.toList)
    (hkeys : as.map Component.fingerprint = bs.map Component.fingerprint) : as = bs := by
  induction as generalizing bs with
  | nil => exact (List.map_eq_nil_iff.1 hkeys.symm).symm
  | cons c as ih =>
    obtain ⟨d, bs, rfl, hd, hrest⟩ := List.map_eq_cons_iff.1 hkeys.symm
    rw [List.forall_mem_cons] at has hbs
    rw [h.eq_of_fingerprint has.1 hbs.1 hd.symm, ih has.2 hbs.2 hrest.symm]

theorem sortedByKey_eq (h : b.Orderly) (has : ∀ c ∈ as, c ∈ b.toList) (hperm : as.Perm bs) :
    sortedByKey as = sortedByKey bs := by
  have hbs : ∀ c ∈ bs, c ∈ b.toList := fun c hc => has c (hperm.mem_iff.2 hc)
  refine h.eq_of_map_fingerprint (fun c hc => has c (Component.mem_sortedByKey.1 hc))
    (fun c hc => hbs c (Component.mem_sortedByKey.1 hc)) ?_
  exact Component.map_fingerprint_sortedByKey (hperm.map _)

theorem nodup (h : b.Orderly) (hpicked : picked.Sublist b.toList) : picked.Nodup :=
  (h.pairwise_toList.sublist hpicked).imp fun hne heq => hne (congrArg _ heq)

theorem combination_eq (h : b.Orderly) (hpicked : picked.Sublist b.toList) (has : as.Sublist picked)
    (hbs : bs.Sublist picked) (hsorted : sortedByKey as = sortedByKey bs) : as = bs := by
  refine ((h.nodup hpicked).perm_iff_eq_of_sublist has hbs).1 ?_
  calc
    as.Perm (sortedByKey as) := (Component.sortedByKey_perm as).symm
    _ = sortedByKey bs := hsorted
    List.Perm _ bs := Component.sortedByKey_perm bs

theorem listing_eq (h : b.Orderly) (has : ∀ c ∈ as, c ∈ b.toList) (hbs : ∀ c ∈ bs, c ∈ b.toList)
    (hapart : HashedApart (l.of as) (l.of bs)) (hkey : (l.of as).fingerprint = (l.of bs).fingerprint) :
    sortedByKey as = sortedByKey bs := by
  refine h.eq_of_map_fingerprint (fun c hc => has c (Component.mem_sortedByKey.1 hc))
    (fun c hc => hbs c (Component.mem_sortedByKey.1 hc)) ?_
  exact Listing.map_fingerprint_of hapart hkey

end Bank.Orderly

namespace Workshop

variable {w : Workshop} {l : Listing} {items : List Component} {budget : Int} {c d : Component}

theorem build_listing : w.build l.kind budget =
    ((w.lists (w.pick (w.start budget) l.slot [])).map l.of).filter (w.accepts budget) := by
  cases l <;> rfl

theorem accepts_iff :
    w.accepts budget c = true ↔ (w.estimator.cost c : Int) ≤ budget ∧ w.bank.contains c = false := by
  simp [accepts]

theorem mem_pick_of_cost (hbank : w.bank.Orderly) (hitems : ∀ i ∈ items, i ∈ w.bank.toList ∧ l.slot.admits i.kind)
    (hcost : (w.estimator.cost (l.of items) : Int) ≤ budget) :
    ∀ i ∈ items, i ∈ w.pick (w.start budget) l.slot [] := by
  intro i hi
  obtain ⟨hmem, hslot⟩ := hitems i hi
  obtain ⟨k, hk⟩ := Bank.mem_toList.1 hmem
  obtain rfl := hbank.shelved k i hk
  have hle : w.estimator.cost i ≤ w.estimator.cost (l.of items) := by
    rw [Estimator.cost, Estimator.cost, Estimator.costUnder_eq_costOf, Estimator.costUnder_eq_costOf]
    exact w.estimator.costOf_mono (fun f => Listing.counter_item_le hi) fun f => Nat.le_refl _
  exact mem_pick_iff.2 ⟨⟨⟨i.kind, hslot, hk⟩, rfl⟩, (Int.ofNat_le.2 hle).trans hcost⟩

theorem mem_build_listing (hbank : w.bank.Orderly) : c ∈ w.build l.kind budget ↔
    ∃ items : List Component, items.Nodup ∧ items ≠ [] ∧ items.length ≤ w.limits.listLength ∧
      (∀ i ∈ items, i ∈ w.bank.toList ∧ l.slot.admits i.kind) ∧ c = l.of items ∧
      (w.estimator.cost c : Int) ≤ budget ∧ w.bank.contains c = false := by
  have hpicked : (w.pick (w.start budget) l.slot []).Sublist w.bank.toList := Bank.select_sublist
  rw [build_listing, List.mem_filter, List.mem_map, accepts_iff]
  constructor
  · rintro ⟨⟨items, hitems, rfl⟩, haccepts⟩
    obtain ⟨hsub, hne, hlength⟩ := mem_lists_iff.1 hitems
    have hfits : ∀ i ∈ items, w.Fits l.slot [] i := fun i hi => mem_pick (hsub.subset hi)
    exact ⟨items, (hbank.nodup hpicked).sublist hsub, hne, hlength,
      fun i hi => ⟨(hfits i hi).mem, (hfits i hi).admits hbank⟩, rfl, haccepts⟩
  · rintro ⟨items, hnodup, hne, hlength, hitems, rfl, hcost, hnew⟩
    obtain ⟨chosen, hperm, hsub⟩ := List.subperm_of_subset hnodup (mem_pick_of_cost hbank hitems hcost)
    have hchosen : l.of chosen = l.of items :=
      Listing.of_congr (hbank.sortedByKey_eq (fun i hi => (hitems i (hperm.mem_iff.1 hi)).1) hperm)
    refine ⟨⟨chosen, mem_lists_iff.2 ⟨hsub, ?_, ?_⟩, hchosen⟩, hcost, hnew⟩
    · rintro rfl
      exact hne hperm.nil_eq.symm
    · rwa [hperm.length_eq]

theorem nodup_build_listing (hbank : w.bank.Orderly) : (w.build l.kind budget).Nodup := by
  have hpicked : (w.pick (w.start budget) l.slot []).Sublist w.bank.toList := Bank.select_sublist
  rw [build_listing]
  refine (List.Nodup.map_on (fun as has bs hbs heq => ?_) (nodup_lists (hbank.nodup hpicked))).filter _
  have hsorted := congrArg Component.children heq
  rw [Listing.children_of, Listing.children_of] at hsorted
  exact hbank.combination_eq hpicked (mem_lists_iff.1 has).1 (mem_lists_iff.1 hbs).1 hsorted

theorem eq_of_mem_build_listing (hbank : w.bank.Orderly) (hc : c ∈ w.build l.kind budget)
    (hd : d ∈ w.build l.kind budget) (hapart : HashedApart c d) (hkey : c.fingerprint = d.fingerprint) : c = d := by
  obtain ⟨as, _, _, _, has, rfl, _⟩ := (mem_build_listing hbank).1 hc
  obtain ⟨bs, _, _, _, hbs, rfl, _⟩ := (mem_build_listing hbank).1 hd
  exact Listing.of_congr
    (hbank.listing_eq (fun i hi => (has i hi).1) (fun i hi => (hbs i hi).1) hapart hkey)

/-- The lists of partitions, groups and sort keys that are built within a budget are those over different
components of the bank, at least one and no more than the limit, that cost no more than the budget and that
the bank does not have.  None is built twice, and no two are equal unless the hash collides. -/
theorem build_combinations (cs : List Component) (e : Estimator) (limits : Limits) (l : Listing) (budget : Int) :
    let w : Workshop := ⟨.ofList cs, e, limits⟩
    (∀ c, c ∈ w.build l.kind budget ↔ ∃ items : List Component, items.Nodup ∧ items ≠ [] ∧
      items.length ≤ limits.listLength ∧ (∀ i ∈ items, i ∈ w.bank.toList ∧ l.slot.admits i.kind) ∧
      c = l.of items ∧ (e.cost c : Int) ≤ budget ∧ w.bank.contains c = false) ∧
    (w.build l.kind budget).Nodup ∧
    ∀ c ∈ w.build l.kind budget, ∀ d ∈ w.build l.kind budget, HashedApart c d →
      c.fingerprint = d.fingerprint → c = d := by
  intro w
  have hbank : w.bank.Orderly := Bank.orderly_ofList cs
  exact ⟨fun c => mem_build_listing hbank, nodup_build_listing hbank,
    fun c hc d hd => eq_of_mem_build_listing hbank hc hd⟩

end Workshop

end QuerySearch
