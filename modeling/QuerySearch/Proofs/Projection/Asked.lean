import QuerySearch.Proofs.Projection.Choices

/-! When a query can be narrowed.  A level of which nothing is needed has no select list, so every
subquery has to be asked for one of its outputs, or to sort by one. -/

namespace QuerySearch.Component

mutual

def SelectiveQuery : Component → Prop
  | .query (.select items) source .. =>
    source.SelectiveSource ∧ ∀ item ∈ items, item.providedKeys.length = 1
  | _ => False

def SelectiveSource : Component → Prop
  | .tableSource .. => True
  | .querySource q _ => q.SelectiveQuery
  | .join l r .. => l.SelectiveSource ∧ r.SelectiveSource
  | _ => False

end

/-- Of every level something is needed or sorted by, whichever items the levels above it keep. -/
def Asked : (needed : List Fingerprint) → Component → Prop
  | needed, .query (.select given) source filter groupBy having orderBy _ =>
    (∃ k ∈ (select given).providedKeys, k ∈ needed ∨ k ∈ orderBy.requiredKeys) ∧
      ∀ kept, OneEach (fun k => k ∈ needed ∨ k ∈ orderBy.requiredKeys) given kept →
        source.Asked (asks kept filter groupBy having orderBy)
  | needed, .querySource q _ => q.Asked needed
  | needed, .join l r _ on => l.Asked (needed ++ on.requiredKeys) ∧ r.Asked (needed ++ on.requiredKeys)
  | _, _ => True

section Asks

variable {needed needed' : List Fingerprint} {wanted : Fingerprint → Prop}
  {given kept kept' : List Component}

theorem Asked.congr {c : Component} (h : ∀ k, k ∈ needed ↔ k ∈ needed') (hasked : c.Asked needed) :
    c.Asked needed' := by
  fun_induction Asked needed c generalizing needed' with
  | case1 needed given source filter groupBy having orderBy isDistinct ih =>
    simpa only [Asked, h] using hasked
  | case2 needed q asName ih => exact ih h hasked
  | case3 needed l r type on ihl ihr =>
    have hon : ∀ k, k ∈ needed ++ on.requiredKeys ↔ k ∈ needed' ++ on.requiredKeys :=
      fun k => by simp only [List.mem_append, h k]
    exact ⟨ihl hon hasked.1, ihr hon hasked.2⟩
  | case4 needed c hquery hsource hjoin =>
    rw [Asked]
    · trivial
    · exact hquery
    · exact hsource
    · exact hjoin

theorem mem_asks_iff {filter groupBy having orderBy : Component} (h : ∀ c, c ∈ kept ↔ c ∈ kept')
    (k : Fingerprint) :
    k ∈ asks kept filter groupBy having orderBy ↔ k ∈ asks kept' filter groupBy having orderBy := by
  simp only [asks, List.mem_append, List.mem_flatMap, h]

theorem OneEach.key (h : OneEach wanted given kept) {item : Component} (hitem : item ∈ kept) :
    ∃ k, item.providedKeys = [k] ∧ item.leadingKey = some k ∧ wanted k := by
  obtain ⟨k, hk⟩ := List.length_eq_one_iff.1 (h.one item hitem)
  have hmem : k ∈ kept.flatMap providedKeys :=
    List.mem_flatMap.2 ⟨item, hitem, by rw [hk, List.mem_singleton]⟩
  exact ⟨k, hk, by rw [leadingKey, hk, List.head?_cons], ((h.provides k).1 hmem).2⟩

theorem OneEach.onePerChain (h : OneEach wanted given kept) : OnePerChain kept := by
  have hkeys : kept.map leadingKey = (kept.flatMap providedKeys).map some := by
    have hone := h.one
    clear h
    induction kept with
    | nil => rfl
    | cons item kept ih =>
      rw [List.forall_mem_cons] at hone
      obtain ⟨k, hk⟩ := List.length_eq_one_iff.1 hone.1
      rw [List.map_cons, ih hone.2, List.flatMap_cons, hk, leadingKey, hk]
      rfl
  apply onePerChain_of_nodup
  rw [hkeys]
  exact h.nodup.map fun _ _ => Option.some.inj

theorem OneEach.mem_of_subset (h : OneEach wanted given kept) (h' : OneEach wanted given kept')
    (hsub : ∀ item ∈ kept, item ∈ kept') : ∀ item ∈ kept', item ∈ kept := by
  intro item hitem
  obtain ⟨k, hk, hkey, _⟩ := h'.key hitem
  have hprovided : k ∈ kept.flatMap providedKeys := by
    rw [h.provides, ← h'.provides]
    exact List.mem_flatMap.2 ⟨item, hitem, by rw [hk, List.mem_singleton]⟩
  obtain ⟨other, hother, hmem⟩ := List.mem_flatMap.1 hprovided
  obtain ⟨k', hk', hkey', _⟩ := h.key hother
  rw [hk', List.mem_singleton] at hmem
  subst hmem
  rw [h'.onePerChain item hitem other (hsub other hother) (hkey.trans hkey'.symm)]
  exact hother

theorem Gathered.exists_oneEach {wanted : Fingerprint → Bool}
    {choices : List (Fingerprint × List Component)} (h : Gathered wanted given choices)
    (hgiven : ∀ item ∈ given, item.providedKeys.length ≤ 1)
    (hkept : OneEach (fun k => wanted k = true) given kept) :
    ∃ kept' ∈ selections (choices.map (·.2)), ∀ c, c ∈ kept ↔ c ∈ kept' := by
  obtain ⟨kept', hkept', hsub⟩ := h.exists_kept hkept.onePerChain fun item hitem => by
    obtain ⟨k, _, hkey, hwanted⟩ := hkept.key hitem
    exact ⟨hkept.isGiven item hitem, k, hkey, hwanted⟩
  have hone := h.oneEach hgiven (mem_selections.1 hkept')
  exact ⟨kept', hkept', fun c => ⟨hsub c, hkept.mem_of_subset hone hsub c⟩⟩

end Asks

section Decided

variable {needed : List Fingerprint} {wanted : Fingerprint → Bool} {given : List Component}
  {source filter groupBy having orderBy : Component}

theorem keptItems_decides (hgiven : ∀ item ∈ given, item.providedKeys.length ≤ 1) :
    Decides (∃ k ∈ (select given).providedKeys, wanted k = true) (· = ProjectionError.unsatisfiable)
      (· = selections ((choices wanted given).map (·.2))) (keptItems wanted (.select given)) := by
  have hkeys := (gathered_choices wanted given).keys
  simp only [exists_leadingKey hgiven] at hkeys
  rw [providedKeys_select, keptItems]
  split
  · rename_i hnone
    refine ⟨?_, rfl⟩
    rintro ⟨k, hk, hwanted⟩
    have hmem := (hkeys k).2 ⟨hwanted, hk⟩
    rw [hnone] at hmem
    cases hmem
  · rename_i hsome
    obtain ⟨c, hc⟩ := List.exists_mem_of_ne_nil _ hsome
    obtain ⟨hwanted, hk⟩ := (hkeys c.1).1 (List.mem_map_of_mem hc)
    exact ⟨⟨c.1, hk, hwanted⟩, rfl⟩

theorem asked_iff_selections (hgiven : ∀ item ∈ given, item.providedKeys.length ≤ 1) :
    (∀ items ∈ selections ((choices wanted given).map (·.2)),
      source.Asked (asks items filter groupBy having orderBy)) ↔
    ∀ kept, OneEach (fun k => wanted k = true) given kept →
      source.Asked (asks kept filter groupBy having orderBy) := by
  have hgathered := gathered_choices wanted given
  constructor
  · intro h kept hkept
    obtain ⟨kept', hkept', hsame⟩ := hgathered.exists_oneEach hgiven hkept
    exact (h kept' hkept').congr (mem_asks_iff fun c => (hsame c).symm)
  · exact fun h items hitems => h items (hgathered.oneEach hgiven (mem_selections.1 hitems))

/-- A query is narrowed if all its levels are asked for something, and else it is unsatisfiable. -/
theorem narrow_decides :
    (∀ needed q, q.SelectiveQuery →
      Decides (q.Asked needed) (· = ProjectionError.unsatisfiable) (fun _ => True) (narrowQuery needed q)) ∧
    ∀ needed s, s.SelectiveSource →
      Decides (s.Asked needed) (· = ProjectionError.unsatisfiable) (fun _ => True) (narrowSource needed s) := by
  apply narrowQuery.mutual_induct
  case case1 =>
    intro needed sel source filter groupBy having orderBy isDistinct ordered clauses ih hq
    cases sel with
    | select given =>
      have hgiven : ∀ item ∈ given, item.providedKeys.length ≤ 1 :=
        fun item hitem => Nat.le_of_eq (hq.2 item hitem)
      rw [narrowQuery]
      apply Decides.congr
      · apply (keptItems_decides hgiven).bind
        rintro lists rfl
        have hgroup (items : List Component) := (ih items hq.1).map fun sources =>
          ⟨sources.map fun s => query (select items) s filter groupBy having orderBy isDistinct, rfl⟩
        exact (Decides.mapM fun items _ => hgroup items).map fun groups => ⟨groups.flatten, rfl⟩
      · rw [Asked]
        simp only [← Bool.or_eq_true, ← List.contains_iff_mem]
        exact and_congr_right fun _ => asked_iff_selections hgiven
    | _ => exact hq.elim
  case case2 =>
    intro needed c hquery hc
    cases c with
    | query => exact absurd rfl (hquery _ _ _ _ _ _ _)
    | _ => exact hc.elim
  case case3 => exact fun needed t asName _ => ⟨trivial, trivial⟩
  case case4 =>
    intro needed q asName ih hq
    exact (ih hq).map fun queries => ⟨_, rfl⟩
  case case5 =>
    intro needed l r type on ihl ihr h
    exact (ihl h.1).bind fun lefts _ => (ihr h.2).map fun rights => ⟨_, rfl⟩
  case case6 =>
    intro needed c htable hquery hjoin hc
    cases c with
    | tableSource => exact absurd rfl (htable _ _)
    | querySource => exact absurd rfl (hquery _ _)
    | join => exact absurd rfl (hjoin _ _ _ _)
    | _ => exact hc.elim

theorem arrange_ok {items : List Component} {outputs : List (Component × String)} {isDistinct : Bool}
    (h : ∀ output ∈ outputs, ∃ item ∈ items, item.leadingKey = some output.1.fingerprint) :
    ∃ form, arrange outputs (.query (.select items) source filter groupBy having orderBy isDistinct) =
      .ok form := by
  have hitems : ∀ output ∈ outputs, ∃ item, outputItem items output.1 output.2 = .ok item := by
    intro output houtput
    obtain ⟨item, hitem, hkey⟩ := h output houtput
    rw [outputItem]
    split
    · exact ⟨_, rfl⟩
    · rename_i hnone
      exact absurd hkey (by simpa using List.find?_eq_none.1 hnone item hitem)
  obtain ⟨arranged, harranged⟩ := exists_ok_mapM hitems
  exact ⟨_, by rw [arrange, harranged]; rfl⟩

theorem provided_arranges {q : Component} {forms : List Component} {names : List String}
    (hq : q.SelectiveQuery) (h : narrowQuery (q.provided.map fingerprint) q = .ok forms) :
    ∀ form ∈ forms, ∃ arranged, arrange (q.provided.zip names) form = .ok arranged := by
  intro form hform
  cases q with
  | query sel source filter groupBy having orderBy isDistinct =>
    obtain ⟨lists, hlists, hforms, _⟩ := narrowQuery_ok h
    obtain ⟨items, hitems, s, rfl⟩ := hforms form hform
    obtain ⟨given, rfl, rfl⟩ := keptItems_ok hlists
    have hone := keptItems_oneEach hlists (fun item hitem => Nat.le_of_eq (hq.2 item hitem)) hitems
    refine arrange_ok fun ⟨chain, name⟩ houtput => ?_
    have hchain : chain ∈ (select given).provided := (List.of_mem_zip houtput).1
    have hkey : chain.fingerprint ∈ items.flatMap providedKeys := by
      rw [hone.provides, ← providedKeys_select, providedKeys_eq, Bool.or_eq_true, List.contains_iff_mem]
      exact ⟨List.mem_map_of_mem hchain, .inl (List.mem_map_of_mem hchain)⟩
    obtain ⟨item, hitem, hmem⟩ := List.mem_flatMap.1 hkey
    obtain ⟨k, hk, hleading, _⟩ := hone.key hitem
    rw [hk, List.mem_singleton] at hmem
    exact ⟨item, hitem, hmem ▸ hleading⟩
  | _ => exact hq.elim

theorem projections_decides {q : Component} {names : List String} (hq : q.SelectiveQuery)
    (hnames : q.provided.length = names.length) :
    Decides (q.Asked (q.provided.map fingerprint)) (· = ProjectionError.unsatisfiable) (· ≠ [])
      (q.projections q.provided names) := by
  have hall : (q.provided.all fun c => q.providedKeys.contains c.fingerprint) = true := by
    rw [List.all_eq_true, providedKeys_eq]
    exact fun c hc => List.contains_iff_mem.2 (List.mem_map_of_mem hc)
  have hnarrow := narrow_decides.1 (q.provided.map fingerprint) q hq
  rw [projections, if_neg (not_not_intro hnames), if_pos hall]
  cases hrun : narrowQuery (q.provided.map fingerprint) q with
  | error e =>
    rw [hrun] at hnarrow
    exact hnarrow
  | ok narrowed =>
    rw [hrun] at hnarrow
    have harranges : ∀ form ∈ narrowed, ∃ arranged, arrange (q.provided.zip names) form = .ok arranged :=
      provided_arranges hq hrun
    obtain ⟨forms, hforms⟩ := exists_ok_mapM harranges
    have hne : forms ≠ [] := by
      rintro rfl
      cases List.forall₂_nil_right_iff.1 (forall₂_of_mapM hforms)
      exact narrow_ne_nil.1 _ _ _ hrun rfl
    change Decides _ _ _ (narrowed.mapM (arrange (q.provided.zip names)))
    rw [hforms]
    exact ⟨hnarrow.1, hne⟩

end Decided

end QuerySearch.Component
