import QuerySearch.Component.Lemmas
import QuerySearch.Proofs.Outcomes
import QuerySearch.Proofs.Projection.Narrowed

/-! What narrowing a query gives: the items for each chain are found together, and each form is made of
one of them for each chain. -/

namespace QuerySearch

theorem mem_selections {α : Type} {xss : List (List α)} {xs : List α} :
    xs ∈ selections xss ↔ List.Forall₂ (· ∈ ·) xs xss := by
  induction xss generalizing xs with
  | nil => simp [selections]
  | cons ys yss ih =>
    simp only [selections, List.mem_flatMap, List.mem_map, ih]
    constructor
    · rintro ⟨y, hy, zs, hzs, rfl⟩
      exact .cons hy hzs
    · rintro (_ | ⟨hy, hzs⟩)
      exact ⟨_, hy, _, hzs, rfl⟩

namespace Component

structure Gathered (wanted : Fingerprint → Bool) (seen : List Component)
    (choices : List (Fingerprint × List Component)) : Prop where
  nodup : (choices.map (·.1)).Nodup
  keys : ∀ k, k ∈ choices.map (·.1) ↔ wanted k = true ∧ ∃ item ∈ seen, item.leadingKey = some k
  alternatives : ∀ c ∈ choices, c.2 = seen.filter fun item => item.leadingKey == some c.1

section Choices

variable {wanted : Fingerprint → Bool} {seen items : List Component} {item : Component}
  {choices : List (Fingerprint × List Component)} {key : Fingerprint}

theorem map_addChoice (choices : List (Fingerprint × List Component)) (key : Fingerprint)
    (item : Component) : (addChoice choices key item).map (·.1) =
      if key ∈ choices.map (·.1) then choices.map (·.1) else choices.map (·.1) ++ [key] := by
  induction choices with
  | nil => rfl
  | cons c choices ih =>
    rw [addChoice]
    by_cases hc : c.1 = key
    · simp [hc]
    · simp only [hc, if_false, List.map_cons, ih, List.mem_cons, Ne.symm hc, false_or]
      split <;> rfl

theorem mem_addChoice {c : Fingerprint × List Component} (hnodup : (choices.map (·.1)).Nodup)
    (hc : c ∈ addChoice choices key item) :
    (c.1 ≠ key ∧ c ∈ choices) ∨ (c = (key, [item]) ∧ key ∉ choices.map (·.1)) ∨
      ∃ alternatives, (key, alternatives) ∈ choices ∧ c = (key, alternatives ++ [item]) := by
  induction choices with
  | nil =>
    rw [addChoice, List.mem_singleton] at hc
    exact .inr (.inl ⟨hc, by simp⟩)
  | cons d choices ih =>
    obtain ⟨k, alternatives⟩ := d
    rw [List.map_cons, List.nodup_cons] at hnodup
    rw [addChoice] at hc
    split at hc
    case isTrue hk =>
      subst hk
      cases hc with
      | head => exact .inr (.inr ⟨alternatives, .head _, rfl⟩)
      | tail _ hc =>
        refine .inl ⟨?_, .tail _ hc⟩
        rintro rfl
        exact hnodup.1 (List.mem_map.2 ⟨c, hc, rfl⟩)
    case isFalse hk =>
      cases hc with
      | head => exact .inl ⟨hk, .head _⟩
      | tail _ hc =>
        obtain ⟨hne, hmem⟩ | ⟨hnew, hfresh⟩ | ⟨as, hmem, hold⟩ := ih hnodup.2 hc
        · exact .inl ⟨hne, .tail _ hmem⟩
        · exact .inr (.inl ⟨hnew, by simp [Ne.symm hk, hfresh]⟩)
        · exact .inr (.inr ⟨as, .tail _ hmem, hold⟩)

theorem Gathered.skip (h : Gathered wanted seen choices)
    (hitem : ∀ k, item.leadingKey = some k → wanted k = false) :
    Gathered wanted (seen ++ [item]) choices where
  nodup := h.nodup
  keys k := by
    rw [h.keys]
    refine and_congr_right fun hk => ?_
    simp only [List.mem_append, List.mem_singleton, or_and_right, exists_or, exists_eq_left]
    refine (or_iff_left fun hitem' => ?_).symm
    rw [hitem k hitem'] at hk
    cases hk
  alternatives c hc := by
    have hkey : wanted c.1 = true := ((h.keys c.1).1 (List.mem_map_of_mem hc)).1
    have hne : item.leadingKey ≠ some c.1 := by
      intro heq
      rw [hitem c.1 heq] at hkey
      cases hkey
    rw [h.alternatives c hc]
    simp [List.filter_append, hne]

theorem Gathered.add (h : Gathered wanted seen choices) (hkey : item.leadingKey = some key)
    (hwanted : wanted key = true) :
    Gathered wanted (seen ++ [item]) (addChoice choices key item) where
  nodup := by
    rw [map_addChoice]
    split
    · exact h.nodup
    · rename_i hfresh
      refine List.nodup_append.2 ⟨h.nodup, by simp, ?_⟩
      rintro k hk _ hkey rfl
      cases List.mem_singleton.1 hkey
      exact hfresh hk
  keys k := by
    have hmem : k ∈ (addChoice choices key item).map (·.1) ↔ k ∈ choices.map (·.1) ∨ k = key := by
      rw [map_addChoice]
      split
      · rename_i hold
        refine (or_iff_left_of_imp ?_).symm
        rintro rfl
        exact hold
      · rw [List.mem_append, List.mem_singleton]
    rw [hmem, h.keys]
    simp only [List.mem_append, List.mem_singleton, or_and_right, exists_or, exists_eq_left, hkey,
      Option.some.injEq]
    constructor
    · rintro (⟨hk, hseen⟩ | rfl)
      · exact ⟨hk, .inl hseen⟩
      · exact ⟨hwanted, .inr rfl⟩
    · rintro ⟨hk, hseen | rfl⟩
      · exact .inl ⟨hk, hseen⟩
      · exact .inr rfl
  alternatives c hc := by
    obtain ⟨hne, hmem⟩ | ⟨rfl, hfresh⟩ | ⟨alternatives, hmem, rfl⟩ := mem_addChoice h.nodup hc
    · rw [h.alternatives c hmem]
      simp [List.filter_append, hkey, Ne.symm hne]
    · rw [h.keys] at hfresh
      have hnone : (seen.filter fun item => item.leadingKey == some key) = [] := by
        rw [List.filter_eq_nil_iff]
        intro other hother heq
        exact hfresh ⟨hwanted, other, hother, by simpa using heq⟩
      simp [List.filter_append, hkey, hnone]
    · have hold : alternatives = seen.filter fun item => item.leadingKey == some key :=
        h.alternatives _ hmem
      simp [List.filter_append, hkey, hold]

def gather (wanted : Fingerprint → Bool) (choices : List (Fingerprint × List Component))
    (item : Component) : List (Fingerprint × List Component) :=
  match item.leadingKey with
  | some key => if wanted key then addChoice choices key item else choices
  | none => choices

theorem Gathered.gather (h : Gathered wanted seen choices) :
    Gathered wanted (seen ++ [item]) (gather wanted choices item) := by
  rw [Component.gather]
  split
  · rename_i key hkey
    split
    · exact h.add hkey ‹_›
    · apply h.skip
      intro k hk
      rw [hkey] at hk
      cases hk
      simpa using ‹¬ wanted key = true›
  · rename_i hnone
    apply h.skip
    intro k hk
    rw [hnone] at hk
    cases hk

theorem gathered_foldl (items : List Component) (h : Gathered wanted seen choices) :
    Gathered wanted (seen ++ items) (items.foldl (Component.gather wanted) choices) := by
  induction items generalizing seen choices with
  | nil => simpa using h
  | cons item items ih =>
    rw [List.append_cons]
    exact ih h.gather

theorem gathered_choices (wanted : Fingerprint → Bool) (items : List Component) :
    Gathered wanted items (Component.choices wanted items) := by
  have hempty : Gathered wanted [] [] := ⟨.nil, by simp, by simp⟩
  exact gathered_foldl items hempty

end Choices

section Runs

variable {needed : List Fingerprint} {wanted : Fingerprint → Bool} {given kept : List Component}
  {lists : List (List Component)} {choices : List (Fingerprint × List Component)}

theorem leadingKey_congr {c d : Component} (h : c.provided = d.provided) : c.leadingKey = d.leadingKey := by
  rw [leadingKey, leadingKey, providedKeys_eq, providedKeys_eq, h]

theorem leadingKey_eq_some {item : Component} {k : Fingerprint} (hone : item.providedKeys.length ≤ 1) :
    item.leadingKey = some k ↔ item.providedKeys = [k] := by
  rw [leadingKey]
  match h : item.providedKeys with
  | [] => simp
  | [f] => simp
  | _ :: _ :: _ => simp [h] at hone

theorem Gathered.chosen (h : Gathered wanted given choices)
    (hgiven : ∀ item ∈ given, item.providedKeys.length ≤ 1)
    (hkept : List.Forall₂ (· ∈ ·) kept (choices.map (·.2))) :
    List.Forall₂ (fun item c => item ∈ given ∧ item.providedKeys = [c.1]) kept choices := by
  have hsub := h.alternatives
  clear h
  rw [List.forall₂_map_right_iff] at hkept
  induction hkept with
  | nil => exact .nil
  | cons hitem _ ih =>
    rw [hsub _ (.head _), List.mem_filter, beq_iff_eq] at hitem
    refine .cons ⟨hitem.1, ?_⟩ (ih fun d hd => hsub d (.tail _ hd))
    exact (leadingKey_eq_some (hgiven _ hitem.1)).1 hitem.2

theorem flatMap_providedKeys_kept
    (h : List.Forall₂ (fun item c => item ∈ given ∧ item.providedKeys = [c.1]) kept choices) :
    kept.flatMap providedKeys = choices.map (·.1) := by
  induction h with
  | nil => rfl
  | cons hitem _ ih => simp [hitem.2, ih]

theorem exists_leadingKey (hgiven : ∀ item ∈ given, item.providedKeys.length ≤ 1) {k : Fingerprint} :
    (∃ item ∈ given, item.leadingKey = some k) ↔ k ∈ given.flatMap providedKeys := by
  rw [List.mem_flatMap]
  refine exists_congr fun item => and_congr_right fun hitem => ?_
  rw [leadingKey_eq_some (hgiven item hitem)]
  constructor
  · intro heq
    simp [heq]
  · intro hk
    obtain ⟨f, hf⟩ := List.length_eq_one_iff.1
      (Nat.le_antisymm (hgiven item hitem) (List.length_pos_of_mem hk))
    rw [hf, List.mem_singleton] at hk
    rw [hf, hk]

theorem Gathered.oneEach (h : Gathered wanted given choices)
    (hgiven : ∀ item ∈ given, item.providedKeys.length ≤ 1)
    (hkept : List.Forall₂ (· ∈ ·) kept (choices.map (·.2))) :
    OneEach (fun k => wanted k = true) given kept := by
  have hkept := h.chosen hgiven hkept
  have hkeys := flatMap_providedKeys_kept hkept
  refine ⟨fun item hitem => ?_, fun item hitem => ?_, ?_, fun k => ?_⟩
  · obtain ⟨c, _, hmem, _⟩ := exists_of_forall₂ hkept.flip hitem
    exact hmem
  · obtain ⟨c, _, _, hc⟩ := exists_of_forall₂ hkept.flip hitem
    rw [hc, List.length_singleton]
  · rw [hkeys]
    exact h.nodup
  · rw [hkeys, h.keys, exists_leadingKey hgiven, and_comm]

theorem keptItems_ok {sel : Component} (h : keptItems wanted sel = .ok lists) :
    ∃ given, sel = .select given ∧ lists = selections ((Component.choices wanted given).map (·.2)) := by
  cases sel with
  | select given =>
    rw [keptItems] at h
    split at h
    · cases h
    · cases h
      exact ⟨given, rfl, rfl⟩
  | _ => cases h

theorem keptItems_oneEach {items : List Component}
    (h : keptItems wanted (.select given) = .ok lists)
    (hgiven : ∀ item ∈ given, item.providedKeys.length ≤ 1) (hitems : items ∈ lists) :
    OneEach (fun k => wanted k = true) given items := by
  obtain ⟨_, hsel, rfl⟩ := keptItems_ok h
  cases hsel
  rw [mem_selections] at hitems
  exact (gathered_choices wanted given).oneEach hgiven hitems

theorem Gathered.mem_alternatives {c : Fingerprint × List Component} {item : Component}
    (h : Gathered wanted given choices) (hc : c ∈ choices) :
    item ∈ c.2 ↔ item ∈ given ∧ item.leadingKey = some c.1 := by
  rw [h.alternatives c hc, List.mem_filter, beq_iff_eq]

theorem Gathered.mem_given (h : Gathered wanted given choices)
    (hkept : kept ∈ selections (choices.map (·.2))) : ∀ item ∈ kept, item ∈ given := by
  rw [mem_selections, List.forall₂_map_right_iff] at hkept
  intro item hitem
  obtain ⟨c, hc, hmem⟩ := exists_of_forall₂ hkept.flip hitem
  exact ((h.mem_alternatives hc).1 hmem).1

theorem mem_of_keptItems {items : List Component} (h : keptItems wanted (.select given) = .ok lists)
    (hitems : items ∈ lists) : ∀ c ∈ items, c ∈ given := by
  obtain ⟨_, hsel, rfl⟩ := keptItems_ok h
  cases hsel
  exact (gathered_choices wanted given).mem_given hitems

theorem OneEach.keeps_order {orderBy : Component}
    (h : OneEach (fun k => k ∈ needed ∨ k ∈ orderBy.requiredKeys) given kept) :
    ∀ k ∈ orderBy.requiredKeys, k ∈ (select given).providedKeys → k ∈ (select kept).providedKeys := by
  intro k hk hprovided
  rw [providedKeys_select] at hprovided ⊢
  exact (h.provides k).2 ⟨hprovided, .inr hk⟩

/-- What holds of tables, and of subqueries, joins and queries if it holds of the narrowed parts, holds of
all that is narrowed. -/
theorem narrow_induct {Q S : List Fingerprint → Component → Component → Prop}
    (query : ∀ needed sel source filter groupBy having orderBy isDistinct lists items source',
      keptItems (fun k => needed.contains k || orderBy.requiredKeys.contains k) sel = .ok lists →
      items ∈ lists → S (asks items filter groupBy having orderBy) source source' →
      Q needed (.query sel source filter groupBy having orderBy isDistinct)
        (.query (.select items) source' filter groupBy having orderBy isDistinct))
    (table : ∀ needed t asName, S needed (.tableSource t asName) (.tableSource t asName))
    (subquery : ∀ needed q q' asName, Q needed q q' →
      S needed (.querySource q asName) (.querySource q' asName))
    (join : ∀ needed l l' r r' type on, S (needed ++ on.requiredKeys) l l' →
      S (needed ++ on.requiredKeys) r r' → S needed (.join l r type on) (.join l' r' type on)) :
    (∀ needed q forms, narrowQuery needed q = .ok forms → ∀ form ∈ forms, Q needed q form) ∧
    ∀ needed s forms, narrowSource needed s = .ok forms → ∀ form ∈ forms, S needed s form := by
  apply narrowQuery.mutual_induct
  case case1 =>
    intro needed sel source filter groupBy having orderBy isDistinct ordered clauses ih forms h
    rw [narrowQuery] at h
    obtain ⟨lists, hlists, h⟩ := ok_of_bind h
    obtain ⟨nested, hnested, h⟩ := ok_of_bind h
    cases h
    intro form hform
    obtain ⟨group, hgroup, hform⟩ := List.mem_flatten.1 hform
    obtain ⟨items, hitems, hrun⟩ := exists_of_forall₂ (forall₂_of_mapM hnested) hgroup
    obtain ⟨sources, hsources, hrun⟩ := ok_of_bind hrun
    cases hrun
    obtain ⟨s, hs, rfl⟩ := List.mem_map.1 hform
    exact query needed sel source filter groupBy having orderBy isDistinct lists items s hlists hitems
      (ih items sources hsources s hs)
  case case2 =>
    intro needed c hquery forms h
    rw [narrowQuery] at h
    · cases h
    · exact hquery
  case case3 =>
    intro needed t asName forms h
    cases h
    simpa using table needed t asName
  case case4 =>
    intro needed q asName ih forms h
    rw [narrowSource] at h
    obtain ⟨queries, hqueries, h⟩ := ok_of_bind h
    cases h
    intro form hform
    obtain ⟨q', hq', rfl⟩ := List.mem_map.1 hform
    exact subquery needed q q' asName (ih queries hqueries q' hq')
  case case5 =>
    intro needed l r type on ihl ihr forms h
    rw [narrowSource] at h
    obtain ⟨lefts, hlefts, h⟩ := ok_of_bind h
    obtain ⟨rights, hrights, h⟩ := ok_of_bind h
    cases h
    intro form hform
    obtain ⟨l', hl', hform⟩ := List.mem_flatMap.1 hform
    obtain ⟨r', hr', rfl⟩ := List.mem_map.1 hform
    exact join needed l l' r r' type on (ihl lefts hlefts l' hl') (ihr rights hrights r' hr')
  case case6 =>
    intro needed c htable hquery hjoin forms h
    rw [narrowSource] at h
    · cases h
    · exact htable
    · exact hquery
    · exact hjoin

theorem narrow_narrowed :
    (∀ needed q forms, narrowQuery needed q = .ok forms →
      ∀ form ∈ forms, q.Scoped → NarrowedQuery needed q form) ∧
    ∀ needed s forms, narrowSource needed s = .ok forms →
      ∀ form ∈ forms, s.Scoped → NarrowedSource needed s form := by
  apply narrow_induct
  case query =>
    intro needed sel source filter groupBy having orderBy isDistinct lists items source' hlists hitems ih hq
    obtain ⟨given, rfl, _⟩ := keptItems_ok hlists
    have hone := keptItems_oneEach hlists (hq.2.1 given rfl) hitems
    simp only [Bool.or_eq_true, List.contains_iff_mem] at hone
    exact .query hone hone.keeps_order (ih hq.1)
  case table => exact fun needed t asName _ => .table
  case subquery => exact fun needed q q' asName ih hs => .query (ih hs)
  case join => exact fun needed l l' r r' type on ihl ihr hs => .join (ihl hs.1) (ihr hs.2.1)

theorem outputItem_ok {items : List Component} {chain item : Component} {name : String}
    (h : outputItem items chain name = .ok item) :
    ∃ c, (c ∈ items ∧ c.leadingKey = some chain.fingerprint) ∧ item = .named c.withoutName name := by
  rw [outputItem] at h
  split at h
  · rename_i c hc
    cases h
    exact ⟨c, ⟨List.mem_of_find?_eq_some hc, by simpa using List.find?_some hc⟩, rfl⟩
  · cases h

theorem mem_of_outputItems {outputs : List (Component × String)} {items arranged : List Component}
    (h : outputs.mapM (fun (chain, name) => outputItem items chain name) = .ok arranged) :
    ∀ item ∈ arranged, ∃ c ∈ items, ∃ name, item = .named c.withoutName name := by
  intro item hitem
  obtain ⟨⟨chain, name⟩, _, hrun⟩ := exists_of_forall₂ (forall₂_of_mapM h) hitem
  obtain ⟨c, ⟨hc, _⟩, rfl⟩ := outputItem_ok hrun
  exact ⟨c, hc, name, rfl⟩

theorem arrange_projected {outputs : List (Component × String)} {q narrowed form : Component}
    (hnarrowed : NarrowedQuery needed q narrowed) (h : arrange outputs narrowed = .ok form) :
    Projected needed q form := by
  cases hnarrowed with
  | query hitems _ hsource =>
    obtain ⟨items, hrun, h⟩ := ok_of_bind h
    cases h
    exact .query hitems hsource (mem_of_outputItems hrun)

theorem projections_ok {query : Component} {outputs : List Component} {names : List String}
    {forms : List Component} (h : query.projections outputs names = .ok forms) :
    ∃ narrowed, narrowQuery (outputs.map fingerprint) query = .ok narrowed ∧
      ∀ form ∈ forms, ∃ q ∈ narrowed, arrange (outputs.zip names) q = .ok form := by
  rw [projections] at h
  split at h
  · cases h
  split at h
  · obtain ⟨narrowed, hnarrowed, h⟩ := ok_of_bind h
    refine ⟨narrowed, hnarrowed, fun form hform => ?_⟩
    obtain ⟨q, hq, harrange⟩ := exists_of_forall₂ (forall₂_of_mapM h) hform
    exact ⟨q, hq, harrange⟩
  · cases h

theorem length_eq_of_projections {query : Component} {outputs forms : List Component} {names : List String}
    (h : query.projections outputs names = .ok forms) : outputs.length = names.length := by
  rw [projections] at h
  split at h
  · cases h
  · rename_i hlength
    exact Decidable.not_not.1 hlength

theorem projections_projected {query : Component} {outputs : List Component} {names : List String}
    {forms : List Component} (h : query.projections outputs names = .ok forms) (hq : query.Scoped) :
    ∀ form ∈ forms, Projected (outputs.map fingerprint) query form := by
  obtain ⟨narrowed, hnarrowed, hforms⟩ := projections_ok h
  intro form hform
  obtain ⟨q, hmem, harrange⟩ := hforms form hform
  exact arrange_projected (narrow_narrowed.1 _ _ _ hnarrowed q hmem hq) harrange

/-- Every form of a scoped query is scoped, and at each level it keeps what the level around it and
its own order need, once. -/
theorem projections_scoped {query : Component} {outputs : List Component} {names : List String}
    {forms : List Component} (h : query.projections outputs names = .ok forms) (hq : query.Scoped) :
    ∀ form ∈ forms, form.Scoped ∧ Projected (outputs.map fingerprint) query form := by
  intro form hform
  have hprojected := projections_projected h hq form hform
  exact ⟨hprojected.scoped hq, hprojected⟩

def readers : Table := ⟨"readers", [("id", .number), ("name", .str)], 0⟩

def loans : Table := ⟨"loans", [("reader", .number), ("book", .number)], 1⟩

def readerName : Component := .column readers "name" .str

/-- The readers with the books that some subquery selects for them. -/
def readersWith (item : Component) (loaned : List Component) : Component :=
  .query (.select [item])
    (.join (.tableSource (.table readers) none)
      (.querySource (.query (.select loaned) (.tableSource (.table loans) none)
        (.comparison (.column loans "book" .number) .lt (.int 9)) .absent .absent .absent false) none)
      .left (.comparison (.column readers "id" .number) .eq (.column loans "reader" .number)))
    .absent .absent .absent .absent false

def loanColumns : List Component := [.column loans "reader" .number, .column loans "book" .number]

theorem projections_readers :
    (readersWith readerName loanColumns).projections [readerName] ["n"] =
      .ok [readersWith (.named readerName "n") [.column loans "reader" .number]] := by
  have hid : Fingerprint.ofColumn loans "reader" ≠ Fingerprint.ofColumn readers "id" := by
    decide +kernel
  have hbook : Fingerprint.ofColumn loans "book" ≠ Fingerprint.ofColumn readers "name" := by
    decide +kernel
  have hbook' : Fingerprint.ofColumn loans "book" ≠ Fingerprint.ofColumn readers "id" := by
    decide +kernel
  have hbook'' : Fingerprint.ofColumn loans "book" ≠ Fingerprint.ofColumn loans "reader" := by
    decide +kernel
  have hbind {α β : Type} (a : α) (f : α → Except ProjectionError β) :
      (Except.ok a >>= f) = f a := rfl
  simp [hbind, readersWith, loanColumns, readerName, projections, narrowQuery, narrowSource, keptItems,
    choices, addChoice, leadingKey, selections, arrange, outputItem, withoutName,
    providedKeys, requiredKeys, hid, hbook, hbook', hbook'', hbook''.symm]
  rfl

theorem projected_readers :
    (readersWith readerName loanColumns).Scoped ∧
      (readersWith readerName loanColumns).projections [readerName] ["n"] =
        .ok [readersWith (.named readerName "n") [.column loans "reader" .number]] ∧
      (readersWith (.named readerName "n") [.column loans "reader" .number]).Scoped ∧
      Projected [readerName.fingerprint] (readersWith readerName loanColumns)
        (readersWith (.named readerName "n") [.column loans "reader" .number]) := by
  have hscoped : (readersWith readerName loanColumns).Scoped := by
    simp [readersWith, loanColumns, readerName, Scoped, ProvidesOneEach, SuppliedBy, providedKeys,
      requiredKeys, readers, loans]
  have h := projections_scoped projections_readers hscoped
  simp only [List.mem_singleton, forall_eq] at h
  exact ⟨hscoped, projections_readers, h⟩

end Runs

end Component

end QuerySearch
