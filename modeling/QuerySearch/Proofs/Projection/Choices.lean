import Mathlib.Data.List.Nodup
import Mathlib.Tactic.Choose
import QuerySearch.Proofs.Projection.Narrowing

/-! The select lists of the forms of a query.  Each output is supplied by an item that provides its
chain, and every choice of such items is the select list of some form, but that a chain that is asked
for more than once is always supplied by the same item. -/

namespace QuerySearch.Component

def selectItems : Component → List Component
  | .query (.select items) .. => items
  | _ => []

/-- A given item for each output. -/
def Supplies (given outputs chosen : List Component) : Prop :=
  List.Forall₂ (fun item chain => item ∈ given ∧ item.leadingKey = some chain.fingerprint) chosen outputs

def OnePerChain (items : List Component) : Prop :=
  ∀ x ∈ items, ∀ y ∈ items, x.leadingKey = y.leadingKey → x = y

def renamed (chosen : List Component) (names : List String) : List Component :=
  List.zipWith (fun c name => .named c.withoutName name) chosen names

theorem OnePerChain.subset {items items' : List Component} (h : OnePerChain items)
    (hsub : ∀ x ∈ items', x ∈ items) : OnePerChain items' :=
  fun x hx y hy => h x (hsub x hx) y (hsub y hy)

section Kept

variable {wanted : Fingerprint → Bool} {given kept chosen : List Component}
  {choices : List (Fingerprint × List Component)} {c : Fingerprint × List Component} {item : Component}

theorem onePerChain_of_nodup (h : (kept.map leadingKey).Nodup) : OnePerChain kept :=
  fun _ hx _ hy hxy => List.inj_on_of_nodup_map h hx hy hxy

theorem Gathered.exists_alternative (h : Gathered wanted given choices) (hc : c ∈ choices) :
    ∃ item, item ∈ c.2 := by
  obtain ⟨_, item, hitem, hkey⟩ := (h.keys c.1).1 (List.mem_map_of_mem hc)
  exact ⟨item, (h.mem_alternatives hc).2 ⟨hitem, hkey⟩⟩

theorem Gathered.nodup_leadingKey (h : Gathered wanted given choices)
    (hkept : kept ∈ selections (choices.map (·.2))) : (kept.map leadingKey).Nodup := by
  rw [mem_selections, List.forall₂_map_right_iff] at hkept
  have hkeys : kept.map leadingKey = (choices.map (·.1)).map some := by
    have halternatives : ∀ c ∈ choices, ∀ item ∈ c.2, item.leadingKey = some c.1 :=
      fun c hc item hitem => ((h.mem_alternatives hc).1 hitem).2
    clear h
    induction hkept with
    | nil => rfl
    | cons hitem _ ih =>
      rw [List.forall_mem_cons] at halternatives
      rw [List.map_cons, List.map_cons, List.map_cons, halternatives.1 _ hitem, ih halternatives.2]
  rw [hkeys]
  exact h.nodup.map fun _ _ => Option.some.inj

theorem Gathered.onePerChain (h : Gathered wanted given choices)
    (hkept : kept ∈ selections (choices.map (·.2))) : OnePerChain kept :=
  onePerChain_of_nodup (h.nodup_leadingKey hkept)

theorem Gathered.exists_kept (h : Gathered wanted given choices) (hone : OnePerChain chosen)
    (hchosen : ∀ x ∈ chosen, x ∈ given ∧ ∃ k, x.leadingKey = some k ∧ wanted k = true) :
    ∃ kept ∈ selections (choices.map (·.2)), ∀ x ∈ chosen, x ∈ kept := by
  have hitem : ∀ c ∈ choices, ∃ item ∈ c.2, ∀ x ∈ chosen, x.leadingKey = some c.1 → x = item := by
    intro c hc
    by_cases hx : ∃ x ∈ chosen, x.leadingKey = some c.1
    · obtain ⟨x, hx, hkey⟩ := hx
      exact ⟨x, (h.mem_alternatives hc).2 ⟨(hchosen x hx).1, hkey⟩,
        fun y hy hykey => hone y hy x hx (hykey.trans hkey.symm)⟩
    · obtain ⟨item, hitem⟩ := h.exists_alternative hc
      exact ⟨item, hitem, fun x hx' hkey => (hx ⟨x, hx', hkey⟩).elim⟩
  choose! take htake hsame using hitem
  refine ⟨choices.map take, ?_, fun x hx => ?_⟩
  · rw [mem_selections, List.forall₂_map_left_iff, List.forall₂_map_right_iff, List.forall₂_same]
    exact htake
  · obtain ⟨hgiven, k, hkey, hwanted⟩ := hchosen x hx
    obtain ⟨c, hc, rfl⟩ := List.mem_map.1 ((h.keys k).2 ⟨hwanted, x, hgiven, hkey⟩)
    rw [hsame c hc x hx hkey]
    exact List.mem_map_of_mem hc

end Kept

section Forms

variable {needed : List Fingerprint} {q form source filter groupBy having orderBy : Component}
  {given kept outputs forms : List Component} {names : List String} {isDistinct : Bool}

theorem narrowQuery_ok {sel : Component}
    (h : narrowQuery needed (.query sel source filter groupBy having orderBy isDistinct) = .ok forms) :
    ∃ lists, keptItems (fun k => needed.contains k || orderBy.requiredKeys.contains k) sel = .ok lists ∧
      (∀ form ∈ forms, ∃ items ∈ lists, ∃ s,
        form = .query (.select items) s filter groupBy having orderBy isDistinct) ∧
      ∀ items ∈ lists, ∃ sources, narrowSource (asks items filter groupBy having orderBy) source = .ok sources ∧
        ∀ s ∈ sources, .query (.select items) s filter groupBy having orderBy isDistinct ∈ forms := by
  rw [narrowQuery] at h
  obtain ⟨lists, hlists, h⟩ := ok_of_bind h
  obtain ⟨nested, hnested, h⟩ := ok_of_bind h
  cases h
  have hruns := forall₂_of_mapM hnested
  refine ⟨lists, hlists, fun form hform => ?_, fun items hitems => ?_⟩
  · obtain ⟨group, hgroup, hform⟩ := List.mem_flatten.1 hform
    obtain ⟨items, hitems, hrun⟩ := exists_of_forall₂ hruns hgroup
    obtain ⟨sources, _, hrun⟩ := ok_of_bind hrun
    cases hrun
    obtain ⟨s, _, rfl⟩ := List.mem_map.1 hform
    exact ⟨items, hitems, s, rfl⟩
  · obtain ⟨group, hgroup, hrun⟩ := exists_of_forall₂ hruns.flip hitems
    obtain ⟨sources, hsources, hrun⟩ := ok_of_bind hrun
    cases hrun
    exact ⟨sources, hsources, fun s hs => List.mem_flatten.2 ⟨_, hgroup, List.mem_map_of_mem hs⟩⟩

theorem narrow_ne_nil : (∀ needed q forms, narrowQuery needed q = .ok forms → forms ≠ []) ∧
    ∀ needed s forms, narrowSource needed s = .ok forms → forms ≠ [] := by
  apply narrowQuery.mutual_induct
  case case1 =>
    intro needed sel source filter groupBy having orderBy isDistinct ordered clauses ih forms h
    obtain ⟨lists, hlists, _, hsources⟩ := narrowQuery_ok h
    obtain ⟨given, rfl, rfl⟩ := keptItems_ok hlists
    have hnone : OnePerChain [] := List.forall_mem_nil _
    obtain ⟨items, hitems, _⟩ := (gathered_choices _ given).exists_kept hnone (List.forall_mem_nil _)
    obtain ⟨sources, hrun, hforms⟩ := hsources items hitems
    obtain ⟨s, hs⟩ := List.exists_mem_of_ne_nil _ (ih items sources hrun)
    exact List.ne_nil_of_mem (hforms s hs)
  case case2 =>
    intro needed c hquery forms h
    rw [narrowQuery] at h
    · cases h
    · exact hquery
  case case3 =>
    intro needed t asName forms h
    cases h
    exact List.cons_ne_nil _ _
  case case4 =>
    intro needed q asName ih forms h
    rw [narrowSource] at h
    obtain ⟨queries, hqueries, h⟩ := ok_of_bind h
    cases h
    simpa using ih queries hqueries
  case case5 =>
    intro needed l r type on ihl ihr forms h
    rw [narrowSource] at h
    obtain ⟨lefts, hlefts, h⟩ := ok_of_bind h
    obtain ⟨rights, hrights, h⟩ := ok_of_bind h
    cases h
    obtain ⟨l', hl'⟩ := List.exists_mem_of_ne_nil _ (ihl lefts hlefts)
    obtain ⟨r', hr'⟩ := List.exists_mem_of_ne_nil _ (ihr rights hrights)
    exact List.ne_nil_of_mem (List.mem_flatMap.2 ⟨l', hl', List.mem_map_of_mem hr'⟩)
  case case6 =>
    intro needed c htable hquery hjoin forms h
    rw [narrowSource] at h
    · cases h
    · exact htable
    · exact hquery
    · exact hjoin

theorem selectItems_narrowQuery (h : narrowQuery needed q = .ok forms) :
    ∃ wanted : Fingerprint → Bool, (∀ k ∈ needed, wanted k = true) ∧ ∀ kept,
      (∃ form ∈ forms, form.selectItems = kept) ↔
        kept ∈ selections ((choices wanted q.selectItems).map (·.2)) := by
  cases q with
  | query sel source filter groupBy having orderBy isDistinct =>
    obtain ⟨lists, hlists, hforms, hsources⟩ := narrowQuery_ok h
    obtain ⟨given, rfl, rfl⟩ := keptItems_ok hlists
    refine ⟨fun k => needed.contains k || orderBy.requiredKeys.contains k, fun k hk => ?_,
      fun kept => ⟨?_, fun hkept => ?_⟩⟩
    · rw [Bool.or_eq_true, List.contains_iff_mem]
      exact .inl hk
    · rintro ⟨form, hform, rfl⟩
      obtain ⟨items, hitems, s, rfl⟩ := hforms form hform
      exact hitems
    · obtain ⟨sources, hrun, hmem⟩ := hsources kept hkept
      obtain ⟨s, hs⟩ := List.exists_mem_of_ne_nil _ (narrow_ne_nil.2 _ _ _ hrun)
      exact ⟨_, hmem s hs, rfl⟩
  | _ => cases h

theorem exists_supplies {items : List Component} (hnames : outputs.length = names.length)
    (h : List.Forall₂ (fun output item => outputItem given output.1 output.2 = .ok item)
      (outputs.zip names) items) :
    ∃ chosen, Supplies given outputs chosen ∧ items = renamed chosen names := by
  induction outputs generalizing names items with
  | nil =>
    cases h
    exact ⟨[], .nil, rfl⟩
  | cons output outputs ih =>
    cases names with
    | nil => cases hnames
    | cons name names =>
      obtain ⟨item, items, hitem, hitems, rfl⟩ := List.forall₂_cons_left_iff.1 h
      obtain ⟨c, hc, rfl⟩ := outputItem_ok hitem
      obtain ⟨chosen, hchosen, rfl⟩ := ih (Nat.succ.inj hnames) hitems
      exact ⟨c :: chosen, .cons hc hchosen, rfl⟩

theorem selectItems_arrange (hnames : outputs.length = names.length)
    (h : arrange (outputs.zip names) q = .ok form) :
    ∃ chosen, Supplies q.selectItems outputs chosen ∧ form.selectItems = renamed chosen names := by
  rw [arrange.eq_def] at h
  split at h
  · obtain ⟨items, hitems, h⟩ := ok_of_bind h
    cases h
    exact exists_supplies hnames (forall₂_of_mapM hitems)
  · cases h
  · cases h

end Forms

section Choices

variable {given kept outputs chosen chosen' : List Component}

theorem Supplies.mem (h : Supplies given outputs chosen) :
    ∀ x ∈ chosen, x ∈ given ∧ ∃ k ∈ outputs.map fingerprint, x.leadingKey = some k := by
  intro x hx
  obtain ⟨chain, hchain, hgiven, hkey⟩ := exists_of_forall₂ h.flip hx
  exact ⟨hgiven, _, List.mem_map_of_mem hchain, hkey⟩

theorem Supplies.of_mem (h : Supplies given outputs chosen) (hmem : ∀ x ∈ chosen, x ∈ kept) :
    Supplies kept outputs chosen := by
  induction h with
  | nil => exact .nil
  | cons hx _ ih =>
    rw [List.forall_mem_cons] at hmem
    exact .cons ⟨hmem.1, hx.2⟩ (ih hmem.2)

theorem Supplies.unique (hone : OnePerChain given) (h : Supplies given outputs chosen)
    (h' : Supplies given outputs chosen') : chosen = chosen' := by
  induction h generalizing chosen' with
  | nil =>
    cases h'
    rfl
  | cons hx _ ih =>
    obtain ⟨y, ys, hy, hys, rfl⟩ := List.forall₂_cons_right_iff.1 h'
    rw [hone _ hx.1 y hy.1 (hx.2.trans hy.2.symm), ih hys]

/-- The select lists of the forms are the choices of an item for each output in which the same chain is
always supplied by the same item. -/
theorem projections_selectItems {query : Component} {forms items : List Component}
    {names : List String} (h : query.projections outputs names = .ok forms) :
    (∃ form ∈ forms, form.selectItems = items) ↔
      ∃ chosen, Supplies query.selectItems outputs chosen ∧ OnePerChain chosen ∧
        items = renamed chosen names := by
  rw [projections] at h
  split at h
  · cases h
  rename_i hnames
  rw [ne_eq, Decidable.not_not] at hnames
  split at h
  case isFalse => cases h
  obtain ⟨narrowed, hnarrowed, hruns⟩ := ok_of_bind h
  have hruns := forall₂_of_mapM hruns
  obtain ⟨wanted, hwanted, hlists⟩ := selectItems_narrowQuery hnarrowed
  have hgathered := gathered_choices wanted query.selectItems
  constructor
  · rintro ⟨form, hform, rfl⟩
    obtain ⟨q, hq, harrange⟩ := exists_of_forall₂ hruns hform
    obtain ⟨chosen, hchosen, heq⟩ := selectItems_arrange hnames harrange
    have hkept := (hlists q.selectItems).1 ⟨q, hq, rfl⟩
    refine ⟨chosen, hchosen.of_mem fun x hx => ?_,
      (hgathered.onePerChain hkept).subset fun x hx => (hchosen.mem x hx).1, heq⟩
    exact hgathered.mem_given hkept x (hchosen.mem x hx).1
  · rintro ⟨chosen, hchosen, hone, rfl⟩
    obtain ⟨kept, hkept, hmem⟩ := hgathered.exists_kept hone fun x hx => by
      obtain ⟨hgiven, k, hk, hkey⟩ := hchosen.mem x hx
      exact ⟨hgiven, k, hkey, hwanted k hk⟩
    obtain ⟨q, hq, rfl⟩ := (hlists kept).2 hkept
    obtain ⟨form, hform, harrange⟩ := exists_of_forall₂ hruns.flip hq
    obtain ⟨chosen', hchosen', heq⟩ := selectItems_arrange hnames harrange
    rw [(hchosen.of_mem hmem).unique (hgathered.onePerChain hkept) hchosen', ← heq]
    exact ⟨form, hform, rfl⟩

def countLoans (isDistinct : Bool) : Component :=
  .aggregation .count (.column loans "book" .number) isDistinct

def loanCountsWith (items : List Component) : Component :=
  .query (.select items) (.tableSource (.table loans) none) .absent .absent .absent .absent false

/-- The number of loans and of different books that are lent. -/
def loanCounts : Component := loanCountsWith [countLoans false, countLoans true]

def loanCountChain : Component := .aggChain .count (.column loans "book" .number)

def loanCountForms : List Component :=
  [loanCountsWith (renamed [countLoans false, countLoans false] ["n", "m"]),
    loanCountsWith (renamed [countLoans true, countLoans true] ["n", "m"])]

theorem projections_loanCounts :
    loanCounts.projections [loanCountChain, loanCountChain] ["n", "m"] = .ok loanCountForms := by
  have hbind {α β : Type} (a : α) (f : α → Except ProjectionError β) :
      (Except.ok a >>= f) = f a := rfl
  simp [hbind, loanCounts, loanCountsWith, loanCountForms, loanCountChain, countLoans, renamed,
    projections, narrowQuery, narrowSource, keptItems, choices, addChoice, leadingKey, selections,
    arrange, outputItem, withoutName, providedKeys, requiredKeys]
  rfl

theorem projections_loanCounts_selectItems :
    loanCounts.projections [loanCountChain, loanCountChain] ["n", "m"] = .ok loanCountForms ∧
      ∃ chosen, Supplies loanCounts.selectItems [loanCountChain, loanCountChain] chosen ∧
        OnePerChain chosen ∧
        renamed [countLoans true, countLoans true] ["n", "m"] = renamed chosen ["n", "m"] :=
  ⟨projections_loanCounts,
    (projections_selectItems projections_loanCounts).1 ⟨_, .tail _ (.head _), rfl⟩⟩

/-- Both counts supply the chain, but no form has the two of them. -/
theorem projections_loanCounts_apart :
    loanCounts.projections [loanCountChain, loanCountChain] ["n", "m"] = .ok loanCountForms ∧
      Supplies loanCounts.selectItems [loanCountChain, loanCountChain]
        [countLoans false, countLoans true] ∧
      ¬∃ form ∈ loanCountForms,
        form.selectItems = renamed [countLoans false, countLoans true] ["n", "m"] := by
  have hkey (isDistinct : Bool) :
      (countLoans isDistinct).leadingKey = some loanCountChain.fingerprint := by
    simp [countLoans, leadingKey, providedKeys, loanCountChain]
  refine ⟨projections_loanCounts, .cons ⟨.head _, hkey _⟩ (.cons ⟨.tail _ (.head _), hkey _⟩ .nil), ?_⟩
  simp [loanCountForms, loanCountsWith, selectItems, renamed, countLoans, withoutName]

end Choices

end QuerySearch.Component
