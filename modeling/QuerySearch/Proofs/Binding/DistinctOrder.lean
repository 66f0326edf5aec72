import QuerySearch.Proofs.Binding.SortKeys
import QuerySearch.Proofs.Binding.Throughout
import QuerySearch.Proofs.Projection.Throughout

/-! DISTINCT queries that sort by what they put out.  Narrowing keeps what a level sorts by, and binding
keeps what it provides, so they stay so at every level but the outermost one, whose outputs are the ones
that are asked for and no others. -/

namespace QuerySearch.Component

def sortItems : Component → List Component
  | .sortList items => items
  | _ => []

def SortsByOne (keys : List Fingerprint) : Component → Prop
  | .sortItem chain _ => ∃ k ∈ keys, chain.leadingKey = some k
  | _ => False

/-- If the query is DISTINCT, it sorts by chains that have one of the keys. -/
def SortsBy (keys : List Fingerprint) : Component → Prop
  | .query _ _ _ _ _ orderBy isDistinct =>
    isDistinct = true → ∀ item ∈ orderBy.sortItems, item.SortsByOne keys
  | _ => True

/-- If the query is DISTINCT, it sorts by what its select items provide. -/
def SortsOutputs (c : Component) : Prop := c.SortsBy c.providedKeys

def Regular : Component → Prop
  | .aggChain _ arg | .aggregation _ arg _ => arg.kind.isReferencable = true
  | .aggWindow call .. | .funcWindow call .. => call.providedKeys.length ≤ 1
  | .sortItem chain _ => chain.kind.isReferencable = true
  | .sortList items => ∀ c ∈ items, ∃ chain dir, c = .sortItem chain dir ∧ chain.kind.isReferencable = true
  | .query (.select items) .. => ∀ item ∈ items, item.providedKeys.length ≤ 1
  | _ => True

structure Ordered (c : Component) : Prop where
  regular : c.Regular
  sorts : c.SortsOutputs

section Keys

variable {c item orderBy : Component} {keys : List Fingerprint}

theorem sortsBy_of_not_isRelation (h : ¬ c.IsRelation) : c.SortsBy keys := by
  cases c with
  | query => exact absurd trivial h
  | _ => trivial

theorem Regular.sortsByOne (h : orderBy.Regular) (hitem : item ∈ orderBy.sortItems) :
    ∃ k ∈ orderBy.requiredKeys, ∀ keys, item.SortsByOne keys ↔ k ∈ keys := by
  cases orderBy with
  | sortList items =>
    obtain ⟨chain, dir, rfl, hkind⟩ := h item hitem
    have hkey : chain.leadingKey = some chain.fingerprint := by
      rw [leadingKey, providedKeys_eq, provided_of_referencable hkind]
      rfl
    refine ⟨chain.fingerprint, ?_, fun keys => ?_⟩
    · rw [requiredKeys_sortList, List.mem_flatMap]
      exact ⟨_, hitem, by simp [requiredKeys, fingerprint]⟩
    · simp [SortsByOne, hkey]
  | _ => cases hitem

end Keys

section Narrowed

variable {q form : Component}

theorem narrow_ordered :
    (∀ needed q forms, narrowQuery needed q = .ok forms → ∀ form ∈ forms, Throughout Ordered q →
      Throughout Ordered form ∧ ∀ keys, form.SortsBy keys ↔ q.SortsBy keys) ∧
    ∀ needed s forms, narrowSource needed s = .ok forms → ∀ form ∈ forms, Throughout Ordered s →
      Throughout Ordered form := by
  apply narrow_induct
  case query =>
    intro needed sel source filter groupBy having orderBy isDistinct lists items source' hlists hitems ih hq
    obtain ⟨given, rfl, _⟩ := keptItems_ok hlists
    have hone := keptItems_oneEach hlists hq.here.regular hitems
    simp only [Bool.or_eq_true, List.contains_iff_mem] at hone
    have horder : Throughout Ordered orderBy := hq.child (by simp [children])
    have hsel : Throughout Ordered (.select items) :=
      .intro ⟨trivial, trivial⟩ fun d hd => (hq.child (.head _)).child (mem_of_keptItems hlists hitems d hd)
    have hsorts : (query (.select items) source' filter groupBy having orderBy isDistinct).SortsOutputs := by
      intro hdistinct item hitem
      obtain ⟨k, hk, hsorts⟩ := horder.here.regular.sortsByOne hitem
      have hgiven := hq.here.sorts hdistinct item hitem
      rw [hsorts, providedKeys] at hgiven ⊢
      exact hone.keeps_order k hk hgiven
    refine ⟨.intro ⟨fun item hitem => Nat.le_of_eq (hone.one item hitem), hsorts⟩ fun d hd => ?_,
      fun keys => Iff.rfl⟩
    simp only [children, List.mem_cons, List.not_mem_nil, or_false] at hd
    obtain rfl | rfl | hd := hd
    · exact hsel
    · exact ih (hq.child (by simp [children]))
    · exact hq.child (by simp [children, hd])
  case table => exact fun _ _ _ => id
  case subquery =>
    intro needed q q' asName ih hs
    exact .intro ⟨trivial, trivial⟩ (by simpa [children] using (ih (hs.child (.head _))).1)
  case join =>
    intro needed l l' r r' type on ihl ihr hs
    have hl := ihl (hs.child (by simp [children]))
    have hr := ihr (hs.child (by simp [children]))
    have hon : Throughout Ordered on := hs.child (by simp [children])
    exact .intro ⟨trivial, trivial⟩ (by simpa [children] using ⟨hl, hr, hon⟩)

theorem projections_ordered {target forms : List Component} {names : List String}
    (h : q.projections target names = .ok forms) (hq : Throughout Ordered q) :
    ∀ form ∈ forms, (∀ d ∈ form.children, Throughout Ordered d) ∧ form.Regular ∧
      ∀ keys, form.SortsBy keys ↔ q.SortsBy keys := by
  obtain ⟨narrowed, hnarrowed, hforms⟩ := projections_ok h
  intro form hform
  obtain ⟨q', hq', harrange⟩ := hforms form hform
  obtain ⟨hordered, hsorts⟩ := narrow_ordered.1 _ _ _ hnarrowed q' hq' hq
  rw [arrange.eq_def] at harrange
  split at harrange
  · rename_i given source filter groupBy having orderBy isDistinct
    obtain ⟨items, hrun, harrange⟩ := ok_of_bind harrange
    cases harrange
    have hgiven : Throughout Ordered (.select given) := hordered.child (.head _)
    have hone : ∀ item ∈ given, item.providedKeys.length ≤ 1 := hordered.here.regular
    have hitems : ∀ item ∈ items, Throughout Ordered item ∧ item.providedKeys.length ≤ 1 := by
      intro item hitem
      obtain ⟨c, hc, name, rfl⟩ := mem_of_outputItems hrun item hitem
      refine ⟨.intro ⟨trivial, trivial⟩ ?_, ?_⟩
      · simpa [children] using throughout_withoutName (hgiven.child hc)
      · rw [providedKeys_withoutName]
        exact hone c hc
    refine ⟨fun d hd => ?_, fun item hitem => (hitems item hitem).2, hsorts⟩
    rw [children, List.mem_cons] at hd
    obtain rfl | hd := hd
    · exact .intro ⟨trivial, trivial⟩ fun item hitem => (hitems item hitem).1
    · exact hordered.child (.tail _ hd)
  · cases harrange
  · cases harrange

end Narrowed

section Bound

variable {envs : List Environment} {outputs source : Environment} {grouped : Bool}
  {c c' item item' : Component} {keys : List Fingerprint}

theorem rebinds_sortsOutputs : Rebinds SortsOutputs where
  boundColumn := trivial
  named := trivial
  alike _ hplain heq := sortsBy_of_not_isRelation (by rwa [isRelation_iff, heq, ← isRelation_iff])

theorem boundKeys_provided (hc : c.Regular) (hkind : c.kind.isReferencable = true)
    (h : c.boundKeys outputs source grouped = .ok c') : c'.provided = c.provided := by
  rw [kind_isReferencable_iff] at hkind
  cases c with
  | aggChain func arg =>
    rw [boundKeys] at h
    split at h
    · obtain ⟨arg', harg, h⟩ := ok_of_bind h
      cases h
      have hself : arg.provided = [arg] := provided_of_referencable hc
      simp [provided, bound_provided arg arg' harg, hself]
    · exact bound_provided _ _ h
  | column | windowChain => exact bound_provided _ _ (by simpa only [boundKeys] using h)
  | _ => exact absurd rfl hkind

theorem boundKeys_sortsByOne {chain : Component} {dir : SortDir} (hchain : chain.Regular)
    (hkind : chain.kind.isReferencable = true)
    (h : (sortItem chain dir).boundKeys outputs source grouped = .ok item') :
    item'.SortsByOne keys ↔ (sortItem chain dir).SortsByOne keys := by
  obtain ⟨chain', hbound, h⟩ := ok_of_bind h
  cases h
  rw [SortsByOne, SortsByOne, leadingKey_congr (boundKeys_provided hchain hkind hbound)]

theorem sortItems_bound (hc : ∀ items, c ≠ .sortList items) (h : c.bound envs = .ok c') :
    c'.sortItems = [] := by
  cases c with
  | sortList items => exact absurd rfl (hc items)
  | column | aggChain | windowChain =>
    rw [bound] at h
    obtain ⟨p, rfl, _⟩ := locate_ok h
    rfl
  | int | float | str | absent | windowClause | boundColumn =>
    cases h
    rfl
  | aggregation | partitionList | groupList | sortItem | named =>
    obtain ⟨inner, _, h⟩ := ok_of_bind h
    cases h
    rfl
  | comparison | connection =>
    obtain ⟨l, _, h⟩ := ok_of_bind h
    obtain ⟨r, _, h⟩ := ok_of_bind h
    cases h
    rfl
  | aggWindow | funcWindow =>
    obtain ⟨call, _, h⟩ := ok_of_bind h
    obtain ⟨partition, _, h⟩ := ok_of_bind h
    obtain ⟨orderBy, _, h⟩ := ok_of_bind h
    cases h
    rfl
  | _ => cases h

theorem boundKeys_sortItems {orderBy orderBy' : Component} (keys : List Fingerprint)
    (horder : Throughout Regular orderBy)
    (h : orderBy.boundKeys outputs source grouped = .ok orderBy') :
    (∀ item ∈ orderBy'.sortItems, item.SortsByOne keys) ↔
      ∀ item ∈ orderBy.sortItems, item.SortsByOne keys := by
  have hnone (horder : orderBy.sortItems = []) (horder' : orderBy'.sortItems = []) :
      (∀ item ∈ orderBy'.sortItems, item.SortsByOne keys) ↔
        ∀ item ∈ orderBy.sortItems, item.SortsByOne keys := by
    simp [horder, horder']
  cases orderBy with
  | sortList items =>
    obtain ⟨items', hitems, h⟩ := ok_of_bind h
    cases h
    have hbound := boundKeysAll_forall₂ hitems
    have hkeys : ∀ item item', item ∈ items → item.boundKeys outputs source grouped = .ok item' →
        (item'.SortsByOne keys ↔ item.SortsByOne keys) := by
      intro item item' hitem hbound
      obtain ⟨chain, dir, rfl, hkind⟩ := horder.here item hitem
      have hchain : Throughout Regular chain := (horder.child hitem).child (.head _)
      exact boundKeys_sortsByOne hchain.here hkind hbound
    constructor
    · intro hsorts item hitem
      obtain ⟨item', hitem', hrun⟩ := exists_of_forall₂ hbound.flip hitem
      exact (hkeys item item' hitem hrun).1 (hsorts item' (mem_sortedByKey.2 hitem'))
    · intro hsorts item' hitem'
      obtain ⟨item, hitem, hrun⟩ := exists_of_forall₂ hbound (mem_sortedByKey.1 hitem')
      exact (hkeys item item' hitem hrun).2 (hsorts item hitem)
  | sortItem chain dir =>
    obtain ⟨chain', _, h⟩ := ok_of_bind h
    cases h
    exact hnone rfl rfl
  | aggChain func arg =>
    rw [boundKeys] at h
    split at h
    · obtain ⟨arg', _, h⟩ := ok_of_bind h
      cases h
      exact hnone rfl rfl
    · exact hnone rfl (sortItems_bound (by simp) h)
  | _ =>
    rw [boundKeys] at h
    · exact hnone rfl (sortItems_bound (by simp) h)
    all_goals exact nofun

end Bound

section Queries

variable {env outputs outputs' : Environment} {items items' : List Component} {form bound : Component}
  {s t : NameSupply}

theorem bindItems_provided (h : Gives (bindItems env outputs items) s (items', outputs') t) :
    (select items').providedKeys = (select items).providedKeys := by
  induction items generalizing items' outputs s with
  | nil =>
    obtain ⟨rfl, _⟩ := gives_bindItems_nil h
    rfl
  | cons item items ih =>
    obtain ⟨item', asName, u, rest, hitem, hrest, rfl⟩ := gives_bindItems_cons h
    obtain ⟨inner, rfl, hprovided⟩ := hitem.output
    have hrest := ih hrest
    rw [providedKeys_select, providedKeys_select] at hrest ⊢
    rw [List.flatMap_cons, List.flatMap_cons, hrest, providedKeys, providedKeys_eq inner, hprovided,
      ← providedKeys_eq]

theorem bind_ordered :
    (∀ c s c' env t, Gives (bindSource c) s (c', env) t → Throughout Ordered c →
      Throughout SortsOutputs c') ∧
    ∀ c s c' outputs t, Gives (bindQuery c) s (c', outputs) t → (∀ d ∈ c.children, Throughout Ordered d) →
      (∀ d ∈ c'.children, Throughout SortsOutputs d) ∧ c'.providedKeys = c.providedKeys ∧
        ∀ keys, c'.SortsBy keys ↔ c.SortsBy keys := by
  have hclause {c : Component} (hc : Throughout Ordered c) : Throughout SortsOutputs c :=
    hc.mono fun _ => Ordered.sorts
  apply bind_induct
  case table => exact fun _ _ _ _ _ _ hc => .intro trivial fun _ hd => hclause (hc.child hd)
  case subquery =>
    intro q asName s inner outputs u a t ih _ hc
    have hq : Throughout Ordered q := hc.child (.head _)
    obtain ⟨hinside, hprovided, hsorts⟩ := ih fun _ => hq.child
    have hinner : inner.SortsOutputs := (hsorts _).2 (hprovided ▸ hq.here.sorts)
    exact .intro trivial (by simpa [children] using .intro hinner hinside)
  case join =>
    intro l r type on s l' leftEnv u r' rightEnv t on' ihl ihr hon hc
    have hl := ihl (hc.child (by simp [children]))
    have hr := ihr (hc.child (by simp [children]))
    have hon := bound_throughout rebinds_sortsOutputs on on' (hclause (hc.child (by simp [children]))) hon
    exact .intro trivial (by simpa [children] using ⟨hl, hr, hon⟩)
  case query =>
    intro given source filter groupBy having orderBy isDistinct s source' env u filter' groupBy' having' items
      outputs t orderBy' ih hfilter hgroup hhaving hitems horder hc
    simp only [children, List.forall_mem_cons] at hc
    obtain ⟨hgiven, hsource, hcfilter, hcgroup, hchaving, hcorder, _⟩ := hc
    have hsel : Throughout SortsOutputs (.select items) :=
      .intro trivial (bindItems_throughout rebinds_sortsOutputs hitems fun d hd => hclause (hgiven.child hd))
    have hsorts := fun keys => boundKeys_sortItems keys (hcorder.mono fun _ => Ordered.regular) horder
    have hfilter := bound_throughout rebinds_sortsOutputs filter filter' (hclause hcfilter) hfilter
    have hgroup := bound_throughout rebinds_sortsOutputs groupBy groupBy' (hclause hcgroup) hgroup
    have hhaving := bound_throughout rebinds_sortsOutputs having having' (hclause hchaving) hhaving
    have horder := boundKeys_throughout rebinds_sortsOutputs trivial orderBy orderBy' (hclause hcorder) horder
    refine ⟨?_, ?_, fun keys => imp_congr_right fun _ => hsorts keys⟩
    · simpa [children] using ⟨hsel, ih hsource, hfilter, hgroup, hhaving, horder⟩
    · simpa only [providedKeys] using bindItems_provided hitems

theorem bindNames_ordered (h : (form.bindNames s).1 = .ok bound)
    (hform : ∀ d ∈ form.children, Throughout Ordered d) :
    (∀ d ∈ bound.children, Throughout SortsOutputs d) ∧ bound.providedKeys = form.providedKeys ∧
      ∀ keys, bound.SortsBy keys ↔ form.SortsBy keys := by
  obtain ⟨outputs, hgives⟩ := gives_of_bindNames (t := (form.bindNames s).2) (Prod.ext h rfl)
  exact bind_ordered.2 _ _ _ _ _ hgives hform

end Queries

end QuerySearch.Component
