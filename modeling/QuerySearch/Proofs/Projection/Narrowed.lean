import QuerySearch.Projection
import QuerySearch.Proofs.Component.Supply

/-! Narrowed queries: which select items they keep, and that their levels still have what they
require. -/

namespace QuerySearch.Component

def ProvidesOneEach (sel : Component) : Prop :=
  ∀ items, sel = .select items → ∀ item ∈ items, item.providedKeys.length ≤ 1

/-- At every level of a query the clauses other than ORDER BY, and the conditions of joins, are
supplied by the sources. -/
def Scoped : Component → Prop
  | .query sel source filter groupBy having _ _ => source.Scoped ∧ sel.ProvidesOneEach ∧
    ∀ c ∈ [sel, filter, groupBy, having], SuppliedBy source c
  | .querySource q _ => q.Scoped
  | .join l r type on => l.Scoped ∧ r.Scoped ∧ SuppliedBy (.join l r type on) on
  | _ => True

structure OneEach (wanted : Fingerprint → Prop) (given kept : List Component) : Prop where
  isGiven : ∀ item ∈ kept, item ∈ given
  one : ∀ item ∈ kept, item.providedKeys.length = 1
  nodup : (kept.flatMap providedKeys).Nodup
  provides : ∀ k, k ∈ kept.flatMap providedKeys ↔ k ∈ given.flatMap providedKeys ∧ wanted k

def asks (items : List Component) (filter groupBy having orderBy : Component) : List Fingerprint :=
  items.flatMap requiredKeys ++
    (filter.requiredKeys ++ groupBy.requiredKeys ++ having.requiredKeys ++ orderBy.requiredKeys)

mutual

/-- The second query keeps the items of the first one whose chain is needed, or is a sort key. -/
inductive NarrowedQuery : List Fingerprint → Component → Component → Prop
  | query {needed : List Fingerprint} {given items : List Component}
    {source source' filter groupBy having orderBy : Component} {isDistinct : Bool}
    (hitems : OneEach (fun k => k ∈ needed ∨ k ∈ orderBy.requiredKeys) given items)
    (horder : ∀ k ∈ orderBy.requiredKeys, k ∈ (select given).providedKeys →
      k ∈ (select items).providedKeys)
    (hsource : NarrowedSource (asks items filter groupBy having orderBy) source source') :
    NarrowedQuery needed (.query (.select given) source filter groupBy having orderBy isDistinct)
      (.query (.select items) source' filter groupBy having orderBy isDistinct)

inductive NarrowedSource : List Fingerprint → Component → Component → Prop
  | table {needed : List Fingerprint} {t : Component} {asName : Option String} :
    NarrowedSource needed (.tableSource t asName) (.tableSource t asName)
  | query {needed : List Fingerprint} {q q' : Component} {asName : Option String}
    (h : NarrowedQuery needed q q') :
    NarrowedSource needed (.querySource q asName) (.querySource q' asName)
  | join {needed : List Fingerprint} {l l' r r' on : Component} {type : JoinType}
    (hl : NarrowedSource (needed ++ on.requiredKeys) l l')
    (hr : NarrowedSource (needed ++ on.requiredKeys) r r') :
    NarrowedSource needed (.join l r type on) (.join l' r' type on)

end

/-- `c` is `q` narrowed to what is needed, with its select list put together anew from the items
that were chosen. -/
inductive Projected (needed : List Fingerprint) : Component → Component → Prop
  | query {given chosen items : List Component}
    {source source' filter groupBy having orderBy : Component} {isDistinct : Bool}
    (hchosen : OneEach (fun k => k ∈ needed ∨ k ∈ orderBy.requiredKeys) given chosen)
    (hsource : NarrowedSource (asks chosen filter groupBy having orderBy) source source')
    (hitems : ∀ item ∈ items, ∃ c ∈ chosen, ∃ name, item = .named c.withoutName name) :
    Projected needed (.query (.select given) source filter groupBy having orderBy isDistinct)
      (.query (.select items) source' filter groupBy having orderBy isDistinct)

section Keeps

variable {needed : List Fingerprint} {wanted : Fingerprint → Prop} {given kept : List Component}
  {q q' s s' : Component} {k : Fingerprint}

theorem OneEach.scoped (h : OneEach wanted given kept) : (select kept).ProvidesOneEach := by
  rintro _ ⟨⟩ item hitem
  exact Nat.le_of_eq (h.one item hitem)

theorem OneEach.supplied (h : OneEach wanted given kept) (hs : SuppliedBy s (.select given)) :
    SuppliedBy s (.select kept) := by
  intro k hk
  rw [requiredKeys_select, List.mem_flatMap] at hk
  obtain ⟨item, hitem, hk⟩ := hk
  apply hs
  rw [requiredKeys_select, List.mem_flatMap]
  exact ⟨item, h.isGiven item hitem, hk⟩

mutual

theorem NarrowedQuery.keeps : {needed : List Fingerprint} → {q q' : Component} →
    NarrowedQuery needed q q' → ∀ k ∈ needed, k ∈ q.providedKeys → k ∈ q'.providedKeys
  | needed, _, _, .query hitems _ _ => by
    intro k hk hprovided
    rw [providedKeys, providedKeys_select] at hprovided ⊢
    exact (hitems.provides k).2 ⟨hprovided, .inl hk⟩

theorem NarrowedSource.keeps : {needed : List Fingerprint} → {s s' : Component} →
    NarrowedSource needed s s' → ∀ k ∈ needed, k ∈ s.providedKeys → k ∈ s'.providedKeys
  | _, _, _, .table => fun _ _ hk => hk
  | _, _, _, .query h => by
    simpa [providedKeys] using h.keeps
  | _, _, _, .join hl hr => by
    intro k hk hprovided
    simp only [providedKeys, List.mem_append] at hprovided ⊢
    exact hprovided.imp (hl.keeps k (by simp [hk])) (hr.keeps k (by simp [hk]))

end

theorem NarrowedSource.supplied {filter groupBy having orderBy : Component}
    (h : NarrowedSource (asks kept filter groupBy having orderBy) s s')
    (hkept : OneEach wanted given kept)
    (hs : ∀ c ∈ [.select given, filter, groupBy, having], SuppliedBy s c) :
    ∀ c ∈ [.select kept, filter, groupBy, having], SuppliedBy s' c := by
  have hasks : ∀ c ∈ [select kept, filter, groupBy, having], ∀ k ∈ c.requiredKeys,
      k ∈ asks kept filter groupBy having orderBy := by
    simp only [List.mem_cons, List.not_mem_nil, or_false, asks, List.mem_append,
      forall_eq_or_imp, forall_eq, requiredKeys_select]
    exact ⟨fun k hk => .inl hk, fun k hk => .inr (.inl (.inl (.inl hk))),
      fun k hk => .inr (.inl (.inl (.inr hk))), fun k hk => .inr (.inl (.inr hk))⟩
  have hbefore : ∀ c ∈ [select kept, filter, groupBy, having], SuppliedBy s c := by
    simp only [List.mem_cons, List.not_mem_nil, or_false, forall_eq_or_imp, forall_eq] at hs ⊢
    exact ⟨hkept.supplied hs.1, hs.2⟩
  intro c hc k hk
  exact h.keeps k (hasks c hc k hk) (hbefore c hc k hk)

mutual

theorem NarrowedQuery.scoped : {needed : List Fingerprint} → {q q' : Component} →
    NarrowedQuery needed q q' → q.Scoped → q'.Scoped
  | _, _, _, .query hitems _ hsource => by
    rintro ⟨hs, _, hsupplied⟩
    exact ⟨hsource.scoped hs, hitems.scoped, hsource.supplied hitems hsupplied⟩

theorem NarrowedSource.scoped : {needed : List Fingerprint} → {s s' : Component} →
    NarrowedSource needed s s' → s.Scoped → s'.Scoped
  | _, _, _, .table => id
  | _, _, _, .query h => h.scoped
  | _, _, _, .join hl hr => by
    rintro ⟨hsl, hsr, hon⟩
    refine ⟨hl.scoped hsl, hr.scoped hsr, fun k hk => ?_⟩
    have hprovided := hon k hk
    simp only [providedKeys, List.mem_append] at hprovided ⊢
    exact hprovided.imp (hl.keeps k (by simp [hk])) (hr.keeps k (by simp [hk]))

end

theorem providedKeys_withoutName (c : Component) (name : String) :
    (named c.withoutName name).providedKeys = c.providedKeys := by
  cases c <;> simp [withoutName, providedKeys]

theorem requiredKeys_withoutName (c : Component) (name : String) :
    (named c.withoutName name).requiredKeys = c.requiredKeys := by
  cases c <;> simp [withoutName, requiredKeys]

theorem Projected.scoped (h : Projected needed q q') (hq : q.Scoped) : q'.Scoped := by
  cases h with
  | query hchosen hsource hitems =>
    obtain ⟨hs, _, hsupplied⟩ := hq
    have hsupplied := hsource.supplied hchosen hsupplied
    simp only [List.mem_cons, List.not_mem_nil, or_false, forall_eq_or_imp, forall_eq] at hsupplied
    refine ⟨hsource.scoped hs, ?_, ?_⟩
    · rintro _ ⟨⟩ item hitem
      obtain ⟨c, hc, name, rfl⟩ := hitems item hitem
      rw [providedKeys_withoutName]
      exact Nat.le_of_eq (hchosen.one c hc)
    · simp only [List.mem_cons, List.not_mem_nil, or_false, forall_eq_or_imp, forall_eq]
      refine ⟨fun k hk => ?_, hsupplied.2⟩
      rw [requiredKeys_select, List.mem_flatMap] at hk
      obtain ⟨item, hitem, hk⟩ := hk
      obtain ⟨c, hc, name, rfl⟩ := hitems item hitem
      rw [requiredKeys_withoutName] at hk
      apply hsupplied.1
      rw [requiredKeys_select, List.mem_flatMap]
      exact ⟨c, hc, hk⟩

end Keeps

end QuerySearch.Component
