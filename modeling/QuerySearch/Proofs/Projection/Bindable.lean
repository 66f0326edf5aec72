import QuerySearch.Proofs.Projection.Narrowing
import QuerySearch.Proofs.Resolve.Bindable

/-! Names can be bound to every form of a query as far as they can be bound to the query. -/

namespace QuerySearch.Component

theorem IsOutput.providedKeys_length {c : Component} (h : c.IsOutput) : c.providedKeys.length = 1 := by
  obtain ⟨chain, _, hc⟩ := h.provides
  rw [providedKeys_eq, hc]
  rfl

theorem Bindable.scoped : {c : Component} → c.Bindable → c.Scoped
  | .query (.select items) source .., ⟨hsource, hitems, _, _, _, _, hsupplied⟩ => by
    refine ⟨hsource.scoped, ?_, hsupplied⟩
    rintro _ ⟨⟩ item hitem
    exact Nat.le_of_eq (hitems item hitem).providedKeys_length
  | .querySource q _, h => Bindable.scoped (c := q) h
  | .join .., ⟨hl, hr, _, _, hsupplied⟩ => ⟨hl.scoped, hr.scoped, hsupplied⟩
  | .tableSource .., _ => trivial

section Narrowed

variable {needed : List Fingerprint} {wanted : Fingerprint → Prop} {given kept : List Component}
  {q q' s s' l l' r r' c : Component} {k : Fingerprint}

theorem NarrowedSource.order {filter groupBy having orderBy : Component}
    (h : NarrowedSource (asks kept filter groupBy having orderBy) s s')
    (ho : orderBy.IsOrder s.providedKeys) : orderBy.IsOrder s'.providedKeys :=
  ho.mono fun k hk => h.keeps k (by simp [asks, hk])

theorem OneEach.provided_mono (h : OneEach wanted given kept) :
    ∀ k ∈ (select kept).providedKeys, k ∈ (select given).providedKeys := by
  intro k hk
  rw [providedKeys_select] at hk ⊢
  exact ((h.provides k).1 hk).1

mutual

theorem NarrowedQuery.provided_mono : {needed : List Fingerprint} → {q q' : Component} →
    NarrowedQuery needed q q' → ∀ k ∈ q'.providedKeys, k ∈ q.providedKeys
  | _, _, _, .query hitems _ _ => by
    intro k hk
    rw [providedKeys] at hk ⊢
    exact hitems.provided_mono k hk

theorem NarrowedSource.provided_mono : {needed : List Fingerprint} → {s s' : Component} →
    NarrowedSource needed s s' → ∀ k ∈ s'.providedKeys, k ∈ s.providedKeys
  | _, _, _, .table => fun _ hk => hk
  | _, _, _, .query h => by
    intro k hk
    rw [providedKeys] at hk ⊢
    exact h.provided_mono k hk
  | _, _, _, .join hl hr => by
    intro k hk
    simp only [providedKeys, List.mem_append] at hk ⊢
    exact hk.imp (hl.provided_mono k) (hr.provided_mono k)

end

theorem Apart.narrowed (h : Apart l r) (hl : NarrowedSource needed l l')
    (hr : NarrowedSource needed r r') : Apart l' r' :=
  fun k hk hkind hk' => h k (hl.provided_mono k hk) hkind (hr.provided_mono k hk')

mutual

theorem NarrowedQuery.bindable : {needed : List Fingerprint} → {q q' : Component} →
    NarrowedQuery needed q q' → q.Bindable → q'.Bindable
  | _, _, _, .query hitems _ hsource => by
    rintro ⟨hs, hgiven, hfilter, hgroup, hhaving, horder, hsupplied⟩
    exact ⟨hsource.bindable hs, fun item hitem => hgiven item (hitems.isGiven item hitem), hfilter,
      hgroup, hhaving, hsource.order horder, hsource.supplied hitems hsupplied⟩

theorem NarrowedSource.bindable : {needed : List Fingerprint} → {s s' : Component} →
    NarrowedSource needed s s' → s.Bindable → s'.Bindable
  | _, _, _, .table => id
  | _, _, _, .query h => h.bindable
  | _, _, _, .join hl hr => by
    rintro ⟨hsl, hsr, hapart, hon, hsupplied⟩
    refine ⟨hl.bindable hsl, hr.bindable hsr, hapart.narrowed hl hr, hon, fun k hk => ?_⟩
    have hprovided := hsupplied k hk
    simp only [providedKeys, List.mem_append] at hprovided ⊢
    exact hprovided.imp (hl.keeps k (by simp [hk])) (hr.keeps k (by simp [hk]))

end

theorem ValueOver.withoutName_eq (h : ValueOver Traced c) : c.withoutName = c := by
  cases c with
  | named item asName =>
    cases h with
    | chain h => exact (h.elim id id).elim
    | constant h => exact h.elim
  | _ => rfl

theorem IsOutput.renamed (h : c.IsOutput) (name : String) :
    (Component.named c.withoutName name).IsOutput := by
  cases h with
  | named h => exact .named h
  | value h =>
    rw [h.withoutName_eq]
    exact .named h

theorem Projected.bindable (h : Projected needed q q') (hq : q.Bindable) : q'.Bindable := by
  have hscoped := h.scoped hq.scoped
  cases h with
  | query hchosen hsource hitems =>
    obtain ⟨hs, hgiven, hfilter, hgroup, hhaving, horder, _⟩ := hq
    refine ⟨hsource.bindable hs, fun item hitem => ?_, hfilter, hgroup, hhaving,
      hsource.order horder, hscoped.2.2⟩
    obtain ⟨c, hc, name, rfl⟩ := hitems item hitem
    exact (hgiven c (hchosen.isGiven c hc)).renamed name

end Narrowed

end QuerySearch.Component
