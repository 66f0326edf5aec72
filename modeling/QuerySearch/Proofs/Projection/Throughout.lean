import QuerySearch.Proofs.Component.Throughout
import QuerySearch.Proofs.Projection.Narrowing

/-! What holds throughout a query holds throughout its narrowed forms, which select some of its items under
other names and read from less. -/

namespace QuerySearch.Component

structure Narrows (p : Component → Prop) : Prop where
  select : ∀ {given items}, p (.select given) → p (.select items)
  named : ∀ {item asName}, p (.named item asName)
  querySource : ∀ {q q' asName}, p (.querySource q asName) → p (.querySource q' asName)
  join : ∀ {l l' r r' type on}, p (.join l r type on) → p (.join l' r' type on)
  query : ∀ {sel sel' source source' filter groupBy having orderBy isDistinct},
    p (.query sel source filter groupBy having orderBy isDistinct) →
      p (.query sel' source' filter groupBy having orderBy isDistinct)

section Forms

variable {p : Component → Prop} {q form : Component}

theorem narrow_throughout (hp : Narrows p) :
    (∀ needed q forms, narrowQuery needed q = .ok forms → ∀ form ∈ forms, Throughout p q →
      Throughout p form) ∧
    ∀ needed s forms, narrowSource needed s = .ok forms → ∀ form ∈ forms, Throughout p s →
      Throughout p form := by
  apply narrow_induct
  case query =>
    intro needed sel source filter groupBy having orderBy isDistinct lists items source' hlists hitems ih hq
    obtain ⟨given, rfl, _⟩ := keptItems_ok hlists
    have hgiven : Throughout p (.select given) := hq.child (.head _)
    have hsel : Throughout p (.select items) :=
      .intro (hp.select hgiven.here) fun d hd => hgiven.child (mem_of_keptItems hlists hitems d hd)
    refine .intro (hp.query hq.here) fun d hd => ?_
    simp only [children, List.mem_cons, List.not_mem_nil, or_false] at hd
    obtain rfl | rfl | hd := hd
    · exact hsel
    · exact ih (hq.child (by simp [children]))
    · exact hq.child (by simp [children, hd])
  case table => exact fun _ _ _ => id
  case subquery =>
    intro needed q q' asName ih hs
    exact .intro (hp.querySource hs.here) (by simpa [children] using ih (hs.child (.head _)))
  case join =>
    intro needed l l' r r' type on ihl ihr hs
    have hl := ihl (hs.child (by simp [children]))
    have hr := ihr (hs.child (by simp [children]))
    have hon : Throughout p on := hs.child (by simp [children])
    exact .intro (hp.join hs.here) (by simpa [children] using ⟨hl, hr, hon⟩)

theorem throughout_withoutName {c : Component} (h : Throughout p c) : Throughout p c.withoutName := by
  cases c with
  | named item asName => exact h.child (.head _)
  | _ => exact h

theorem arrange_throughout {outputs : List (Component × String)} (hp : Narrows p)
    (h : arrange outputs q = .ok form) (hq : Throughout p q) : Throughout p form := by
  rw [arrange.eq_def] at h
  split at h
  · rename_i given source filter groupBy having orderBy isDistinct
    obtain ⟨items, hrun, h⟩ := ok_of_bind h
    cases h
    have hgiven : Throughout p (.select given) := hq.child (.head _)
    have hitems : ∀ item ∈ items, Throughout p item := by
      intro item hitem
      obtain ⟨c, hc, name, rfl⟩ := mem_of_outputItems hrun item hitem
      exact .intro hp.named (by simpa [children] using throughout_withoutName (hgiven.child hc))
    refine .intro (hp.query hq.here) fun d hd => ?_
    rw [children, List.mem_cons] at hd
    obtain rfl | hd := hd
    · exact .intro (hp.select hgiven.here) hitems
    · exact hq.child (.tail _ hd)
  · cases h
  · cases h

theorem projections_throughout {outputs forms : List Component} {names : List String} (hp : Narrows p)
    (h : q.projections outputs names = .ok forms) (hq : Throughout p q) :
    ∀ form ∈ forms, Throughout p form := by
  obtain ⟨narrowed, hnarrowed, hforms⟩ := projections_ok h
  intro form hform
  obtain ⟨q', hq', harrange⟩ := hforms form hform
  exact arrange_throughout hp harrange ((narrow_throughout hp).1 _ _ _ hnarrowed q' hq' hq)

end Forms

end QuerySearch.Component
