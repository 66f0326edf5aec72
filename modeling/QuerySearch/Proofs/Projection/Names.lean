import QuerySearch.Proofs.Binding.Distinct
import QuerySearch.Proofs.Projection.Throughout

/-! A narrowed query reads from sources with the same names, and none of its columns is bound. -/

namespace QuerySearch.Component

def SameNames (c c' : Component) : Prop := c'.fromNames = c.fromNames ∧ c'.clauseNames = c.clauseNames

section Same

variable {c c' l l' r r' on on' q q' source source' : Component} {type : JoinType}
  {asName : Option String}

theorem SameNames.querySource (h : SameNames q q') :
    SameNames (.querySource q asName) (.querySource q' asName) :=
  ⟨by rw [fromNames_querySource, fromNames_querySource], h.2⟩

theorem SameNames.join (hl : SameNames l l') (hr : SameNames r r') :
    SameNames (.join l r type on) (.join l' r' type on') := by
  constructor
  · rw [fromNames_join, fromNames_join, hl.1, hr.1]
  · rw [clauseNames, clauseNames, hl.2, hr.2]

theorem SameNames.query {sel sel' filter filter' groupBy groupBy' having having' orderBy orderBy' : Component}
    {isDistinct : Bool} (h : SameNames source source') :
    SameNames (.query sel source filter groupBy having orderBy isDistinct)
      (.query sel' source' filter' groupBy' having' orderBy' isDistinct) :=
  ⟨rfl, by rw [clauseNames, clauseNames, h.1, h.2]⟩

theorem narrow_sameNames :
    (∀ needed q forms, narrowQuery needed q = .ok forms → ∀ form ∈ forms, SameNames q form) ∧
      ∀ needed s forms, narrowSource needed s = .ok forms → ∀ form ∈ forms, SameNames s form := by
  apply narrow_induct
  case query => exact fun _ _ _ _ _ _ _ _ _ _ _ _ _ ih => ih.query
  case table => exact fun _ _ _ => ⟨rfl, rfl⟩
  case subquery => exact fun _ _ _ _ ih => ih.querySource
  case join => exact fun _ _ _ _ _ _ _ ihl ihr => ihl.join ihr

theorem arrange_sameNames {outputs : List (Component × String)} {form : Component}
    (h : arrange outputs q = .ok form) : SameNames q form := by
  rw [arrange.eq_def] at h
  split at h
  · obtain ⟨items, _, h⟩ := ok_of_bind h
    cases h
    exact SameNames.query ⟨rfl, rfl⟩
  · cases h
  · cases h

theorem projections_sameNames {outputs forms : List Component} {names : List String}
    (h : q.projections outputs names = .ok forms) : ∀ form ∈ forms, SameNames q form := by
  obtain ⟨narrowed, hnarrowed, hforms⟩ := projections_ok h
  intro form hform
  obtain ⟨q', hq', harrange⟩ := hforms form hform
  have hnames := narrow_sameNames.1 _ _ _ hnarrowed q' hq'
  have hnames' := arrange_sameNames harrange
  exact ⟨hnames'.1.trans hnames.1, hnames'.2.trans hnames.2⟩

end Same

theorem projections_unread {q : Component} {outputs forms : List Component} {names : List String}
    (h : q.projections outputs names = .ok forms) (hq : q.Unread) : ∀ form ∈ forms, form.Unread := by
  have hunread : Narrows fun c => ¬ c.IsBound := {
    select := fun _ => id
    named := id
    querySource := fun _ => id
    join := fun _ => id
    query := fun _ => id }
  exact projections_throughout hunread h hq

end QuerySearch.Component
