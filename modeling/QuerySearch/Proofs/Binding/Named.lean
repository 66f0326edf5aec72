import QuerySearch.Proofs.Binding.Runs
import QuerySearch.Proofs.Component.Statement

/-! A bound query has names for all its sources and outputs. -/

namespace QuerySearch.Component

theorem BindsItem.isNamed {source : Environment} {item item' : Component} {asName : String}
    {s t : NameSupply} (h : BindsItem source item s item' asName t) :
    ∃ inner, item' = .named inner asName := by
  cases h with
  | named h => exact ⟨_, rfl⟩
  | unnamed hitem h hname => exact ⟨_, rfl⟩

theorem bindItems_named {source outputs outputs' : Environment} {items items' : List Component}
    {s t : NameSupply} (h : Gives (bindItems source outputs items) s (items', outputs') t) :
    ∀ c ∈ items', ∃ item asName, c = .named item asName := by
  induction items generalizing outputs items' s with
  | nil =>
    obtain ⟨rfl, _, _⟩ := gives_bindItems_nil h
    intro c hc
    cases hc
  | cons item items ih =>
    obtain ⟨item', asName, u, rest, hitem, hrest, rfl⟩ := gives_bindItems_cons h
    intro c hc
    cases hc with
    | head =>
      obtain ⟨inner, rfl⟩ := hitem.isNamed
      exact ⟨inner, asName, rfl⟩
    | tail _ hc => exact ih hrest c hc

theorem bind_named :
    (∀ c s c' env t, Gives (bindSource c) s (c', env) t → c'.SourceNamed) ∧
      ∀ c s c' env t, Gives (bindQuery c) s (c', env) t → c'.AllNamed := by
  apply bind_induct
  case table => exact fun _ _ _ _ _ _ => rfl
  case subquery => exact fun _ _ _ _ _ _ _ _ ih _ => ⟨ih, rfl⟩
  case join => exact fun _ _ _ _ _ _ _ _ _ _ _ _ ihl ihr _ => ⟨ihl, ihr⟩
  case query =>
    intro given source filter groupBy having orderBy isDistinct s source' env u filter' groupBy' having' items
      outputs t orderBy' ih _ _ _ hitems _
    exact ⟨bindItems_named hitems, ih⟩

theorem bindNames_named {q c : Component} {names names' : NameSupply}
    (h : q.bindNames names = (.ok c, names')) : c.AllNamed := by
  obtain ⟨outputs, hq⟩ := gives_of_bindNames h
  exact bind_named.2 q names c outputs names' hq

end QuerySearch.Component
