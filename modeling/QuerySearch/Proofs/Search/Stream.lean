import QuerySearch.Proofs.Search.Reached
import QuerySearch.Search.Candidates

/-! What a stream of candidates gives: a placeholder first, and then texts of queries in the states that
its search reaches. -/

namespace QuerySearch

namespace Search

variable {s t : Search} {text : String}

def Yields (s : Search) (text : String) : Prop :=
  ∃ t q, s.Reaches t ∧ (q ∈ t.bank.toList ∨ q ∈ t.discoveries) ∧ text ∈ t.render q

theorem yields_initialTexts (h : text ∈ s.initialTexts) : s.Yields text := by
  obtain ⟨q, hq, htext⟩ := List.mem_flatMap.1 h
  exact ⟨s, q, .refl, .inl (Bank.mem_of_select hq).1, htext⟩

theorem Reaches.yields_step (h : s.Reaches t) (htext : text ∈ t.step.1) : s.Yields text := by
  rw [Search.step] at htext
  dsimp only at htext
  split at htext
  · obtain ⟨q, hq, htext⟩ := List.mem_flatMap.1 htext
    exact ⟨t, q, h, .inr hq, htext⟩
  · cases htext

end Search

namespace Candidates

inductive Asks (s : Candidates) : Candidates → Prop
  | refl : Asks s s
  | ask {t : Candidates} (h : Asks s t) : Asks s t.ask.2

structure Follows (start : Search) (s : Candidates) : Prop where
  ready : ∀ item ∈ s.ready, ∃ c, item = .ok c ∧ start.Yields c.text
  search : ∀ t, s.search = some t → start.Reaches t

section Runs

variable {schema : Schema} {statement : Sql.Select Sql.Constant} {config : SearchConfig} {query : Component}
  {names : List String} {start search : Search} {s t : Candidates} {cost : Int} {text : String}
  {texts : List String} {item : Except SearchError Candidate}

theorem ready_offerAll (cost : Int) (s : Candidates) (texts : List String) :
    ∃ more, (s.offerAll cost texts).ready = s.ready ++ more ∧
      ∀ item ∈ more, ∃ text ∈ texts, item = .ok ⟨text, cost⟩ := by
  induction texts generalizing s with
  | nil => exact ⟨[], (List.append_nil _).symm, by simp⟩
  | cons text texts ih =>
    obtain ⟨more, hready, hmore⟩ := ih (s.offer cost text)
    have htail : ∀ item ∈ more, ∃ text' ∈ text :: texts, item = .ok ⟨text', cost⟩ := by
      intro item hitem
      obtain ⟨text', htext', rfl⟩ := hmore item hitem
      exact ⟨text', .tail _ htext', rfl⟩
    by_cases hseen : s.config.distinctText && s.seen.contains text
    · have hoffer : s.offer cost text = s := if_pos hseen
      rw [hoffer] at hready
      refine ⟨more, ?_, htail⟩
      rw [offerAll, List.foldl_cons, hoffer]
      exact hready
    · have hoffer : (s.offer cost text).ready = s.ready ++ [.ok ⟨text, cost⟩] := by
        rw [offer, if_neg hseen]
      refine ⟨.ok ⟨text, cost⟩ :: more, ?_, List.forall_mem_cons.2 ⟨⟨text, .head _, rfl⟩, htail⟩⟩
      rw [offerAll, List.foldl_cons]
      refine hready.trans ?_
      rw [hoffer, List.append_assoc, List.singleton_append]

theorem config_offerAll : (s.offerAll cost texts).config = s.config := by
  induction texts generalizing s with
  | nil => rfl
  | cons text texts ih =>
    rw [offerAll, List.foldl_cons]
    refine ih.trans ?_
    rw [offer]
    split <;> rfl

theorem ready_offerAll_of_repeat (cost : Int) (s : Candidates) (texts : List String)
    (h : s.config.distinctText = false) :
    (s.offerAll cost texts).ready = s.ready ++ texts.map fun text => .ok ⟨text, cost⟩ := by
  induction texts generalizing s with
  | nil => exact (List.append_nil _).symm
  | cons text texts ih =>
    have hoffer : s.offer cost text =
        { s with ready := s.ready ++ [.ok ⟨text, cost⟩], seen := s.seen.insert text } := by
      rw [offer, h]
      rfl
    have hrest := ih (s.offer cost text) (by rw [hoffer]; exact h)
    rw [offerAll, List.foldl_cons]
    refine hrest.trans ?_
    rw [hoffer, List.append_assoc, List.map_cons, List.singleton_append]

theorem Asks.head (h : s.ask.2.Asks t) : s.Asks t := by
  induction h with
  | refl => exact .ask .refl
  | ask _ ih => exact .ask ih

theorem mem_ready_of_ask (h : s.ask.1 = .item item) : item ∈ s.ready := by
  rw [ask] at h
  split at h
  · rename_i first rest _ hready
    cases h
    rw [hready]
    exact .head _
  · cases h
  · cases h

theorem exists_asks_of_mem (h : item ∈ s.ready) : ∃ t, s.Asks t ∧ t.ask.1 = .item item := by
  obtain ⟨before, after, hready⟩ := List.append_of_mem h
  clear h
  induction before generalizing s with
  | nil =>
    refine ⟨s, .refl, ?_⟩
    rw [ask, hready]
    rfl
  | cons first before ih =>
    have hrest : s.ask.2.ready = before ++ item :: after := by
      rw [ask, hready]
      rfl
    obtain ⟨t, ht, hitem⟩ := ih hrest
    exact ⟨t, ht.head, hitem⟩

theorem Follows.advance (h : Follows start s) (hsearch : s.search = some search) :
    Follows start (s.advance search) := by
  have hreached := h.search search hsearch
  constructor
  · intro item hitem
    obtain ⟨more, hready, hmore⟩ := ready_offerAll search.costLimit s search.step.1
    have hitem : item ∈ (s.offerAll search.costLimit search.step.1).ready := hitem
    rw [hready, List.mem_append] at hitem
    cases hitem with
    | inl hitem => exact h.ready item hitem
    | inr hitem =>
      obtain ⟨text, htext, rfl⟩ := hmore item hitem
      exact ⟨_, rfl, hreached.yields_step htext⟩
  · intro t ht
    have ht : (if isOver s.config search.step.2 then none else some search.step.2) = some t := ht
    split at ht
    · cases ht
    · cases ht
      exact hreached.step

theorem Follows.ask (h : Follows start s) : Follows start s.ask.2 := by
  rw [Candidates.ask]
  split
  · rename_i item rest _ hready
    refine ⟨fun item' hitem => h.ready item' ?_, h.search⟩
    rw [hready]
    exact .tail _ hitem
  · rename_i search _ hsearch
    exact h.advance hsearch
  · exact h

theorem Asks.follows (h : s.Asks t) (hs : Follows start s) : Follows start t := by
  induction h with
  | refl => exact hs
  | ask _ ih => exact ih.ask

theorem ready_placeholder (n : Nat) :
    (offer 0 ⟨config, [], none, {}⟩ (placeholder n)).ready = [.ok ⟨placeholder n, 0⟩] ∧
      (offer 0 ⟨config, [], none, {}⟩ (placeholder n)).config = config := by
  simp [offer]

theorem ofStatement_eq (h : (statement.toQuery schema 0).1 = .ok (query, names)) :
    ofStatement schema statement config =
      { (offer 0 ⟨config, [], none, {}⟩ (placeholder statement.items.length)).offerAll 0
          (Search.start query names config).initialTexts with
        search := some (Search.start query names config).varyAll } := by
  rw [ofStatement, h]

theorem ofStatement_error {e : ResolveError} (config : SearchConfig)
    (h : (statement.toQuery schema 0).1 = .error e) :
    (ofStatement schema statement config).ready =
        [.ok ⟨placeholder statement.items.length, 0⟩, .error ⟨e⟩] ∧
      (ofStatement schema statement config).search = none := by
  simp [ofStatement, h, offer]

theorem config_ofStatement : (ofStatement schema statement config).config = config := by
  cases h : (statement.toQuery schema 0).1 with
  | error e => simp [ofStatement, h, offer]
  | ok result =>
    rw [ofStatement_eq h]
    dsimp only
    rw [config_offerAll, (ready_placeholder _).2]

theorem ready_ofStatement (schema : Schema) (statement : Sql.Select Sql.Constant) (config : SearchConfig) :
    ∃ rest, (ofStatement schema statement config).ready =
      .ok ⟨placeholder statement.items.length, 0⟩ :: rest := by
  cases h : (statement.toQuery schema 0).1 with
  | error e => exact ⟨_, (ofStatement_error config h).1⟩
  | ok result =>
    obtain ⟨more, hready, _⟩ := ready_offerAll 0
      (offer 0 ⟨config, [], none, {}⟩ (placeholder statement.items.length))
      (Search.start result.1 result.2 config).initialTexts
    rw [(ready_placeholder _).1] at hready
    rw [ofStatement_eq h]
    dsimp only
    exact ⟨more, hready⟩

theorem ask_ofStatement (config : SearchConfig)
    (h : (statement.toQuery schema 0).1 = .ok (query, names)) :
    ((ofStatement schema statement config).ask).1 =
        .item (.ok ⟨placeholder statement.items.length, 0⟩) ∧
      Follows (Search.start query names config) (ofStatement schema statement config).ask.2 := by
  obtain ⟨more, hready, hmore⟩ := ready_offerAll 0
    (offer 0 ⟨config, [], none, {}⟩ (placeholder statement.items.length))
    (Search.start query names config).initialTexts
  rw [(ready_placeholder _).1] at hready
  rw [ofStatement_eq h, Candidates.ask, hready]
  refine ⟨rfl, ?_, ?_⟩
  · intro item hitem
    obtain ⟨text, htext, rfl⟩ := hmore item hitem
    exact ⟨_, rfl, Search.yields_initialTexts htext⟩
  · intro t ht
    rw [← Option.some.inj ht]
    exact Search.reaches_varyAll

theorem Asks.yields {c : Candidate} (h : (statement.toQuery schema 0).1 = .ok (query, names))
    (hs : (ofStatement schema statement config).ask.2.Asks s) (hc : s.ask.1 = .item (.ok c)) :
    (Search.start query names config).Yields c.text := by
  obtain ⟨c', hc', hyields⟩ := (hs.follows (ask_ofStatement config h).2).ready _ (mem_ready_of_ask hc)
  cases hc'
  exact hyields

theorem exists_asks_of_initial (h : (statement.toQuery schema 0).1 = .ok (query, names))
    (hrepeat : config.distinctText = false)
    (htext : text ∈ (Search.start query names config).initialTexts) :
    ∃ s, (ofStatement schema statement config).ask.2.Asks s ∧ s.ask.1 = .item (.ok ⟨text, 0⟩) := by
  have hready := ready_offerAll_of_repeat 0
    (offer 0 ⟨config, [], none, {}⟩ (placeholder statement.items.length))
    (Search.start query names config).initialTexts ((ready_placeholder _).2 ▸ hrepeat)
  rw [(ready_placeholder _).1, List.singleton_append] at hready
  apply exists_asks_of_mem
  rw [ofStatement_eq h, Candidates.ask, hready]
  dsimp only
  rw [List.mem_map]
  exact ⟨text, htext, rfl⟩

end Runs

end Candidates

end QuerySearch
