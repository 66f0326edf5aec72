import QuerySearch.Proofs.Search.Shelves
import QuerySearch.Proofs.Search.Stream
import QuerySearch.Proofs.Search.Supplied

/-! The passes of a search over the kinds.  A step finds only what is new, no query is rendered twice, and
where the cost limit is raised nothing more can be built below it. -/

namespace QuerySearch

namespace Workshop

variable {w : Workshop} {r : Remainder} {c : Component} {kind : Kind} {budget : Int}

theorem contains_of_accepts (h : w.accepts budget c = true) : w.bank.contains c = false := by
  simp only [accepts, Bool.and_eq_true, Bool.not_eq_true'] at h
  exact h.2

theorem accepts_of_mem_queries (h : c ∈ w.queries budget) : w.accepts budget c = true := by
  obtain ⟨_, _, _, _, _, h⟩ := mem_queries_iff.1 h
  obtain ⟨_, _, _, _, _, haccepts, _⟩ := mem_completions_iff.1 h
  exact haccepts

theorem contains_of_mem_build (h : c ∈ w.build kind budget) : w.bank.contains c = false := by
  cases kind with
  | query => exact contains_of_accepts (accepts_of_mem_queries h)
  | tableSource => simpa using (List.mem_filter.1 h).2
  | aggChain | windowChain | aggregation | partitionList | windowClause | groupList | sortItem | sortList
  | connection | comparison | aggWindow | funcWindow | querySource | join =>
    exact contains_of_accepts (List.mem_filter.1 h).2
  | _ => cases h

end Workshop

namespace Search

def stepped (s : Search) : (steps : Nat) → Search
  | 0 => s.varyAll
  | n + 1 => (s.stepped n).step.2

def builtKind (s : Search) : Kind :=
  builtKinds.get s.position

def seeded (s : Search) : List Component :=
  s.bank.select s.estimator (.only .query) 0 s.estimator.model []

def rendered (s : Search) : List Component :=
  if s.builtKind = .query then s.discoveries else []

def renderedBy (s : Search) : (steps : Nat) → List Component
  | 0 => s.seeded
  | n + 1 => s.renderedBy n ++ (s.stepped n).rendered

/-- Unless this pass has found something, the kinds before the current one have nothing new. -/
def Quiet (s : Search) : Prop :=
  s.grew = false → ∀ i : Fin builtKinds.length, i < s.position →
    s.workshop.build builtKinds[i] s.costLimit = []

section Passes

variable {s t : Search} {n : Nat} {q : Component}

theorem initialTexts_eq : s.initialTexts = s.seeded.flatMap s.render := rfl

theorem texts_step : s.step.1 = s.rendered.flatMap s.render := by
  rw [step, rendered]
  by_cases hkind : s.builtKind = .query
  · rw [if_pos hkind]
    exact if_pos hkind
  · rw [if_neg hkind]
    exact if_neg hkind

theorem mem_discoveries (h : q ∈ s.discoveries) :
    q ∈ s.workshop.build s.builtKind s.costLimit :=
  Bank.mem_ofList h

theorem mem_rendered (h : q ∈ s.rendered) : q ∈ s.discoveries := by
  rw [rendered] at h
  split at h
  · exact h
  · cases h

theorem build_of_discoveries (h : s.discoveries = []) :
    s.workshop.build s.builtKind s.costLimit = [] :=
  Bank.eq_nil_of_toList_ofList h

theorem step_of_discoveries (h : s.discoveries = []) : s.step.2 = s.advance := by
  rw [step, h]
  simp [Bank.insertAll]

theorem costLimit_advance : s.advance.costLimit = s.costLimit ∨
    s.advance.costLimit = s.costLimit + 1 ∧ s.grew = false ∧ s.position.val + 1 = builtKinds.length := by
  rw [advance]
  split
  · exact .inl rfl
  · rename_i hlast
    cases hgrew : s.grew with
    | true => exact .inl rfl
    | false => exact .inr ⟨rfl, rfl, Nat.le_antisymm s.position.isLt (Nat.le_of_not_lt hlast)⟩

theorem costLimit_le_step : s.costLimit ≤ s.step.2.costLimit := by
  rcases costLimit_advance (s := { s with
    bank := s.bank.insertAll s.discoveries, grew := s.grew || !s.discoveries.isEmpty }) with
    hkept | ⟨hraised, _, _⟩
  · exact Int.le_of_eq hkept.symm
  · exact Int.le_trans (Int.le_add_one (Int.le_refl s.costLimit)) (Int.le_of_eq hraised.symm)

theorem workshop_advance : s.advance.workshop = s.workshop := by
  rw [advance]
  split <;> rfl

theorem quiet_of_position (h : s.position.val = 0) : s.Quiet := by
  intro _ i hi
  rw [Fin.lt_def, h] at hi
  exact absurd hi (Nat.not_lt_zero _)

theorem Quiet.advance (h : s.Quiet) (hnow : s.workshop.build s.builtKind s.costLimit = []) :
    s.advance.Quiet := by
  rw [Search.advance]
  split
  · intro hgrew i hi
    cases Nat.lt_succ_iff_lt_or_eq.1 hi with
    | inl hi => exact h hgrew i hi
    | inr hi =>
      obtain rfl : i = s.position := Fin.ext hi
      exact hnow
  · exact quiet_of_position rfl

theorem quiet_advance_of_grew (h : s.grew = true) : s.advance.Quiet := by
  rw [Search.advance]
  split
  · exact fun hgrew => Bool.noConfusion (h.symm.trans hgrew)
  · exact quiet_of_position rfl

/-- The invariant of a pass. -/
theorem Quiet.step (h : s.Quiet) : s.step.2.Quiet := by
  by_cases hfound : s.discoveries = []
  · rw [step_of_discoveries hfound]
    exact h.advance (build_of_discoveries hfound)
  · refine quiet_advance_of_grew ?_
    simp [hfound]

/-- Only a pass that has gone over all kinds without finding anything raises the limit. -/
theorem Quiet.saturated (h : s.Quiet) (hraise : s.step.2.costLimit ≠ s.costLimit) :
    s.step.2.costLimit = s.costLimit + 1 ∧
      ∀ kind ∈ builtKinds, s.step.2.workshop.build kind s.costLimit = [] := by
  have hfound : s.discoveries = [] := by
    by_contra hfound
    rcases costLimit_advance (s := { s with
      bank := s.bank.insertAll s.discoveries, grew := s.grew || !s.discoveries.isEmpty }) with
      hkept | ⟨_, hgrew, _⟩
    · exact hraise hkept
    · simp [hfound] at hgrew
  rw [step_of_discoveries hfound] at hraise ⊢
  obtain ⟨hlimit, hgrew, hlast⟩ := costLimit_advance.resolve_left hraise
  refine ⟨hlimit, fun kind hkind => ?_⟩
  rw [workshop_advance]
  obtain ⟨i, hi, rfl⟩ := List.mem_iff_getElem.1 hkind
  cases Nat.lt_succ_iff_lt_or_eq.1 (hlast ▸ hi) with
  | inl hbefore => exact h hgrew ⟨i, hi⟩ hbefore
  | inr hhere =>
    subst hhere
    exact build_of_discoveries hfound

theorem position_foldl_vary (vs : List Variation) : (vs.foldl vary s).position = s.position := by
  induction vs generalizing s with
  | nil => rfl
  | cons v vs ih => exact ih

theorem quiet_stepped (h : s.position.val = 0) (n : Nat) : (s.stepped n).Quiet := by
  induction n with
  | zero => exact quiet_of_position ((congrArg Fin.val (position_foldl_vary _)).trans h)
  | succ n ih => exact ih.step

theorem reaches_stepped (n : Nat) : s.Reaches (s.stepped n) := by
  induction n with
  | zero => exact reaches_varyAll
  | succ n ih => exact ih.step

theorem Reaches.orderly (h : s.Reaches t) (hs : s.bank.Orderly) : t.bank.Orderly := by
  induction h with
  | refl => exact hs
  | vary _ v ih => exact ih.insertAll _
  | @step u _ ih =>
    rw [bank_step]
    exact ih.insertAll _

theorem contains_varyAll (h : s.bank.contains q = true) : s.varyAll.bank.contains q = true := by
  suffices hfold : ∀ vs : List Variation, (vs.foldl vary s).bank.contains q = true from hfold _
  intro vs
  induction vs generalizing s with
  | nil => exact h
  | cons v vs ih => exact ih ((Bank.contains_insertAll _ _ _).2 (.inl h))

theorem contains_step (h : s.bank.contains q = true) : s.step.2.bank.contains q = true := by
  rw [bank_step]
  exact (Bank.contains_insertAll _ _ _).2 (.inl h)

theorem contains_step_of_rendered (h : q ∈ s.rendered) : s.step.2.bank.contains q = true := by
  rw [bank_step]
  exact (Bank.contains_insertAll _ _ _).2 (.inr ⟨q, mem_rendered h, rfl⟩)

theorem contains_of_renderedBy (hs : s.bank.Orderly) (hq : q ∈ s.renderedBy n) :
    (s.stepped n).bank.contains q = true := by
  induction n with
  | zero => exact contains_varyAll (hs.contains_of_mem (Bank.mem_of_select hq).1)
  | succ n ih =>
    cases List.mem_append.1 hq with
    | inl hq => exact contains_step (ih hq)
    | inr hq => exact contains_step_of_rendered hq

theorem pairwise_rendered : s.rendered.Pairwise fun p q => p.fingerprint ≠ q.fingerprint := by
  rw [rendered]
  split
  · exact (Bank.orderly_ofList _).pairwise_toList
  · exact .nil

theorem pairwise_renderedBy (hs : s.bank.Orderly) (n : Nat) :
    (s.renderedBy n).Pairwise fun p q => p.fingerprint ≠ q.fingerprint := by
  induction n with
  | zero => exact hs.pairwise_select
  | succ n ih =>
    refine List.pairwise_append.2 ⟨ih, pairwise_rendered, fun p hp q hq heq => ?_⟩
    have hold := contains_of_renderedBy hs hp
    have hnew := Workshop.contains_of_mem_build (mem_discoveries (mem_rendered hq))
    rw [Bank.contains, heq] at hold
    exact Bool.noConfusion (hold.symm.trans hnew)

theorem fingerprint_ne_of_mem_build (hs : s.bank.Orderly) {kind : Kind} {budget : Int} {c d : Component}
    (hc : c ∈ s.workshop.build kind budget) (hd : d ∈ s.bank.toList) : d.fingerprint ≠ c.fingerprint := by
  intro heq
  have hheld : s.bank.contains c = true := (hs.indexed c).2 ⟨d, hd, heq⟩
  exact Bool.noConfusion (hheld.symm.trans (Workshop.contains_of_mem_build hc))

theorem orderly_start {query : Component} {names : List String} {config : SearchConfig} :
    (start query names config).bank.Orderly :=
  Bank.orderly_ofList _

end Passes

end Search

namespace Candidates

section Runs

variable {schema : Schema} {statement : Sql.Select Sql.Constant} {config : SearchConfig} {query : Component}
  {names : List String} {s : Candidates} {t : Search}

theorem Asks.stepped (h : (statement.toQuery schema 0).1 = .ok (query, names))
    (hs : (ofStatement schema statement config).Asks s) (ht : s.search = some t) :
    ∃ n, t = (Search.start query names config).stepped n := by
  induction hs generalizing t with
  | refl =>
    rw [ofStatement_eq h] at ht
    exact ⟨0, (Option.some.inj ht).symm⟩
  | @ask s _ ih =>
    rw [Candidates.ask] at ht
    split at ht
    · exact ih ht
    · rename_i search _ hsearch
      obtain ⟨n, rfl⟩ := ih hsearch
      have ht : (if isOver s.config _ then none else some _) = some t := ht
      split at ht
      · cases ht
      · exact ⟨n + 1, (Option.some.inj ht).symm⟩
    · exact ih ht

/-- In every state of the stream for a statement: where the next step raises the cost limit, no kind has
anything new up to the limit that was; what the step builds is new; and the queries rendered until then,
those from the start among them, are all different. -/
theorem asks_saturated (h : (statement.toQuery schema 0).1 = .ok (query, names))
    (hs : (ofStatement schema statement config).Asks s) (ht : s.search = some t) :
    ∃ n, t = (Search.start query names config).stepped n ∧
      (t.step.2.costLimit ≠ t.costLimit → t.step.2.costLimit = t.costLimit + 1 ∧
        ∀ kind ∈ builtKinds, t.step.2.workshop.build kind t.costLimit = []) ∧
      (∀ c ∈ t.workshop.build t.builtKind t.costLimit, ∀ d ∈ t.bank.toList,
        d.fingerprint ≠ c.fingerprint) ∧
      (Search.start query names config).initialTexts =
        (Search.start query names config).seeded.flatMap (Search.start query names config).render ∧
      t.step.1 = t.rendered.flatMap t.render ∧
      ((Search.start query names config).renderedBy (n + 1)).Pairwise
        fun p q => p.fingerprint ≠ q.fingerprint := by
  obtain ⟨n, rfl⟩ := hs.stepped h ht
  refine ⟨n, rfl, (Search.quiet_stepped rfl n).saturated, fun c hc d hd => ?_, Search.initialTexts_eq,
    Search.texts_step, Search.pairwise_renderedBy Search.orderly_start (n + 1)⟩
  exact Search.fingerprint_ne_of_mem_build ((Search.reaches_stepped n).orderly Search.orderly_start) hc hd

end Runs

open Search (scanCounts scanCountQuery parcelTables toQuery_scanCounts)

theorem asks_saturated_scanCounts :
    (scanCounts.toQuery parcelTables 0).1 = .ok (scanCountQuery, ["id", "tmp"]) ∧
      (ofStatement parcelTables scanCounts {}).Asks (ofStatement parcelTables scanCounts {}) ∧
      (ofStatement parcelTables scanCounts {}).search =
        some (Search.start scanCountQuery ["id", "tmp"] {}).varyAll ∧
      ((Search.start scanCountQuery ["id", "tmp"] {}).varyAll.step.1 =
        (Search.start scanCountQuery ["id", "tmp"] {}).varyAll.rendered.flatMap
          (Search.start scanCountQuery ["id", "tmp"] {}).varyAll.render) ∧
      ∃ n, ((Search.start scanCountQuery ["id", "tmp"] {}).renderedBy (n + 1)).Pairwise
        fun p q => p.fingerprint ≠ q.fingerprint := by
  have hsearch : (ofStatement parcelTables scanCounts {}).search =
      some (Search.start scanCountQuery ["id", "tmp"] {}).varyAll := by
    rw [ofStatement_eq toQuery_scanCounts]
  obtain ⟨n, _, _, _, _, htexts, hpairwise⟩ := asks_saturated toQuery_scanCounts .refl hsearch
  exact ⟨toQuery_scanCounts, .refl, hsearch, htexts, n, hpairwise⟩

end Candidates

end QuerySearch
