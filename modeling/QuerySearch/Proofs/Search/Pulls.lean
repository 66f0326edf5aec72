import QuerySearch.Proofs.Search.Stream

/-! A stream answers a call after it has been asked as often as it takes, so that the calls give what
the asks give, in the same order. -/

namespace QuerySearch

def Answer.items {α : Type} : Answer α → List α
  | .item a => [a]
  | .notYet | .ended => []

namespace Candidates

def asked (s : Candidates) : (asks : Nat) → Candidates
  | 0 => s
  | n + 1 => (s.asked n).ask.2

def told (s : Candidates) : (asks : Nat) → List (Except SearchError Candidate)
  | 0 => []
  | n + 1 => s.told n ++ (s.asked n).ask.1.items

def pulled (s : Candidates) (fuel : Nat) : (calls : Nat) → Candidates
  | 0 => s
  | n + 1 => ((s.pulled fuel n).next fuel).2

def given (s : Candidates) (fuel : Nat) : (calls : Nat) → List (Except SearchError Candidate)
  | 0 => []
  | n + 1 => s.given fuel n ++ ((s.pulled fuel n).next fuel).1.items

def IsExhausted (s : Candidates) : Prop :=
  s.ready = [] ∧ s.search = none

section Calls

variable {s t : Candidates} {fuel calls n : Nat} {item : Except SearchError Candidate}
  {rest : List (Except SearchError Candidate)} {search : Search}

theorem ask_of_ready (h : s.ready = item :: rest) : s.ask = (.item item, { s with ready := rest }) := by
  rw [ask, h]

theorem ask_of_search (hready : s.ready = []) (hsearch : s.search = some search) :
    s.ask = (.notYet, s.advance search) := by
  rw [ask, hready, hsearch]

theorem IsExhausted.ask (h : s.IsExhausted) : s.ask = (.ended, s) := by
  rw [Candidates.ask, h.1, h.2]

theorem ask_cases (s : Candidates) :
    (∃ item rest, s.ready = item :: rest ∧ s.ask = (.item item, { s with ready := rest })) ∨
      (∃ search, s.ready = [] ∧ s.search = some search ∧ s.ask = (.notYet, s.advance search)) ∨
      s.IsExhausted ∧ s.ask = (.ended, s) := by
  cases hready : s.ready with
  | cons item rest => exact .inl ⟨item, rest, rfl, ask_of_ready hready⟩
  | nil =>
    cases hsearch : s.search with
    | some search => exact .inr (.inl ⟨search, rfl, rfl, ask_of_search hready hsearch⟩)
    | none => exact .inr (.inr ⟨⟨hready, hsearch⟩, IsExhausted.ask ⟨hready, hsearch⟩⟩)

theorem asked_succ' (s : Candidates) (n : Nat) : s.asked (n + 1) = s.ask.2.asked n := by
  induction n with
  | zero => rfl
  | succ n ih => exact congrArg (fun t => t.ask.2) ih

theorem asked_add (s : Candidates) (m n : Nat) : s.asked (m + n) = (s.asked m).asked n := by
  induction n with
  | zero => rfl
  | succ n ih => exact congrArg (fun t => t.ask.2) ih

theorem told_add (s : Candidates) (m n : Nat) : s.told (m + n) = s.told m ++ (s.asked m).told n := by
  induction n with
  | zero => exact (List.append_nil _).symm
  | succ n ih =>
    have hlast : s.told (m + n + 1) = s.told (m + n) ++ (s.asked (m + n)).ask.1.items := rfl
    rw [Nat.add_succ, hlast, ih, asked_add, List.append_assoc]
    rfl

theorem IsExhausted.asked (h : s.IsExhausted) (n : Nat) : s.asked n = s := by
  induction n with
  | zero => rfl
  | succ n ih =>
    have hlast : s.asked (n + 1) = (s.asked n).ask.2 := rfl
    rw [hlast, ih, h.ask]

theorem next_of_notYet (h : s.ask.1 = .notYet) : s.next (fuel + 1) = s.ask.2.next fuel := by
  rw [next]
  split
  · rename_i hask
    rw [hask]
  · rename_i hnot
    exact (hnot s.ask.2 (Prod.ext h rfl)).elim

theorem next_of_ready (h : s.ready = item :: rest) :
    s.next (fuel + 1) = (.item item, { s with ready := rest }) := by
  rw [next, ask_of_ready h]

theorem IsExhausted.next (h : s.IsExhausted) : s.next (fuel + 1) = (.ended, s) := by
  rw [Candidates.next, h.ask]

theorem next_asked (s : Candidates) (fuel : Nat) :
    ∃ n, (s.next fuel).2 = s.asked n ∧ s.told n = (s.next fuel).1.items ∧ (fuel ≠ 0 → n ≠ 0) := by
  induction fuel generalizing s with
  | zero => exact ⟨0, rfl, rfl, id⟩
  | succ fuel ih =>
    obtain ⟨item, rest, _, hask⟩ | ⟨search, _, _, hask⟩ | ⟨_, hask⟩ := ask_cases s
    · exact ⟨1, by simp [next, asked, told, hask, Answer.items]⟩
    · obtain ⟨n, hstate, htold, _⟩ := ih s.ask.2
      have hfirst : s.told 1 = [] := by
        simp [told, asked, hask, Answer.items]
      rw [next_of_notYet (by rw [hask])]
      refine ⟨n + 1, ?_, ?_, fun _ => Nat.succ_ne_zero n⟩
      · rw [asked_succ', hstate]
      · rw [Nat.add_comm, told_add, hfirst, List.nil_append]
        exact htold
    · exact ⟨1, by simp [next, asked, told, hask, Answer.items]⟩

theorem pulled_asked (s : Candidates) (fuel calls : Nat) :
    ∃ n, s.pulled fuel calls = s.asked n ∧ s.given fuel calls = s.told n ∧ (fuel ≠ 0 → calls ≤ n) := by
  induction calls with
  | zero => exact ⟨0, rfl, rfl, fun _ => Nat.le_refl 0⟩
  | succ calls ih =>
    obtain ⟨n, hstate, htold, hcalls⟩ := ih
    obtain ⟨k, hstate', htold', hasks⟩ := next_asked (s.pulled fuel calls) fuel
    refine ⟨n + k, ?_, ?_, fun h => Nat.add_le_add (hcalls h) (Nat.pos_of_ne_zero (hasks h))⟩
    · rw [asked_add, ← hstate, ← hstate']
      rfl
    · rw [told_add, ← htold, ← hstate, htold']
      rfl

end Calls

end Candidates

end QuerySearch
