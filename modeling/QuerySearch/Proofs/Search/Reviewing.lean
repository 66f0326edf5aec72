import QuerySearch.Proofs.Search.Pulls
import QuerySearch.Search.Review

/-! Reviews call by call.  An oracle that keeps a record of its calls shows what it was asked and what it
was shown, and reports, statistics and counterexamples can be read off the record. -/

namespace QuerySearch

variable {σ ε : Type}

structure Consultation (ε : Type) where
  candidate : String
  query : String
  shown : List ε
  opinion : Opinion ε

def Oracle.recorded (oracle : Oracle σ ε) : Oracle (σ × List (Consultation ε)) ε :=
  fun candidate query shown state =>
    let (opinion, next) := (oracle candidate query shown).run state.1
    (opinion, next, state.2 ++ [⟨candidate, query, shown, opinion⟩])

namespace Consultation

def accepts (call : Consultation ε) : Bool :=
  match call.opinion with
  | .ok (accepted, _) => accepted
  | .error _ => false

def fails (call : Consultation ε) : Bool :=
  match call.opinion with
  | .ok _ => false
  | .error _ => true

def rejection (call : Consultation ε) : Option (List ε) :=
  match call.opinion with
  | .ok (false, counterexamples) => some counterexamples
  | _ => none

def latest (calls : List (Consultation ε)) : List ε := (calls.reverse.findSome? rejection).getD []

def tally (calls : List (Consultation ε)) : ReviewStats where
  generated := calls.length
  passed := calls.countP accepts
  broken := calls.countP fails

def report (call : Consultation ε) (stats : ReviewStats) : Option Report :=
  match call.opinion with
  | .ok (true, _) => some ⟨call.candidate, .equivalent, stats⟩
  | .ok (false, _) => none
  | .error causes => some ⟨call.candidate, .broken (": ".intercalate causes), stats⟩

def answers (before : List (Consultation ε)) : List (Except SearchError Candidate) →
    List (Consultation ε) → List (Except SearchError Report)
  | .error e :: items, calls => .error e :: answers before items calls
  | .ok _ :: items, call :: calls =>
    (call.report (tally (before ++ [call]))).toList.map .ok ++ answers (before ++ [call]) items calls
  | _, _ => []

end Consultation

def ReviewStats.after (stats : ReviewStats) (call : Consultation ε) : ReviewStats where
  generated := stats.generated + 1
  passed := if call.accepts then stats.passed + 1 else stats.passed
  broken := if call.fails then stats.broken + 1 else stats.broken

def candidateTexts (items : List (Except SearchError Candidate)) : List String :=
  items.filterMap fun item => item.toOption.map (·.text)

namespace Review

open Consultation (latest tally answers)

def asked (r : Review σ ε) : (asks : Nat) → Review σ ε
  | 0 => r
  | n + 1 => (r.asked n).ask.2

def told (r : Review σ ε) : (asks : Nat) → List (Except SearchError Report)
  | 0 => []
  | n + 1 => r.told n ++ (r.asked n).ask.1.items

def pulled (r : Review σ ε) (fuel : Nat) : (calls : Nat) → Review σ ε
  | 0 => r
  | n + 1 => ((r.pulled fuel n).next fuel).2

def given (r : Review σ ε) (fuel : Nat) : (calls : Nat) → List (Except SearchError Report)
  | 0 => []
  | n + 1 => r.given fuel n ++ ((r.pulled fuel n).next fuel).1.items

def consulted (r : Review σ ε) (c : Candidate) : Consultation ε where
  candidate := c.text
  query := r.query
  shown := r.counterexamples
  opinion := (r.oracle c.text r.query r.counterexamples r.state).1

def start (candidates : Candidates) (oracle : Oracle σ ε) (state : σ) (query : String) : Review σ ε :=
  { candidates, oracle, state, query }

/-- The review by an oracle whose calls a review has on record. -/
def unrecorded (r : Review (σ × List (Consultation ε)) ε) (oracle : Oracle σ ε) : Review σ ε where
  candidates := r.candidates
  oracle := oracle
  state := r.state.1
  query := r.query
  counterexamples := r.counterexamples
  stats := r.stats

/-- The items of a stream have been reviewed: the oracle has been asked about each candidate once and in
order, always with the same query and with the counterexamples of its latest rejection, and what has been
given out is what its opinions lead to, and the errors of the stream. -/
structure Conducted (query : String) (items : List (Except SearchError Candidate))
    (r : Review (σ × List (Consultation ε)) ε) (reports : List (Except SearchError Report)) : Prop where
  candidates : r.state.2.map (·.candidate) = candidateTexts items
  queries : ∀ call ∈ r.state.2, call.query = query
  shown : ∀ n call, r.state.2[n]? = some call → call.shown = latest (r.state.2.take n)
  reports : reports = answers [] items r.state.2
  stats : r.stats = tally r.state.2
  rejections : ∀ n, let stats := tally (r.state.2.take n)
    stats.generated - stats.passed - stats.broken =
      (r.state.2.take n).countP fun call => call.rejection.isSome
  counterexamples : r.counterexamples = latest r.state.2

end Review

namespace Consultation

variable {call : Consultation ε} {before calls : List (Consultation ε)}
  {items : List (Except SearchError Candidate)} {c : Candidate} {e : SearchError}

theorem latest_append (calls : List (Consultation ε)) (call : Consultation ε) :
    latest (calls ++ [call]) = call.rejection.getD (latest calls) := by
  cases h : call.rejection <;> simp [latest, h]

theorem countP_rejection (calls : List (Consultation ε)) :
    calls.length - calls.countP accepts - calls.countP fails =
      calls.countP fun call => call.rejection.isSome := by
  have hsum : calls.countP accepts + calls.countP fails +
      (calls.countP fun call => call.rejection.isSome) = calls.length := by
    induction calls with
    | nil => rfl
    | cons call calls ih =>
      simp only [List.countP_cons, List.length_cons, ← ih]
      rcases h : call.opinion with causes | ⟨accepted, counterexamples⟩
      · simp [accepts, fails, rejection, h]
        omega
      · cases accepted <;> simp [accepts, fails, rejection, h] <;> omega
  omega

theorem tally_append (calls : List (Consultation ε)) (call : Consultation ε) :
    tally (calls ++ [call]) = (tally calls).after call := by
  cases ha : call.accepts <;> cases hf : call.fails <;> simp [tally, ReviewStats.after, ha, hf]

theorem answers_error (h : calls.map (·.candidate) = candidateTexts items) :
    answers before (items ++ [.error e]) calls = answers before items calls ++ [.error e] := by
  induction items generalizing before calls with
  | nil => simp [answers]
  | cons item items ih =>
    cases item with
    | error e' => simp [answers, ih h]
    | ok c =>
      cases calls with
      | nil => cases h
      | cons call calls => simp [answers, ih (List.cons.inj h).2]

theorem answers_ok (h : calls.map (·.candidate) = candidateTexts items) :
    answers before (items ++ [.ok c]) (calls ++ [call]) = answers before items calls ++
      (call.report (tally (before ++ calls ++ [call]))).toList.map .ok := by
  induction items generalizing before calls with
  | nil =>
    obtain rfl : calls = [] := List.map_eq_nil_iff.1 h
    simp [answers]
  | cons item items ih =>
    cases item with
    | error e' => simp [answers, ih h]
    | ok c =>
      cases calls with
      | nil => cases h
      | cons call' calls => simp [answers, ih (List.cons.inj h).2]

end Consultation

namespace Review

open Consultation (tally_append latest_append countP_rejection answers_error answers_ok)

section Runs

variable {oracle : Oracle σ ε} {r : Review σ ε} {s : Review (σ × List (Consultation ε)) ε}
  {query : String} {items : List (Except SearchError Candidate)}
  {reports : List (Except SearchError Report)} {c : Candidate} {fuel calls n : Nat}

theorem asked_succ' (r : Review σ ε) (n : Nat) : r.asked (n + 1) = r.ask.2.asked n := by
  induction n with
  | zero => rfl
  | succ n ih => exact congrArg (fun r => r.ask.2) ih

theorem asked_add (r : Review σ ε) (m n : Nat) : r.asked (m + n) = (r.asked m).asked n := by
  induction n with
  | zero => rfl
  | succ n ih => exact congrArg (fun r => r.ask.2) ih

theorem told_add (r : Review σ ε) (m n : Nat) : r.told (m + n) = r.told m ++ (r.asked m).told n := by
  induction n with
  | zero => exact (List.append_nil _).symm
  | succ n ih =>
    have hlast : r.told (m + n + 1) = r.told (m + n) ++ (r.asked (m + n)).ask.1.items := rfl
    rw [Nat.add_succ, hlast, ih, asked_add, List.append_assoc]
    rfl

theorem next_asked (r : Review σ ε) (fuel : Nat) :
    ∃ n, (r.next fuel).2 = r.asked n ∧ r.told n = (r.next fuel).1.items ∧ (fuel = 0 ∨ 1 ≤ n) := by
  induction fuel generalizing r with
  | zero => exact ⟨0, rfl, rfl, .inl rfl⟩
  | succ fuel ih =>
    rw [next]
    split
    · rename_i r' hask
      obtain ⟨n, hstate, htold, _⟩ := ih r'
      have hfirst : r.told 1 = [] := by simp [told, asked, hask, Answer.items]
      refine ⟨n + 1, ?_, ?_, .inr (Nat.le_add_left 1 n)⟩
      · rw [asked_succ', hask, hstate]
      · rw [Nat.add_comm, told_add, hfirst, List.nil_append, ← htold]
        simp [asked, hask]
    · exact ⟨1, rfl, rfl, .inr (Nat.le_refl 1)⟩

theorem pulled_asked (r : Review σ ε) (fuel calls : Nat) :
    ∃ n, r.pulled fuel calls = r.asked n ∧ r.given fuel calls = r.told n ∧ (fuel = 0 ∨ calls ≤ n) := by
  induction calls with
  | zero => exact ⟨0, rfl, rfl, .inr (Nat.le_refl 0)⟩
  | succ calls ih =>
    obtain ⟨n, hstate, htold, hcalls⟩ := ih
    obtain ⟨k, hstate', htold', hasks⟩ := next_asked (r.pulled fuel calls) fuel
    refine ⟨n + k, ?_, ?_, by omega⟩
    · rw [asked_add, ← hstate, ← hstate', pulled]
    · rw [told_add, ← htold, ← hstate, htold', given]

end Runs

section Conduct

open Consultation (latest tally answers)

variable {oracle : Oracle σ ε} {query : String} {items : List (Except SearchError Candidate)}
  {reports : List (Except SearchError Report)}

theorem ask_cases (r : Review σ ε) :
    (r.candidates.ask.1.items = [] ∧ r.ask.1.items = [] ∧
        r.ask.2 = { r with candidates := r.candidates.ask.2 }) ∨
      (∃ e, r.candidates.ask.1.items = [.error e] ∧ r.ask.1.items = [.error e] ∧
        r.ask.2 = { r with candidates := r.candidates.ask.2 }) ∨
      ∃ c, r.candidates.ask.1.items = [.ok c] ∧
        r.ask.1.items = (judge { r with candidates := r.candidates.ask.2 } c).1.items.map .ok ∧
        r.ask.2 = (judge { r with candidates := r.candidates.ask.2 } c).2 := by
  rw [ask]
  rcases r.candidates.ask with ⟨⟨e | c⟩ | _ | _, candidates⟩
  · exact .inr (.inl ⟨e, rfl, rfl, rfl⟩)
  · refine .inr (.inr ⟨c, rfl, ?_⟩)
    rcases h : judge { r with candidates } c with ⟨_ | _ | _, r'⟩ <;> simp [Answer.items, h]
  · exact .inl ⟨rfl, rfl, rfl⟩
  · exact .inl ⟨rfl, rfl, rfl⟩

theorem judge_consulted (r : Review σ ε) (c : Candidate) :
    (judge r c).1.items = ((r.consulted c).report (r.stats.after (r.consulted c))).toList ∧
      (judge r c).2 = { r with
        state := (r.oracle c.text r.query r.counterexamples r.state).2
        stats := r.stats.after (r.consulted c)
        counterexamples := (r.consulted c).rejection.getD r.counterexamples } := by
  simp only [judge, consulted, StateT.run]
  rcases r.oracle c.text r.query r.counterexamples r.state with ⟨causes | ⟨accepted, shown⟩, state⟩
  · exact ⟨rfl, rfl⟩
  · cases accepted <;> exact ⟨rfl, rfl⟩

theorem judge_recorded {r : Review (σ × List (Consultation ε)) ε} (h : r.oracle = oracle.recorded)
    (c : Candidate) : (judge r c).2.state.2 = r.state.2 ++ [r.consulted c] := by
  rw [(judge_consulted r c).2, consulted, h]
  rfl

theorem ask_candidates (r : Review σ ε) : r.ask.2.candidates = r.candidates.ask.2 := by
  obtain ⟨_, _, hask⟩ | ⟨_, _, _, hask⟩ | ⟨c, _, _, hask⟩ := ask_cases r
  · rw [hask]
  · rw [hask]
  · rw [hask, (judge_consulted _ c).2]

theorem ask_query (r : Review σ ε) : r.ask.2.query = r.query := by
  obtain ⟨_, _, hask⟩ | ⟨_, _, _, hask⟩ | ⟨c, _, _, hask⟩ := ask_cases r
  · rw [hask]
  · rw [hask]
  · rw [hask, (judge_consulted _ c).2]

theorem ask_oracle (r : Review σ ε) : r.ask.2.oracle = r.oracle := by
  obtain ⟨_, _, hask⟩ | ⟨_, _, _, hask⟩ | ⟨c, _, _, hask⟩ := ask_cases r
  · rw [hask]
  · rw [hask]
  · rw [hask, (judge_consulted _ c).2]

theorem asked_candidates (r : Review σ ε) (n : Nat) :
    (r.asked n).candidates = r.candidates.asked n := by
  induction n with
  | zero => rfl
  | succ n ih => rw [asked, ask_candidates, ih, Candidates.asked]

theorem asked_query (r : Review σ ε) (n : Nat) : (r.asked n).query = r.query := by
  induction n with
  | zero => rfl
  | succ n ih => rw [asked, ask_query, ih]

theorem asked_oracle (r : Review σ ε) (n : Nat) : (r.asked n).oracle = r.oracle := by
  induction n with
  | zero => rfl
  | succ n ih => rw [asked, ask_oracle, ih]

namespace Conducted

variable {r : Review (σ × List (Consultation ε)) ε} {candidates : Candidates} {c : Candidate}
  {e : SearchError}

theorem nil (query : String) (candidates : Candidates) (oracle : Oracle σ ε) (state : σ) :
    Conducted query [] (start candidates oracle.recorded (state, []) query) [] where
  candidates := rfl
  queries := by simp [start]
  shown := by simp [start]
  reports := rfl
  stats := rfl
  rejections n := countP_rejection _
  counterexamples := rfl

theorem waiting (h : Conducted query items r reports) :
    Conducted query items { r with candidates } reports :=
  ⟨h.candidates, h.queries, h.shown, h.reports, h.stats, h.rejections, h.counterexamples⟩

theorem error (h : Conducted query items r reports) :
    Conducted query (items ++ [.error e]) r (reports ++ [.error e]) where
  candidates := by simp [h.candidates, candidateTexts, Except.toOption]
  queries := h.queries
  shown := h.shown
  reports := by rw [h.reports, answers_error h.candidates]
  stats := h.stats
  rejections := h.rejections
  counterexamples := h.counterexamples

theorem judge (h : Conducted query items r reports) (hquery : r.query = query)
    (horacle : r.oracle = oracle.recorded) :
    Conducted query (items ++ [.ok c]) (r.judge c).2 (reports ++ (r.judge c).1.items.map .ok) := by
  have hcalls := judge_recorded horacle c
  have hstats : r.stats.after (r.consulted c) = tally (r.state.2 ++ [r.consulted c]) := by
    rw [h.stats, tally_append]
  constructor
  · rw [hcalls]
    simp [h.candidates, candidateTexts, Except.toOption, consulted]
  · rw [hcalls]
    intro call hcall
    rcases List.mem_append.1 hcall with hcall | hcall
    · exact h.queries call hcall
    · rw [List.mem_singleton.1 hcall]
      exact hquery
  · rw [hcalls]
    intro n call hcall
    rcases Nat.lt_or_ge n r.state.2.length with hn | hn
    · rw [List.getElem?_append_left hn] at hcall
      rw [List.take_append_of_le_length hn.le]
      exact h.shown n call hcall
    · rw [List.getElem?_append_right hn, List.getElem?_singleton] at hcall
      split at hcall
      · rw [← Option.some.inj hcall, List.take_append_of_le_length (by omega),
          List.take_of_length_le hn, ← h.counterexamples]
        rfl
      · cases hcall
  · rw [hcalls, (judge_consulted r c).1, hstats, answers_ok h.candidates, h.reports, List.nil_append]
  · rw [hcalls, (judge_consulted r c).2, hstats]
  · intro n
    exact countP_rejection _
  · rw [hcalls, (judge_consulted r c).2, latest_append, h.counterexamples]

theorem ask (h : Conducted query items r reports) (hquery : r.query = query)
    (horacle : r.oracle = oracle.recorded) :
    Conducted query (items ++ r.candidates.ask.1.items) r.ask.2 (reports ++ r.ask.1.items) := by
  obtain ⟨hitems, hgiven, hask⟩ | ⟨e, hitems, hgiven, hask⟩ | ⟨c, hitems, hgiven, hask⟩ := ask_cases r
  · rw [hitems, hgiven, hask, List.append_nil, List.append_nil]
    exact h.waiting
  · rw [hitems, hgiven, hask]
    exact h.waiting.error
  · rw [hitems, hgiven, hask]
    exact h.waiting.judge hquery horacle

theorem asked (query : String) (candidates : Candidates) (oracle : Oracle σ ε) (state : σ) (n : Nat) :
    let r := start candidates oracle.recorded (state, []) query
    Conducted query (candidates.told n) (r.asked n) (r.told n) := by
  induction n with
  | zero => exact nil query candidates oracle state
  | succ n ih =>
    have hcandidates := asked_candidates (start candidates oracle.recorded (state, []) query) n
    have hstep := ih.ask (asked_query _ n) (asked_oracle _ n)
    rw [hcandidates] at hstep
    exact hstep

end Conducted

section Unrecorded

variable {r : Review (σ × List (Consultation ε)) ε}

theorem judge_unrecorded (h : r.oracle = oracle.recorded) (c : Candidate) :
    (r.unrecorded oracle).judge c = ((r.judge c).1, (r.judge c).2.unrecorded oracle) := by
  simp only [judge, unrecorded, h, Oracle.recorded, StateT.run]
  rcases oracle c.text r.query r.counterexamples r.state.1 with ⟨causes | ⟨accepted, shown⟩, state⟩
  · rfl
  · cases accepted <;> rfl

theorem ask_unrecorded (h : r.oracle = oracle.recorded) :
    (r.unrecorded oracle).ask = (r.ask.1, r.ask.2.unrecorded oracle) := by
  have hcandidates : (r.unrecorded oracle).candidates = r.candidates := rfl
  rw [ask, ask, hcandidates]
  rcases r.candidates.ask with ⟨⟨e | c⟩ | _ | _, candidates⟩
  · rfl
  · have hjudge := judge_unrecorded (r := { r with candidates }) h c
    simp only [unrecorded] at hjudge ⊢
    rw [hjudge]
    rcases judge { r with candidates } c with ⟨_ | _ | _, _⟩ <;> rfl
  · rfl
  · rfl

theorem next_unrecorded (h : r.oracle = oracle.recorded) (fuel : Nat) :
    (r.unrecorded oracle).next fuel = ((r.next fuel).1, (r.next fuel).2.unrecorded oracle) := by
  induction fuel generalizing r with
  | zero => rfl
  | succ fuel ih =>
    have horacle : r.ask.2.oracle = oracle.recorded := by rw [ask_oracle, h]
    rw [next, next, ask_unrecorded h]
    rcases hask : r.ask with ⟨_ | _ | _, r'⟩
    · rfl
    · rw [hask] at horacle
      exact ih horacle
    · rfl

theorem pulled_unrecorded (h : r.oracle = oracle.recorded) (fuel calls : Nat) :
    (r.unrecorded oracle).pulled fuel calls = (r.pulled fuel calls).unrecorded oracle ∧
      (r.unrecorded oracle).given fuel calls = r.given fuel calls := by
  induction calls with
  | zero => exact ⟨rfl, rfl⟩
  | succ calls ih =>
    have horacle : (r.pulled fuel calls).oracle = oracle.recorded := by
      obtain ⟨n, hpulled, _⟩ := pulled_asked r fuel calls
      rw [hpulled, asked_oracle, h]
    constructor
    · rw [pulled, ih.1, next_unrecorded horacle, pulled]
    · rw [given, ih.1, ih.2, next_unrecorded horacle, given]

end Unrecorded

/-- However many calls a review answers, the oracle has been asked about the candidates of the stream one
by one, and what has been given out is what its opinions lead to. -/
theorem conducts_review (candidates : Candidates) (oracle : Oracle σ ε) (state : σ) (query : String)
    (fuel calls : Nat) :
    let r := start candidates oracle.recorded (state, []) query
    ∃ n, (fuel = 0 ∨ calls ≤ n) ∧ (r.pulled fuel calls).candidates = candidates.asked n ∧
      Conducted query (candidates.told n) (r.pulled fuel calls) (r.given fuel calls) ∧
      (start candidates oracle state query).pulled fuel calls = (r.pulled fuel calls).unrecorded oracle ∧
      (start candidates oracle state query).given fuel calls = r.given fuel calls := by
  intro r
  obtain ⟨n, hpulled, hgiven, hcalls⟩ := pulled_asked r fuel calls
  have hsame : start candidates oracle state query = r.unrecorded oracle := rfl
  refine ⟨n, hcalls, ?_, ?_, ?_⟩
  · rw [hpulled, asked_candidates]
    rfl
  · rw [hpulled, hgiven]
    exact Conducted.asked query candidates oracle state n
  · rw [hsame]
    exact pulled_unrecorded rfl fuel calls

end Conduct

end Review

end QuerySearch
