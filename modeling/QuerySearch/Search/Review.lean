import QuerySearch.Search.Candidates

/-! Reviewing candidates.  An oracle is shown each candidate together with the counterexamples so far;
it accepts the candidate, or rejects it with the counterexamples to use from then on, or fails. -/

namespace QuerySearch

abbrev Opinion (ε : Type) := Except (List String) (Bool × List ε)

/-- An oracle with a state of its own judges whether a candidate can stand for a query. -/
abbrev Oracle (σ ε : Type) := (candidate query : String) → (shown : List ε) → StateM σ (Opinion ε)

inductive Verdict where
  | equivalent
  | broken (message : String)
  deriving DecidableEq

structure ReviewStats where
  generated : Nat := 0
  passed : Nat := 0
  broken : Nat := 0
  deriving DecidableEq

structure Report where
  text : String
  verdict : Verdict
  stats : ReviewStats
  deriving DecidableEq

structure Review (σ ε : Type) where
  candidates : Candidates
  oracle : Oracle σ ε
  state : σ
  query : String
  counterexamples : List ε := []
  stats : ReviewStats := {}

namespace Review

def judge (r : Review σ ε) (c : Candidate) : Answer Report × Review σ ε :=
  let (opinion, state) := (r.oracle c.text r.query r.counterexamples).run r.state
  let stats := { r.stats with generated := r.stats.generated + 1 }
  match opinion with
  | .ok (true, _) =>
    let stats := { stats with passed := stats.passed + 1 }
    (.item ⟨c.text, .equivalent, stats⟩, { r with state, stats })
  | .ok (false, counterexamples) => (.notYet, { r with state, stats, counterexamples })
  | .error causes =>
    let stats := { stats with broken := stats.broken + 1 }
    (.item ⟨c.text, .broken (": ".intercalate causes), stats⟩, { r with state, stats })

def ask (r : Review σ ε) : Answer (Except SearchError Report) × Review σ ε :=
  match r.candidates.ask with
  | (.ended, candidates) => (.ended, { r with candidates })
  | (.notYet, candidates) => (.notYet, { r with candidates })
  | (.item (.error e), candidates) => (.item (.error e), { r with candidates })
  | (.item (.ok c), candidates) =>
    match judge { r with candidates } c with
    | (.item report, r) => (.item (.ok report), r)
    | (.notYet, r) => (.notYet, r)
    | (.ended, r) => (.ended, r)

def next (r : Review σ ε) : (fuel : Nat) → Answer (Except SearchError Report) × Review σ ε
  | 0 => (.notYet, r)
  | n + 1 =>
    match r.ask with
    | (.notYet, r) => r.next n
    | answer => answer

end Review

end QuerySearch
