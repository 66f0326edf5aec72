import QuerySearch.Resolve.Query
import QuerySearch.Sql.Reading
import QuerySearch.Search.State

/-! The stream of candidate queries.  It starts with a placeholder that has no rows, goes on with the
queries that are parts of the input, and then follows the search. -/

namespace QuerySearch

structure Candidate where
  text : String
  cost : Int
  deriving DecidableEq

structure SearchError where
  cause : ResolveError

def SearchError.message (e : SearchError) : String :=
  "Cannot synthesize from this query: " ++ e.cause.message

/-- A stream of candidates: those that are ready, and the search for more unless it is over. -/
structure Candidates where
  config : SearchConfig
  ready : List (Except SearchError Candidate)
  search : Option Search
  seen : Std.HashSet String

inductive Answer (α : Type) where
  | item (a : α)
  | notYet
  | ended

namespace Candidates

def offer (cost : Int) (s : Candidates) (text : String) : Candidates :=
  if s.config.distinctText && s.seen.contains text then s
  else { s with ready := s.ready ++ [.ok ⟨text, cost⟩], seen := s.seen.insert text }

def offerAll (cost : Int) (s : Candidates) (texts : List String) : Candidates :=
  texts.foldl (offer cost) s

def ofStatement (schema : Schema) (q : Sql.Select Sql.Constant) (config : SearchConfig) : Candidates :=
  let start := offer 0 ⟨config, [], none, {}⟩ (placeholder q.items.length)
  match (q.toQuery schema 0).1 with
  | .error e => { start with ready := start.ready ++ [.error ⟨e⟩] }
  | .ok (query, names) =>
    let search := Search.start query names config
    { start.offerAll 0 search.initialTexts with search := some search.varyAll }

def isOver (config : SearchConfig) (search : Search) : Bool :=
  config.maxCost.any fun m => decide (m < search.costLimit)

def advance (s : Candidates) (search : Search) : Candidates :=
  let (texts, next) := search.step
  { s.offerAll search.costLimit texts with
    search := if isOver s.config next then none else some next }

def ask (s : Candidates) : Answer (Except SearchError Candidate) × Candidates :=
  match s.ready, s.search with
  | item :: rest, _ => (.item item, { s with ready := rest })
  | [], some search => (.notYet, s.advance search)
  | [], none => (.ended, s)

def next (s : Candidates) : (fuel : Nat) → Answer (Except SearchError Candidate) × Candidates
  | 0 => (.notYet, s)
  | n + 1 =>
    match s.ask with
    | (.notYet, s) => s.next n
    | answer => answer

end Candidates

inductive InputError where
  | schema (e : Sql.ReadError)
  | query (e : Sql.ReadError) (text : String)

def InputError.context : InputError → String
  | schema _ => "Failed to parse schema"
  | query _ text => "Failed to parse query: " ++ text

def InputError.cause : InputError → Sql.ReadError
  | schema e => e
  | query e _ => e

def Candidates.ofText (tables query : String) (config : SearchConfig) : Except InputError Candidates := do
  let defs ← (Sql.TableDef.readAll tables).mapError .schema
  let q ← (Sql.Select.read query).mapError fun e => .query e query
  return .ofStatement (.ofDefs defs) q config

end QuerySearch
