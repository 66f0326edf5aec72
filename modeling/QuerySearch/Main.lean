import QuerySearch.Options

/-! The command line: prints candidates for a query, the cheapest first. -/

namespace QuerySearch

/-- Asks a stream until it answers. -/
partial def Candidates.await (s : Candidates) : Option (Except SearchError Candidate) × Candidates :=
  match s.ask with
  | (.item item, s) => (some item, s)
  | (.notYet, s) => s.await
  | (.ended, s) => (none, s)

def printFailure (context : String) (causes : List String) : IO UInt32 := do
  IO.eprintln ("Error: " ++ context)
  unless causes.isEmpty do
    IO.eprintln "\nCaused by:"
    for cause in causes do IO.eprintln ("    " ++ cause)
  return 1

def printCandidates (s : Candidates) : (limit : Nat) → IO UInt32
  | 0 => return 0
  | n + 1 =>
    match s.await with
    | (none, _) => return 0
    | (some (.error e), _) => printFailure e.message [e.cause.message]
    | (some (.ok c), s) => do
      IO.println (toString c.cost ++ "\t" ++ c.text)
      printCandidates s n

def Sql.ReadError.text : Sql.ReadError → String
  | .malformed => "The text does not follow the grammar."
  | .invalidLiteral e => e.message

def run (options : Options) : IO UInt32 := do
  match ← (IO.FS.readFile options.schemaFile).toBaseIO with
  | .error e => printFailure ("Failed to read schema from " ++ options.schemaFile) [toString e]
  | .ok tables =>
    match Candidates.ofText tables options.query options.config with
    | .error e => printFailure e.context [e.cause.text]
    | .ok candidates => printCandidates candidates options.limit

end QuerySearch

def main (args : List String) : IO UInt32 := do
  match QuerySearch.Options.ofArgs args with
  | .error e =>
    IO.eprintln ("error: " ++ e.message)
    return 2
  | .ok options => QuerySearch.run options
