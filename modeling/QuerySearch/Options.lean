import QuerySearch.Search.Candidates

/-! What the command line asks for. -/

namespace QuerySearch

structure Options where
  schemaFile : String
  query : String
  limit : Nat
  config : SearchConfig

inductive OptionError where
  | unknown (option : String)
  | noValue (option : String)
  | badValue (option value : String)
  | missing (option : String)
  deriving DecidableEq

def OptionError.message : OptionError → String
  | unknown option => "unexpected argument '" ++ option ++ "' found"
  | noValue option => "a value is required for '" ++ option ++ "' but none was supplied"
  | badValue option value => "invalid value '" ++ value ++ "' for '" ++ option ++ "'"
  | missing option => "the following required arguments were not provided: " ++ option

namespace Options

def names : List String := ["--schema", "--query", "--limit", "--max-cost", "--depth-limit"]

def pairs : List String → Except OptionError (List (String × String))
  | [] => .ok []
  | [option] => .error (if names.contains option then .noValue option else .unknown option)
  | option :: value :: rest =>
    if names.contains option then do return (option, value) :: (← pairs rest)
    else .error (.unknown option)

def required (given : List (String × String)) (option : String) : Except OptionError String :=
  match given.lookup option with
  | some value => .ok value
  | none => .error (.missing option)

def number (given : List (String × String)) (option : String) (read : String → Option α) (default : α) :
    Except OptionError α :=
  match given.lookup option with
  | none => .ok default
  | some value =>
    match read value with
    | some n => .ok n
    | none => .error (.badValue option value)

def ofArgs (args : List String) : Except OptionError Options := do
  let given ← pairs args
  let depth ← number given "--depth-limit" String.toNat? 2
  let maxCost ← number given "--max-cost" (fun value => some <$> value.toInt?) none
  return {
    schemaFile := ← required given "--schema"
    query := ← required given "--query"
    limit := ← number given "--limit" String.toNat? 20
    config := { depth, maxCost } }

end Options

end QuerySearch
