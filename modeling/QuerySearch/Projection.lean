import QuerySearch.Component.Chains

/-! Narrowing a query to the output columns that are asked for.  Each query keeps the select items that
provide a chain its surroundings or its own order need; what those items and the other clauses
require is then asked of its source.  Where several items provide the same chain, each of them is a
separate result. -/

namespace QuerySearch

inductive ProjectionError where
  | unsatisfiable
  | nameCount (names outputs : Nat)
  | unexpected (kind : Kind)
  deriving DecidableEq

def ProjectionError.message : ProjectionError → String
  | unsatisfiable => "Query cannot provide the requested output columns."
  | nameCount names outputs =>
    toString names ++ " output names given for " ++ toString outputs ++ " output columns."
  | unexpected kind => "Cannot trim a " ++ kind.name ++ "."

def selections : List (List α) → List (List α)
  | [] => [[]]
  | xs :: rest => xs.flatMap fun x => (selections rest).map (x :: ·)

namespace Component

def leadingKey (item : Component) : Option Fingerprint := item.providedKeys.head?

def addChoice (choices : List (Fingerprint × List Component)) (key : Fingerprint) (item : Component) :
    List (Fingerprint × List Component) :=
  match choices with
  | [] => [(key, [item])]
  | (k, alternatives) :: rest =>
    if k = key then (k, alternatives ++ [item]) :: rest else (k, alternatives) :: addChoice rest key item

def choices (wanted : Fingerprint → Bool) (items : List Component) : List (Fingerprint × List Component) :=
  items.foldl (fun acc item =>
    match item.leadingKey with
    | some key => if wanted key then addChoice acc key item else acc
    | none => acc) []

def keptItems (wanted : Fingerprint → Bool) : Component → Except ProjectionError (List (List Component))
  | .select items =>
    match choices wanted items with
    | [] => .error .unsatisfiable
    | cs => .ok (selections (cs.map (·.2)))
  | c => .error (.unexpected c.kind)

mutual

def narrowQuery (needed : List Fingerprint) : Component → Except ProjectionError (List Component)
  | .query sel source filter groupBy having orderBy isDistinct => do
    let ordered := orderBy.requiredKeys
    let clauses := filter.requiredKeys ++ groupBy.requiredKeys ++ having.requiredKeys ++ ordered
    let lists ← keptItems (fun k => needed.contains k || ordered.contains k) sel
    let forms ← lists.mapM fun items => do
      let sources ← narrowSource (items.flatMap (·.requiredKeys) ++ clauses) source
      return sources.map fun s => .query (.select items) s filter groupBy having orderBy isDistinct
    return forms.flatten
  | c => .error (.unexpected c.kind)

/-- Both sides of a join are asked for what its condition needs; each keeps what it has. -/
def narrowSource (needed : List Fingerprint) : Component → Except ProjectionError (List Component)
  | .tableSource t asName => .ok [.tableSource t asName]
  | .querySource q asName => do return (← narrowQuery needed q).map fun q => .querySource q asName
  | .join l r type on => do
    let lefts ← narrowSource (needed ++ on.requiredKeys) l
    let rights ← narrowSource (needed ++ on.requiredKeys) r
    return lefts.flatMap fun l => rights.map fun r => .join l r type on
  | c => .error (.unexpected c.kind)

end

def withoutName : Component → Component
  | .named item _ => item
  | c => c

def outputItem (items : List Component) (chain : Component) (name : String) :
    Except ProjectionError Component :=
  match items.find? fun i => i.leadingKey == some chain.fingerprint with
  | some item => .ok (.named item.withoutName name)
  | none => .error .unsatisfiable

def arrange (outputs : List (Component × String)) : Component → Except ProjectionError Component
  | .query (.select items) source filter groupBy having orderBy isDistinct => do
    let items ← outputs.mapM fun (chain, name) => outputItem items chain name
    return .query (.select items) source filter groupBy having orderBy isDistinct
  | .query sel .. => .error (.unexpected sel.kind)
  | c => .error (.unexpected c.kind)

/-- Every form of a query whose select list provides `outputs` in order under `names`, and whose
subqueries provide no more than is needed for it. -/
def projections (query : Component) (outputs : List Component) (names : List String) :
    Except ProjectionError (List Component) :=
  if outputs.length ≠ names.length then .error (.nameCount names.length outputs.length)
  else if outputs.all fun c => query.providedKeys.contains c.fingerprint then do
    let forms ← narrowQuery (outputs.map fingerprint) query
    forms.mapM (arrange (outputs.zip names))
  else .error .unsatisfiable

end Component

end QuerySearch
