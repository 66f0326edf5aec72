import QuerySearch.Binding.Query
import QuerySearch.Component.Constituents
import QuerySearch.Enumerate.Queries
import QuerySearch.Variation

/-! The search for queries near an input query.  One step builds the new components of one kind at the
current cost limit; when a pass over all kinds has found nothing new, the limit is raised. -/

namespace QuerySearch

structure SearchConfig extends Limits where
  maxArity : Nat := 8
  maxCost : Option Int := none
  distinctText : Bool := true

structure Search where
  bank : Bank
  estimator : Estimator
  /-- The chains that the outputs may provide, the input query's own first. -/
  targets : List (List Component)
  names : List String
  limits : Limits
  costLimit : Int
  position : Fin builtKinds.length
  grew : Bool

namespace Search

/-- All columns of the tables that a query reads, used or not. -/
def tableColumns (all : List Component) : List Component :=
  (all.filter fun c => c.kind == .table).flatMap (·.provided)

/-- The tuples of chains that outputs may provide: each chain may come from any table that has a column
of its name.  The given tuple comes first. -/
def targetsOf (bank : Bank) (e : Estimator) (maxArity : Nat) (outputs : List Component) :
    List (List Component) :=
  let tuples :=
    if maxArity < outputs.length then [outputs]
    else Variation.choices (outputs.map (Variation.sameName bank e))
  let tuples := if tuples.isEmpty then [outputs] else tuples
  tuples.filter (· == outputs) ++ tuples.filter (· != outputs)

/-- The state before any step: all parts of the query, all columns of its tables and the terminals, as
far as they cost nothing. -/
def start (query : Component) (names : List String) (config : SearchConfig) : Search :=
  let all := query.all
  let columns := tableColumns all
  let e := (Estimator.ofQuery query).allow (.sum (columns.map (·.counter)))
  let bank := Bank.ofList ((all ++ columns ++ terminals).filter fun c => e.cost c == 0)
  { bank
    estimator := e
    targets := targetsOf bank e config.maxArity query.provided
    names
    limits := config.toLimits
    costLimit := 0
    position := ⟨0, by decide⟩
    grew := false }

def render (s : Search) (query : Component) : List String :=
  s.targets.flatMap fun target =>
    match query.projections target s.names with
    | .error _ => []
    | .ok forms => forms.filterMap fun form =>
      match (form.bindNames .empty).1 with
      | .ok bound => some bound.text
      | .error _ => none

def initialTexts (s : Search) : List String :=
  (s.bank.select s.estimator (.only .query) 0 s.estimator.model []).flatMap s.render

def vary (s : Search) (v : Variation) : Search :=
  let proposals := v.proposals s.bank s.estimator
  { s with
    bank := s.bank.insertAll proposals
    estimator := s.estimator.allow (Variation.allowance proposals) }

def varyAll (s : Search) : Search := Variation.all.foldl vary s

def discoveries (s : Search) : List Component :=
  (Bank.ofList (Workshop.build ⟨s.bank, s.estimator, s.limits⟩ builtKinds[s.position] s.costLimit)).toList

/-- The next place in the pass; after the last one a new pass starts, at a higher limit if this one has
found nothing. -/
def advance (s : Search) : Search :=
  if h : s.position + 1 < builtKinds.length then { s with position := ⟨s.position + 1, h⟩ }
  else
    { s with
      position := ⟨0, by decide⟩
      costLimit := if s.grew then s.costLimit else s.costLimit + 1
      grew := false }

def step (s : Search) : List String × Search :=
  let found := s.discoveries
  let texts := if builtKinds[s.position] = .query then found.flatMap s.render else []
  (texts, advance { s with bank := s.bank.insertAll found, grew := s.grew || !found.isEmpty })

end Search

end QuerySearch
