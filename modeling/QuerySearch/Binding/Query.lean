import QuerySearch.Binding.Environment

/-! Binding a query: every chain becomes a column of a source that has a name.  Sources are bound first
and say where their chains can be read; the clauses of a query are bound to its source, and its
outputs say where an enclosing query can read them. -/

namespace QuerySearch

namespace Component

section Scoped

variable (envs : List Environment)

mutual

def bound : Component → Except BindError Component
  | .column t name type => locate (.column t name type) envs
  | .aggChain func arg => locate (.aggChain func arg) envs
  | .windowChain func arg => locate (.windowChain func arg) envs
  | .int v => return .int v
  | .float v => return .float v
  | .str s => return .str s
  | .absent => return .absent
  | .boundColumn qualifier name chain => return .boundColumn qualifier name chain
  | .windowClause func => return .windowClause func
  | .aggregation func arg isDistinct => return .aggregation func (← arg.bound) isDistinct
  | .aggWindow call partition orderBy =>
    return .aggWindow (← call.bound) (← partition.bound) (← orderBy.bound)
  | .funcWindow call partition orderBy =>
    return .funcWindow (← call.bound) (← partition.bound) (← orderBy.bound)
  | .partitionList items => return partitionListOf (← boundAll items)
  | .groupList items => return groupListOf (← boundAll items)
  | .sortList items => return sortListOf (← boundAll items)
  | .sortItem chain dir => return .sortItem (← chain.bound) dir
  | .comparison l op r => return .comparison (← l.bound) op (← r.bound)
  | .connection l op r => return .connection (← l.bound) op (← r.bound)
  | .named item asName => return .named (← item.bound) asName
  | c => .error (.unexpected c.kind)

def boundAll : List Component → Except BindError (List Component)
  | [] => return []
  | c :: cs => return (← c.bound) :: (← boundAll cs)

end

end Scoped

section Keys

variable (outputs source : Environment) (grouped : Bool)

mutual

/-- Sort keys are read from the outputs of the query, or else from its source.  In a grouped query an
aggregate that neither has is computed again. -/
def boundKeys : Component → Except BindError Component
  | .sortList items => return sortListOf (← boundKeysAll items)
  | .sortItem chain dir => return .sortItem (← chain.boundKeys) dir
  | .aggChain func arg =>
    if grouped && !outputs.contains (.aggChain func arg) && !source.contains (.aggChain func arg) then
      return .aggregation func (← arg.bound [source]) false
    else bound [outputs, source] (.aggChain func arg)
  | c => c.bound [outputs, source]

def boundKeysAll : List Component → Except BindError (List Component)
  | [] => return []
  | c :: cs => return (← c.boundKeys) :: (← boundKeysAll cs)

end

end Keys

def nameHint : Component → Option String
  | .column _ name _ => some name
  | .boundColumn _ name _ => some name
  | .aggChain func _ => some func.name
  | .aggregation func .. => some func.name
  | .windowChain func _ => some func.name
  | .windowClause func => some func.name
  | .aggWindow call .. | .funcWindow call .. => call.nameHint
  | .named _ asName => some asName
  | _ => none

def isAggregate : Component → Bool
  | .named item _ => item.isAggregate
  | .aggregation .. | .aggChain .. => true
  | _ => false

abbrev Bind := ExceptT BindError (StateM NameSupply)

def freshName (name : NameSupply → String × NameSupply) : Bind String := modifyGet name

def bindItem (source : Environment) (outputs : Environment) (item : Component) :
    Bind (Component × Environment) := do
  let (inner, asName) ←
    match item with
    | .named inner asName => do pure (← liftM (inner.bound [source]), asName)
    | item => do
      let inner ← liftM (item.bound [source])
      pure (inner, ← freshName (NameSupply.columnName item.nameHint))
  let outputs :=
    match item.provided with
    | chain :: _ => if outputs.contains chain then outputs else outputs.bind chain ⟨"", asName⟩
    | [] => outputs
  return (.named inner asName, outputs)

def bindItems (source : Environment) (outputs : Environment) :
    List Component → Bind (List Component × Environment)
  | [] => return ([], outputs)
  | item :: items => do
    let (item, outputs) ← bindItem source outputs item
    let (items, outputs) ← bindItems source outputs items
    return (item :: items, outputs)

def tableEnvironment (t : Component) (asName : String) : Environment :=
  t.provided.foldl (fun env chain =>
    match chain with
    | .column _ name _ => env.bind chain ⟨asName, name⟩
    | _ => env) .empty

def tableHint : Component → String
  | .table t => t.name
  | _ => ""

mutual

def bindSource : Component → Bind (Component × Environment)
  | .tableSource t asName => do
    let asName ← match asName with
      | some a => pure a
      | none => freshName (NameSupply.tableName t.tableHint)
    return (.tableSource t (some asName), tableEnvironment t asName)
  | .querySource q asName => do
    let (inner, env) ← q.bindQuery
    let asName ← match asName with
      | some a => pure a
      | none => freshName (NameSupply.tableName "cte")
    return (.querySource inner (some asName), env.through asName)
  | .join l r type on => do
    let (l, leftEnv) ← l.bindSource
    let (r, rightEnv) ← r.bindSource
    let env := leftEnv.merge rightEnv
    return (.join l r type (← liftM (on.bound [env])), env)
  | c => throw (.unexpected c.kind)

def bindQuery : Component → Bind (Component × Environment)
  | .query sel source filter groupBy having orderBy isDistinct => do
    let (source, env) ← source.bindSource
    let filter ← liftM (filter.bound [env])
    let groups ← liftM (groupBy.bound [env])
    let having ← liftM (having.bound [env])
    match sel with
    | .select given => do
      let (items, outputs) ← bindItems env .empty given
      let grouped := !groupBy.isAbsent || given.any isAggregate
      let orderBy ← liftM (orderBy.boundKeys outputs env grouped)
      return (.query (.select items) source filter groups having orderBy isDistinct, outputs)
    | c => throw (.unexpected c.kind)
  | c => throw (.unexpected c.kind)

end

/-- The query with its chains bound, and the names left for the next one. -/
def bindNames (query : Component) (names : NameSupply) : Except BindError Component × NameSupply :=
  ((do return (← query.bindQuery).1 : Bind Component).run).run names

end Component

end QuerySearch
