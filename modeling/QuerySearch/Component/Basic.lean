import QuerySearch.Component.Counter
import QuerySearch.Component.Terminal
import QuerySearch.Number.Binary64
import QuerySearch.Schema

/-! Components: the trees that queries are assembled from.  A chain says where a value comes from, a
column of a table instance or a function of another chain; values, predicates, sources and queries
are built over chains.  What the search asks of a component again and again is computed once, when
the component is built. -/

namespace QuerySearch

/-- A table of the schema as read in one place of a query; two readings differ by `id`. -/
structure Table where
  name : String
  columns : List (String × DataType)
  id : UInt64
  deriving DecidableEq

namespace Fingerprint

def ofTable (t : Table) : Fingerprint := ofFields .table [.text t.name, .word t.id]

def ofColumn (t : Table) (name : String) : Fingerprint :=
  ofFields .column [.text t.name, .word t.id, .text name]

def ofAggChain (func : AggFunc) (arg : Fingerprint) : Fingerprint :=
  ofFields .aggChain [.tag func.ctorIdx, .component arg]

def ofWindowChain (func : WindowFunc) (arg : Fingerprint) : Fingerprint :=
  ofFields .windowChain [.tag func.ctorIdx, .component arg]

def ofInt (v : Int64) : Fingerprint := ofFields .int [.word v.toUInt64]

def ofFloat (v : Binary64) : Fingerprint := ofFields .float [.word v.bits]

def ofStr (s : String) : Fingerprint := ofFields .str [.text s]

def ofAbsent : Fingerprint := ofFields .absent []

def ofDistinct : Fingerprint := ofFields .distinct []

def ofCompareOp (op : CompareOp) : Fingerprint := ofFields .compareOp [.tag op.ctorIdx]

def ofLogicOp (op : LogicOp) : Fingerprint := ofFields .logicOp [.tag op.ctorIdx]

def ofJoinType (t : JoinType) : Fingerprint := ofFields .joinType [.tag t.ctorIdx]

def ofAggFunc (f : AggFunc) : Fingerprint := ofFields .aggFunc [.tag f.ctorIdx]

def ofWindowFunc (f : WindowFunc) : Fingerprint := ofFields .windowFunc [.tag f.ctorIdx]

def ofSortDir (d : SortDir) : Fingerprint := ofFields .sortDir [.tag d.ctorIdx]

def ofAggregation (func : AggFunc) (arg : Fingerprint) (distinct : Bool) : Fingerprint :=
  ofFields .aggregation [.tag func.ctorIdx, .component arg, .tag distinct.toNat]

def ofList (kind : Kind) (items : List Fingerprint) : Fingerprint :=
  ofFields kind (items.map .component)

def ofSortItem (chain : Fingerprint) (dir : SortDir) : Fingerprint :=
  ofFields .sortItem [.component chain, .tag dir.ctorIdx]

def ofComparison (lhs : Fingerprint) (op : CompareOp) (rhs : Fingerprint) : Fingerprint :=
  ofFields .comparison [.component lhs, .tag op.ctorIdx, .component rhs]

def ofConnection (lhs : Fingerprint) (op : LogicOp) (rhs : Fingerprint) : Fingerprint :=
  ofFields .connection [.component lhs, .tag op.ctorIdx, .component rhs]

def ofJoin (left right : Fingerprint) (type : JoinType) (on : Fingerprint) : Fingerprint :=
  ofFields .join [.component left, .component right, .tag type.ctorIdx, .component on]

def ofQuery (select source filter groupBy having orderBy : Fingerprint) (distinct : Bool) :
    Fingerprint :=
  ofFields .query [.component select, .component source, .component filter, .component groupBy,
    .component having, .component orderBy, .tag distinct.toNat]

end Fingerprint

/-- What a component is known by, and what its chain form is known by: there aggregations are the
chains they compute, also inside predicates. -/
structure Keys where
  self : Fingerprint
  chain : Fingerprint

def Keys.same (f : Fingerprint) : Keys := ⟨f, f⟩

def AggFunc.resultType (func : AggFunc) (arg : Option DataType) : Option DataType :=
  match func with
  | .max | .min => arg
  | _ => some .number

namespace Counter

def one (f : Fingerprint) : Counter := single f 1

def ofAggChain (func : AggFunc) (arg : Fingerprint) (argCounter : Counter) : Counter :=
  ((one (.ofAggFunc func)).plus argCounter).insert (.ofAggChain func arg) 1

end Counter

inductive Component where
  | table (table : Table)
  | column (table : Table) (name : String) (type : DataType)
  | aggChain (func : AggFunc) (arg : Component)
  | windowChain (func : WindowFunc) (arg : Component)
  | int (value : Int64)
  | float (value : Binary64)
  | str (value : String)
  | absent
  | distinct
  | compareOp (op : CompareOp)
  | logicOp (op : LogicOp)
  | joinType (type : JoinType)
  | aggFunc (func : AggFunc)
  | windowFunc (func : WindowFunc)
  | sortDir (dir : SortDir)
  | aggregation (func : AggFunc) (arg : Component) (distinct : Bool)
  | windowClause (func : WindowFunc)
  | aggWindow (call partition orderBy : Component)
  | funcWindow (call partition orderBy : Component)
  | partitionList (items : List Component)
  | groupList (items : List Component)
  | sortItem (chain : Component) (dir : SortDir)
  | sortList (items : List Component)
  | comparison (lhs : Component) (op : CompareOp) (rhs : Component)
  | connection (lhs : Component) (op : LogicOp) (rhs : Component)
  | select (items : List Component)
  | named (item : Component) (asName : String)
  | tableSource (table : Component) (asName : Option String)
  | querySource (query : Component) (asName : Option String)
  | join (left right : Component) (type : JoinType) (on : Component)
  | query (select source filter groupBy having orderBy : Component) (distinct : Bool)
  | boundColumn (qualifier name : String) (chain : Component)
with
  /-- Sources are identified by what they read and bound columns by their chains, not by the names
  they are given. -/
  @[computed_field] keys : Component → Keys
    | .table t => .same (.ofTable t)
    | .column t name _ => .same (.ofColumn t name)
    | .aggChain func arg => .same (.ofAggChain func arg.keys.self)
    | .windowChain func arg => .same (.ofWindowChain func arg.keys.self)
    | .int v => .same (.ofInt v)
    | .float v => .same (.ofFloat v)
    | .str s => .same (.ofStr s)
    | .absent => .same .ofAbsent
    | .distinct => .same .ofDistinct
    | .compareOp op => .same (.ofCompareOp op)
    | .logicOp op => .same (.ofLogicOp op)
    | .joinType t => .same (.ofJoinType t)
    | .aggFunc f => .same (.ofAggFunc f)
    | .windowFunc f => .same (.ofWindowFunc f)
    | .sortDir d => .same (.ofSortDir d)
    | .aggregation func arg distinct =>
      ⟨.ofAggregation func arg.keys.self distinct, .ofAggChain func arg.keys.self⟩
    | .windowClause f => .same (.ofFields .windowClause [.tag f.ctorIdx])
    | .aggWindow call partition orderBy =>
      .same (.ofList .aggWindow [call.keys.self, partition.keys.self, orderBy.keys.self])
    | .funcWindow call partition orderBy =>
      .same (.ofList .funcWindow [call.keys.self, partition.keys.self, orderBy.keys.self])
    | .partitionList items => .same (.ofList .partitionList (items.map fun c => c.keys.self))
    | .groupList items => .same (.ofList .groupList (items.map fun c => c.keys.self))
    | .sortItem chain dir => .same (.ofSortItem chain.keys.self dir)
    | .sortList items => .same (.ofList .sortList (items.map fun c => c.keys.self))
    | .comparison l op r =>
      ⟨.ofComparison l.keys.self op r.keys.self, .ofComparison l.keys.chain op r.keys.chain⟩
    | .connection l op r =>
      ⟨.ofConnection l.keys.self op r.keys.self, .ofConnection l.keys.chain op r.keys.chain⟩
    | .select items => .same (.ofList .select (items.map fun c => c.keys.self))
    | .named item asName => .same (.ofFields .named [.component item.keys.self, .text asName])
    | .tableSource t _ => .same (.ofList .tableSource [t.keys.self])
    | .querySource q _ => .same (.ofList .querySource [q.keys.self])
    | .join l r type on => .same (.ofJoin l.keys.self r.keys.self type on.keys.self)
    | .query select source filter groupBy having orderBy distinct =>
      .same (.ofQuery select.keys.self source.keys.self filter.keys.self groupBy.keys.self
        having.keys.self orderBy.keys.self distinct)
    | .boundColumn _ _ chain => .same (.ofList .boundColumn [chain.keys.self])
  @[computed_field] dataType : Component → Option DataType
    | .column _ _ type => some type
    | .aggChain func arg => func.resultType arg.dataType
    | .aggregation func arg _ => func.resultType arg.dataType
    | .windowChain .. | .aggWindow .. | .funcWindow .. | .int _ | .float _ => some .number
    | .str _ => some .str
    | .sortItem chain _ => chain.dataType
    | .named item _ => item.dataType
    | .boundColumn _ _ chain => chain.dataType
    | _ => none
  @[computed_field] depth : Component → Nat
    | .query _ source .. => source.depth + 1
    | .querySource q _ => q.depth
    | .join l r .. => max l.depth r.depth
    | _ => 0
  /-- The parts that a component is charged for.  Aggregations count as the chains they compute,
  predicates as their chain forms, and the items of a select list share what they have in common. -/
  @[computed_field] counter : Component → Counter
    | .table t => .one (.ofTable t)
    | .column t name _ => .one (.ofColumn t name)
    | .aggChain func arg => .ofAggChain func arg.keys.self arg.counter
    | .windowChain func arg =>
      ((Counter.one (.ofWindowFunc func)).plus arg.counter).plus
        (.one (.ofWindowChain func arg.keys.self))
    | .int v => .one (.ofInt v)
    | .float v => .one (.ofFloat v)
    | .str s => .one (.ofStr s)
    | .absent => .empty
    | .distinct => .one .ofDistinct
    | .compareOp op => .one (.ofCompareOp op)
    | .logicOp op => .one (.ofLogicOp op)
    | .joinType t => .one (.ofJoinType t)
    | .aggFunc f => .one (.ofAggFunc f)
    | .windowFunc f => .one (.ofWindowFunc f)
    | .sortDir d => .one (.ofSortDir d)
    | .aggregation func arg distinct =>
      let computed := Counter.ofAggChain func arg.keys.self arg.counter
      if distinct then computed.plus (.one .ofDistinct) else computed
    | .windowClause f => .one (.ofWindowFunc f)
    | .aggWindow call partition orderBy =>
      .sum [call.counter, partition.counter, orderBy.counter]
    | .funcWindow call partition orderBy =>
      (Counter.sum [call.counter, partition.counter, orderBy.counter]).plus
        (.one (.ofList .funcWindow [call.keys.self, partition.keys.self, orderBy.keys.self]))
    | .partitionList items =>
      (Counter.sum (items.map fun c => c.counter)).plus
        (.one (.ofList .partitionList (items.map fun c => c.keys.self)))
    | .groupList items =>
      (Counter.sum (items.map fun c => c.counter)).plus
        (.one (.ofList .groupList (items.map fun c => c.keys.self)))
    | .sortItem chain dir =>
      (chain.counter.plus (.one (.ofSortDir dir))).plus (.one (.ofSortItem chain.keys.self dir))
    | .sortList items =>
      (Counter.sum (items.map fun c => c.counter)).plus
        (.one (.ofList .sortList (items.map fun c => c.keys.self)))
    | .comparison l op r =>
      ((l.counter.plus r.counter).plus (.one (.ofCompareOp op))).plus
        (.one (.ofComparison l.keys.chain op r.keys.chain))
    | .connection l op r =>
      let parts := (l.counter.plus r.counter).plus (.one (.ofLogicOp op))
      if op = .and then parts else parts.plus (.one (.ofConnection l.keys.chain op r.keys.chain))
    | .select items => (items.map fun c => c.counter).foldl Counter.union .empty
    | .named item _ => .one item.keys.self
    | .tableSource t _ => t.counter
    | .querySource q _ => q.counter
    | .join l r type on => .sum [l.counter, r.counter, on.counter, .one (.ofJoinType type)]
    | .query select source filter groupBy having orderBy distinct =>
      let parts := Counter.sum [select.counter, source.counter, filter.counter, groupBy.counter,
        having.counter, orderBy.counter]
      if distinct then parts.plus (.one .ofDistinct) else parts
    | .boundColumn _ _ chain => .one chain.keys.self
  @[computed_field] providedKeys : Component → List Fingerprint
    | .table t => t.columns.map fun c => .ofColumn t c.1
    | .column t name _ => [.ofColumn t name]
    | .aggChain func arg => [.ofAggChain func arg.keys.self]
    | .windowChain func arg => [.ofWindowChain func arg.keys.self]
    | .int v => [.ofInt v]
    | .float v => [.ofFloat v]
    | .str s => [.ofStr s]
    | .aggregation func arg _ => (arg.providedKeys.take 1).map (.ofAggChain func)
    | .windowClause func => [.ofWindowChain func .ofAbsent]
    | .aggWindow call .. | .funcWindow call .. => call.providedKeys
    | .select items => (items.map fun c => c.providedKeys).flatten
    | .named item _ => item.providedKeys
    | .tableSource t _ => t.providedKeys
    | .querySource q _ => q.providedKeys
    | .join l r .. => l.providedKeys ++ r.providedKeys
    | .query select .. => select.providedKeys
    | .boundColumn _ _ chain => [chain.keys.self]
    | _ => []
  @[computed_field] requiredKeys : Component → List Fingerprint
    | .column t name _ => [.ofColumn t name]
    | .aggChain func arg => [.ofAggChain func arg.keys.self]
    | .windowChain func arg => [.ofWindowChain func arg.keys.self]
    | .aggregation _ arg _ => arg.providedKeys.take 1
    | .aggWindow call partition orderBy =>
      call.requiredKeys ++ partition.requiredKeys ++ orderBy.requiredKeys
    | .funcWindow call partition orderBy =>
      call.requiredKeys ++ partition.requiredKeys ++ orderBy.requiredKeys
    | .partitionList items => (items.map fun c => c.requiredKeys).flatten
    | .groupList items => (items.map fun c => c.requiredKeys).flatten
    | .sortList items => (items.map fun c => c.requiredKeys).flatten
    | .select items => (items.map fun c => c.requiredKeys).flatten
    | .sortItem chain _ => [chain.keys.self]
    | .comparison l _ r => l.requiredKeys ++ r.requiredKeys
    | .connection l _ r => l.requiredKeys ++ r.requiredKeys
    | .named item _ => item.requiredKeys
    | .boundColumn _ _ chain => [chain.keys.self]
    | _ => []

end QuerySearch
