import QuerySearch.Component.Basic

/-! Identity of components, and the chains that they require from their surroundings and provide to
them. -/

namespace QuerySearch.Component

def fingerprint (c : Component) : Fingerprint := c.keys.self

def chainKey (c : Component) : Fingerprint := c.keys.chain

def kind (c : Component) : Kind := c.fingerprint.kind

instance : BEq Component := ⟨fun a b => a.fingerprint == b.fingerprint⟩

@[simp] theorem beq_iff {a b : Component} : (a == b) = true ↔ a.fingerprint = b.fingerprint := by
  simp [BEq.beq]

theorem contains_iff {cs : List Component} {c : Component} :
    cs.contains c = true ↔ ∃ d ∈ cs, d.fingerprint = c.fingerprint := by
  rw [List.contains_iff_exists_mem_beq]
  exact exists_congr fun d => and_congr_right fun _ => beq_iff.trans eq_comm

instance : Hashable Component := ⟨fun c => hash c.fingerprint⟩

instance : Inhabited Component := ⟨.absent⟩

def isAbsent (c : Component) : Bool := c.kind == .absent

def unique (cs : List Component) : List Component := cs.eraseDups

def sortedByKey (cs : List Component) : List Component :=
  cs.mergeSort fun a b => !decide (b.fingerprint < a.fingerprint)

/-- A list of groups does not depend on the order in which they are given, and so for partitions and
sort keys. -/
def groupListOf (items : List Component) : Component := .groupList (sortedByKey items)

def partitionListOf (items : List Component) : Component := .partitionList (sortedByKey items)

def sortListOf (items : List Component) : Component := .sortList (sortedByKey items)

def children : Component → List Component
  | .aggChain _ arg | .windowChain _ arg | .aggregation _ arg _ => [arg]
  | .aggWindow call partition orderBy | .funcWindow call partition orderBy => [call, partition, orderBy]
  | .partitionList items | .groupList items | .sortList items | .select items => items
  | .sortItem chain _ => [chain]
  | .comparison l _ r => [l, r]
  | .connection l _ r => [l, r]
  | .named item _ => [item]
  | .tableSource t _ => [t]
  | .querySource q _ => [q]
  | .join l r _ on => [l, r, on]
  | .query sel source filter groupBy having orderBy _ =>
    [sel, source, filter, groupBy, having, orderBy]
  | .boundColumn _ _ chain => [chain]
  | _ => []

mutual

def provided : Component → List Component
  | .table t => t.columns.map fun c => .column t c.1 c.2
  | .column t name type => [.column t name type]
  | .aggChain func arg => [.aggChain func arg]
  | .windowChain func arg => [.windowChain func arg]
  | .int v => [.int v]
  | .float v => [.float v]
  | .str s => [.str s]
  | .aggregation func arg _ => (arg.provided.take 1).map (.aggChain func)
  | .windowClause func => [.windowChain func .absent]
  | .aggWindow call .. | .funcWindow call .. => call.provided
  | .select items => providedByAll items
  | .named item _ => item.provided
  | .tableSource t _ => t.provided
  | .querySource q _ => q.provided
  | .join l r .. => l.provided ++ r.provided
  | .query sel .. => sel.provided
  | .boundColumn _ _ chain => [chain]
  | _ => []

def providedByAll : List Component → List Component
  | [] => []
  | c :: cs => c.provided ++ providedByAll cs

end

mutual

/-- What a source provides its query needs not ask for, so queries and sources require nothing. -/
def required : Component → List Component
  | .column t name type => [.column t name type]
  | .aggChain func arg => [.aggChain func arg]
  | .windowChain func arg => [.windowChain func arg]
  | .aggregation _ arg _ => arg.provided.take 1
  | .aggWindow call partition orderBy => unique (call.required ++ partition.required ++ orderBy.required)
  | .funcWindow call partition orderBy => unique (call.required ++ partition.required ++ orderBy.required)
  | .partitionList items => unique (requiredByAll items)
  | .groupList items => unique (requiredByAll items)
  | .sortList items => unique (requiredByAll items)
  | .select items => unique (requiredByAll items)
  | .sortItem chain _ => [chain]
  | .comparison l _ r => unique (l.required ++ r.required)
  | .connection l _ r => unique (l.required ++ r.required)
  | .named item _ => item.required
  | .boundColumn _ _ chain => [chain]
  | _ => []

def requiredByAll : List Component → List Component
  | [] => []
  | c :: cs => c.required ++ requiredByAll cs

end

def sameBoth (l r l' r' : Component) : Bool := l' == l && r' == r

/-- The operands of a chain form: what `l` and `r` become, unless this is the same as they are. -/
def formOperands (l r l' r' : Component) : Component × Component :=
  if sameBoth l r l' r' then (l, r) else (l', r')

/-- The provenance of a value or a predicate: aggregations become the chains they compute. -/
def chainForm : Component → Component
  | .aggregation func arg _ => .aggChain func arg
  | .comparison l op r =>
    let operands := formOperands l r l.chainForm r.chainForm
    .comparison operands.1 op operands.2
  | .connection l op r =>
    let operands := formOperands l r l.chainForm r.chainForm
    .connection operands.1 op operands.2
  | c => c

def atoms : Component → List Component
  | .comparison l op r => [.comparison l op r]
  | .connection l _ r => l.atoms ++ r.atoms
  | _ => []

end QuerySearch.Component

namespace QuerySearch

def terminals : List Component :=
  [.compareOp .eq, .compareOp .lt, .compareOp .le, .logicOp .or, .compareOp .ne, .logicOp .and,
    .aggFunc .min, .aggFunc .count, .aggFunc .max, .aggFunc .avg, .windowFunc .denseRank,
    .aggFunc .sum, .sortDir .asc, .sortDir .desc, .absent, .joinType .left, .joinType .inner]

end QuerySearch
