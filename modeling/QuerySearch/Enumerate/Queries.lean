import QuerySearch.Enumerate.Parts

/-! Building queries: a source, the clauses over it, a select list of everything that fits, and then each
order with and without DISTINCT. -/

namespace QuerySearch

/-- A query that only projects columns of its source and has no other clause. -/
def Component.isPlainSelect : Component → Bool
  | .query sel source filter groupBy having orderBy isDistinct =>
    filter.isAbsent && having.isAbsent && groupBy.isAbsent && orderBy.isAbsent && !isDistinct &&
      sel.providedKeys.all fun k => source.providedKeys.contains k
  | _ => false

def Component.groupKeys : Component → List Fingerprint
  | .groupList items => items.map Component.fingerprint
  | _ => []

def builtKinds : List Kind :=
  [.aggChain, .windowChain, .aggregation, .partitionList, .windowClause, .groupList, .sortItem,
    .sortList, .connection, .comparison, .aggWindow, .funcWindow, .tableSource, .querySource, .join,
    .query]

structure QueryBody where
  source : Component
  filter : Component
  groupBy : Component
  having : Component

namespace Workshop

variable (w : Workshop)

def completions (r : Remainder) (budget : Int) (body : QueryBody) (skipsPlain : Bool)
    (items : List Component) : List Component :=
  if items.isEmpty then []
  else
    let sel := Component.select items
    let rest := w.after r sel
    (w.pick rest .orderBy [.suppliedBy sel.providedKeys]).flatMap fun orderBy =>
      [true, false].flatMap fun isDistinct =>
        let q := Component.query sel body.source body.filter body.groupBy body.having orderBy isDistinct
        if w.accepts budget q && !(skipsPlain && q.isPlainSelect) then [q] else []

/-- A grouped query selects aggregations and group keys.  One without groups selects only
aggregations or, if it has no HAVING either, none. -/
def queriesOver (r : Remainder) (budget : Int) (body : QueryBody) : List Component :=
  let supplied := Requirement.suppliedBy body.source.providedKeys
  let itemsWith (last : Requirement) := w.pick r .selectItem [supplied, .present, last]
  if body.groupBy.isAbsent then
    w.completions r budget body false (itemsWith .onlyAggregation) ++
      if body.having.isAbsent then w.completions r budget body true (itemsWith .notAggregation) else []
  else w.completions r budget body false (itemsWith (.groupedBy body.groupBy.groupKeys))

def queries (budget : Int) : List Component :=
  w.fill (w.start budget) .source [.depthAtMost w.sourceDepth] fun source r =>
    let supplied := Requirement.suppliedBy source.providedKeys
    w.fill r .predicate [supplied, .noAggregation] fun filter r =>
      w.fill r .groupBy [supplied] fun groupBy r =>
        w.fill r .predicate [supplied, .groupedBy groupBy.groupKeys] fun having r =>
          w.queriesOver r budget ⟨source, filter, groupBy, having⟩

def build (kind : Kind) (budget : Int) : List Component :=
  let r := w.start budget
  let accepted (cs : List Component) := cs.filter (w.accepts budget)
  match kind with
  | .aggChain => accepted (w.aggChains r)
  | .windowChain => accepted (w.windowChains r)
  | .aggregation => accepted (w.aggregations r)
  | .partitionList => accepted (w.partitionLists r)
  | .windowClause => accepted (w.windowClauses r)
  | .groupList => accepted (w.groupLists r)
  | .sortItem => accepted (w.sortItems r)
  | .sortList => accepted (w.sortLists r)
  | .connection => accepted (w.connections r)
  | .comparison => accepted (w.comparisons r)
  | .aggWindow => accepted (w.aggWindows r)
  | .funcWindow => accepted (w.funcWindows r)
  | .tableSource => (w.tableSources r).filter fun c => !w.bank.contains c
  | .querySource => accepted (w.querySources r)
  | .join => accepted (w.joins r)
  | .query => w.queries budget
  | _ => []

end Workshop

end QuerySearch
