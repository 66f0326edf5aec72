import QuerySearch.Enumerate.Basic

/-! The parts that queries are built from: chains, aggregations, lists, predicates, window calls and
sources. -/

namespace QuerySearch.Workshop

variable (w : Workshop) (r : Remainder)

def argRequirements : AggFunc → List Requirement
  | .count => []
  | _ => [.typeIn [.number]]

def aggregates (build : AggFunc → Component → List Component) : List Component :=
  w.fill r (.only .aggFunc) [] fun f r =>
    match f with
    | .aggFunc func => (w.pick r .referencable (argRequirements func)).flatMap (build func)
    | _ => []

def aggChains : List Component := w.aggregates r fun func arg => [.aggChain func arg]

def aggregations : List Component :=
  w.aggregates r fun func arg => [.aggregation func arg false, .aggregation func arg true]

def windowChains : List Component :=
  w.fill r (.only .windowFunc) [] fun f r =>
    match f with
    | .windowFunc func => (w.pick r .chain []).map (.windowChain func)
    | _ => []

def windowClauses : List Component :=
  (w.pick r (.only .windowFunc) []).flatMap fun f =>
    match f with
    | .windowFunc func => [.windowClause func]
    | _ => []

def partitionLists : List Component :=
  (w.lists (w.pick r .referencable [])).map .partitionListOf

def groupLists : List Component := (w.lists (w.pick r .referencable [])).map .groupListOf

def sortItems : List Component :=
  w.fill r .referencable [] fun chain r =>
    (w.pick r (.only .sortDir) []).flatMap fun d =>
      match d with
      | .sortDir dir => [.sortItem chain dir]
      | _ => []

def sortLists : List Component := (w.lists (w.pick r (.only .sortItem) [])).map .sortListOf

def comparedTypes : CompareOp → List DataType
  | .eq | .ne => [.number, .str]
  | .lt | .le => [.number]

def comparisons : List Component :=
  w.fill r (.only .compareOp) [] fun o r =>
    match o with
    | .compareOp op =>
      w.fill r .value [.present, .typeIn (comparedTypes op)] fun lhs r =>
        match lhs.dataType with
        | some type =>
          (w.pick r .value [.present, .typeIn [type], .notIn [lhs.fingerprint]]).map
            (.comparison lhs op)
        | none => []
    | _ => []

def connections : List Component :=
  w.fill r (.only .logicOp) [] fun o r =>
    match o with
    | .logicOp op =>
      w.fill r .predicate [.present] fun lhs r =>
        (w.pick r .predicate [.present, .repeatsNoneOf lhs]).map (.connection lhs op)
    | _ => []

def windowCalls (call : Kind) (orderRequirements : List Requirement)
    (build : Component → Component → Component → Component) : List Component :=
  w.fill r (.only call) [] fun func r =>
    w.fill r .partition [] fun partition r =>
      ((w.pick r .orderBy orderRequirements).filter fun orderBy =>
        !(partition.isAbsent && orderBy.isAbsent)).map (build func partition)

def aggWindows : List Component := w.windowCalls r .aggregation [] .aggWindow

def funcWindows : List Component := w.windowCalls r .windowClause [.present] .funcWindow

def tableSources : List Component :=
  (w.pick r (.only .table) []).map fun t => .tableSource t none

def querySources : List Component :=
  (w.pick r (.only .query) []).map fun q => .querySource q none

def joins : List Component :=
  w.fill r .source [.depthAtMost w.sourceDepth] fun left r =>
    let leftKeys := left.providedKeys
    w.fill r .source
      [.notIn [left.fingerprint], .depthAtMost w.sourceDepth, .providesNone leftKeys]
      fun right r =>
        let rightKeys := right.providedKeys
        w.fill r (.only .joinType) [] fun t r =>
          match t with
          | .joinType type =>
            (w.pick r .predicate
              [.present, .suppliedBy (leftKeys ++ rightKeys), .acrossSides leftKeys rightKeys,
                .noAggregation]).map (.join left right type)
          | _ => []

end QuerySearch.Workshop
