/-! The kinds of components, in the order in which they are sorted and searched, and the sets of kinds
that the slots of a composite take. -/

namespace QuerySearch

inductive Kind where
  | table | column | aggChain | windowChain | int | float | str | absent | distinct
  | compareOp | logicOp | joinType | aggFunc | windowFunc | sortDir
  | aggregation | windowClause | aggWindow | funcWindow
  | partitionList | groupList | sortItem | sortList
  | comparison | connection | select | named | tableSource | querySource | join | query | boundColumn
  deriving DecidableEq, Inhabited

namespace Kind

def all : List Kind :=
  [table, column, aggChain, windowChain, int, float, str, absent, distinct, compareOp, logicOp,
    joinType, aggFunc, windowFunc, sortDir, aggregation, windowClause, aggWindow, funcWindow,
    partitionList, groupList, sortItem, sortList, comparison, connection, select, named, tableSource,
    querySource, join, query, boundColumn]

theorem mem_all (k : Kind) : k ∈ all := by cases k <;> simp [all]

def rank (k : Kind) : Nat := k.ctorIdx

theorem all_rank (k : Kind) : all[k.rank]? = some k := by cases k <;> rfl

theorem rank_injective {k l : Kind} (h : k.rank = l.rank) : k = l := by
  have := all_rank k
  rw [h, all_rank l] at this
  exact (Option.some.inj this).symm

theorem rank_lt (k : Kind) : k.rank < 32 := by cases k <;> decide

def name : Kind → String
  | table => "Table"
  | column => "ColChain"
  | aggChain => "AggChain"
  | windowChain => "WindowFuncChain"
  | int => "IntConst"
  | float => "FloatConst"
  | str => "StringConst"
  | absent => "Absent"
  | distinct => "Distinct"
  | compareOp => "CompareOp"
  | logicOp => "LogicOp"
  | joinType => "JoinType"
  | aggFunc => "AggFunc"
  | windowFunc => "WindowFunc"
  | sortDir => "OrderDir"
  | aggregation => "Aggregation"
  | windowClause => "WindowFuncClause"
  | aggWindow => "WindowCallAgg"
  | funcWindow => "WindowCallFunc"
  | partitionList => "PartitionList"
  | groupList => "GroupByList"
  | sortItem => "OrderByItem"
  | sortList => "OrderByList"
  | comparison => "PredicateOp"
  | connection => "PredicateLogic"
  | select => "SelectClause"
  | named => "SelectItemAlias"
  | tableSource => "TableSource"
  | querySource => "QuerySource"
  | join => "Join"
  | query => "Query"
  | boundColumn => "RealCol"

/-- Chains are the values a query can project.  The absent sentinel counts as one. -/
def isChain : Kind → Bool
  | column | aggChain | windowChain | int | float | str | absent => true
  | _ => false

def isReferencable : Kind → Bool
  | column | aggChain | windowChain => true
  | _ => false

end Kind

inductive Category where
  | only (kind : Kind)
  | chain
  | referencable
  | value
  | selectItem
  | predicate
  | groupBy
  | orderBy
  | partition
  | source
  deriving DecidableEq

namespace Category

def admits : Category → Kind → Bool
  | only k, l => k == l
  | chain, k => k.isChain
  | referencable, k => k.isReferencable
  | value, k => k.isChain || k == .aggregation
  | selectItem, k => k.isChain || k == .aggregation || k == .aggWindow || k == .funcWindow
  | predicate, k => k == .comparison || k == .connection || k == .absent
  | groupBy, k => k == .groupList || k == .absent
  | orderBy, k => k == .sortList || k == .absent
  | partition, k => k == .partitionList || k == .absent
  | source, k => k == .tableSource || k == .querySource || k == .join

end Category

end QuerySearch
