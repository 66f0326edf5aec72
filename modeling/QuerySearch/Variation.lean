import QuerySearch.Enumerate.Basic
import QuerySearch.Projection

/-! Variations on the input query that are at hand before the search starts, for nothing: groups for
partitions and the other way round, some of the groups, groups by columns of the same name or
columns that are compared for equality, and orders for inequalities. -/

namespace QuerySearch

inductive Variation where
  | partitionToGroup
  | groupSubsets
  | groupTransitive
  | groupSameColumn
  | groupToPartition
  | inequalityToOrder
  deriving DecidableEq

namespace Variation

def all : List Variation :=
  [partitionToGroup, groupSubsets, groupTransitive, groupSameColumn, groupToPartition,
    inequalityToOrder]

section Proposals

variable (bank : Bank) (e : Estimator)

def free (kind : Kind) : List Component := bank.select e (.only kind) 0 e.model []

def partitionLists : List (List Component) :=
  (free bank e .partitionList).filterMap fun
    | .partitionList items => some items
    | _ => none

def groupLists : List (List Component) :=
  (free bank e .groupList).filterMap fun
    | .groupList items => some items
    | _ => none

def comparisons : List (Component × CompareOp × Component) :=
  (free bank e .comparison).filterMap fun
    | .comparison l op r => some (l, op, r)
    | _ => none

def columnsNamed (name : String) : List Component :=
  ((free bank e .table).flatMap (·.provided)).filter fun
    | .column _ n _ => n == name
    | _ => false

/-- The chains over a column of the same name, of any table.  Whatever is not a column or an aggregate
of one stands for itself. -/
def sameName : Component → List Component
  | .column _ name _ => columnsNamed bank e name
  | .aggChain func arg => (sameName arg).map (.aggChain func)
  | c => [c]

/-- One element of each of the lists; of no lists there is no choice. -/
def choices (lists : List (List Component)) : List (List Component) :=
  if lists.isEmpty then [] else selections lists

def equals (reference : Component) : Component × CompareOp × Component → List Component
  | (l, .eq, r) =>
    if l == reference then [.groupListOf [r]]
    else if r == reference then [.groupListOf [l]]
    else []
  | _ => []

def transitive : List Component → List Component
  | [reference] => (comparisons bank e).flatMap (equals reference)
  | _ => []

def ascending (side : Component) : List Component :=
  if side.kind.isReferencable then [.sortListOf [.sortItem side .asc]] else []

def orders : Component × CompareOp × Component → List Component
  | (l, .lt, r) | (l, .le, r) => ascending l ++ ascending r
  | _ => []

def properSublists (items : List Component) : List (List Component) :=
  (List.range (items.length - 1)).flatMap fun k => combinations (k + 1) items

def proposals : Variation → List Component
  | partitionToGroup => (partitionLists bank e).map .groupListOf
  | groupSubsets => ((groupLists bank e).flatMap properSublists).map .groupListOf
  | groupTransitive => (groupLists bank e).flatMap (transitive bank e)
  | groupSameColumn =>
    ((groupLists bank e).flatMap fun items => choices (items.map (sameName bank e))).map .groupListOf
  | groupToPartition => (groupLists bank e).map .partitionListOf
  | inequalityToOrder => (comparisons bank e).flatMap orders

end Proposals

def allowance (cs : List Component) : Counter := .sum (cs.map (·.counter))

end Variation

end QuerySearch
