import QuerySearch.Text.Lowercase

/-! The operators and function names that components are built with. -/

namespace QuerySearch

inductive CompareOp where
  | lt | le | eq | ne
  deriving DecidableEq

def CompareOp.text : CompareOp → String
  | .lt => "<"
  | .le => "<="
  | .eq => "="
  | .ne => "<>"

inductive LogicOp where
  | and | or
  deriving DecidableEq

def LogicOp.text : LogicOp → String
  | .and => "AND"
  | .or => "OR"

inductive JoinType where
  | inner | left | full
  deriving DecidableEq

def JoinType.text : JoinType → String
  | .inner => "INNER JOIN"
  | .left => "LEFT JOIN"
  | .full => "FULL JOIN"

inductive AggFunc where
  | count | sum | avg | max | min | bitAnd | bitOr
  deriving DecidableEq

def AggFunc.all : List AggFunc := [.count, .sum, .avg, .max, .min, .bitAnd, .bitOr]

def AggFunc.name : AggFunc → String
  | .count => "count"
  | .sum => "sum"
  | .avg => "avg"
  | .max => "max"
  | .min => "min"
  | .bitAnd => "bit_and"
  | .bitOr => "bit_or"

def AggFunc.text (f : AggFunc) : String := f.name.toUpper

def AggFunc.ofName? (name : String) : Option AggFunc :=
  AggFunc.all.find? fun f => f.name == Text.lowercase name

theorem AggFunc.mem_all (f : AggFunc) : f ∈ AggFunc.all := by cases f <;> simp [all]

inductive WindowFunc where
  | denseRank
  deriving DecidableEq

def WindowFunc.name : WindowFunc → String
  | .denseRank => "dense_rank"

def WindowFunc.text (f : WindowFunc) : String := f.name.toUpper

def WindowFunc.ofName? (name : String) : Option WindowFunc :=
  [WindowFunc.denseRank].find? fun f => f.name == Text.lowercase name

inductive SortDir where
  | asc | desc
  deriving DecidableEq

def SortDir.text : SortDir → String
  | .asc => "ASC"
  | .desc => "DESC"

end QuerySearch
