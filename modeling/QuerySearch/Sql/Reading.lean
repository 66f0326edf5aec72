import QuerySearch.Sql.Constants
import QuerySearch.Sql.Grammar

/-! Reading whole statements: the text has to follow the grammar, then its literals have to be in
range. -/

namespace QuerySearch.Sql

inductive ReadError where
  | malformed
  | invalidLiteral (e : InvalidLiteral)
  deriving DecidableEq

def valued (q : Except InvalidLiteral α) : Except ReadError α := q.mapError .invalidLiteral

def Select.read (text : String) : Except ReadError (Select Constant) :=
  match selectStatement.whole text with
  | none => .error .malformed
  | some q => valued (q.mapConstants Literal.value)

def Expr.readFront (text : String) : Except ReadError (String × Expr Constant) :=
  match (withLevels expr).matched text with
  | none => .error .malformed
  | some (front, e) => valued (return (front, ← e.mapConstants Literal.value))

def TableDef.read (text : String) : Except ReadError TableDef :=
  match createStatement.whole text with
  | none => .error .malformed
  | some d => .ok d

def TableDef.readAll (text : String) : Except ReadError (List TableDef) :=
  match tableDefs.whole text with
  | none => .error .malformed
  | some ds => .ok ds

end QuerySearch.Sql
