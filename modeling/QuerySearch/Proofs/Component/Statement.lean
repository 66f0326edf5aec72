import QuerySearch.Component.Printer
import QuerySearch.Sql.Constants

/-! The syntax tree that a bound query stands for, and the queries whose text can be read again.  The
trees are open in their constants, as those that are read are, and are converted constant by constant. -/

namespace QuerySearch

/-- A name that is not empty and has no double quote in it. -/
def PlainName (s : String) : Prop := s ≠ "" ∧ '"' ∉ s.toList

instance (s : String) : Decidable (PlainName s) := inferInstanceAs (Decidable (_ ∧ _))

def CompareOp.comparator : CompareOp → Sql.Comparator
  | lt => .lt
  | le => .le
  | eq => .eq
  | ne => .ne

def LogicOp.connective : LogicOp → Sql.Connective
  | and => .and
  | or => .or

def JoinType.joinKind : JoinType → Sql.JoinKind
  | inner => .inner
  | left => .left
  | full => .full

namespace Component

def keyItems : Component → List Component
  | .partitionList items | .groupList items | .sortList items => items
  | _ => []

section Tree

variable {α : Type} (int : Int64 → α) (str : String → α)

def columnExpr : Component → Sql.Expr α
  | .boundColumn qualifier name _ =>
    .column ⟨if qualifier.isEmpty then none else some qualifier, name⟩
  | _ => .column ⟨none, ""⟩

def keyExpr : Component → Sql.Expr α
  | .int v => .constant (int v)
  | .str s => .constant (str s)
  | .aggregation func arg isDistinct => .call func.name isDistinct false [columnExpr arg] none
  | c => columnExpr c

def sortKeyOf : Component → Sql.SortKey α
  | .sortItem key dir => ⟨keyExpr int str key, dir == .desc⟩
  | c => ⟨keyExpr int str c, false⟩

def windowOf (partition orderBy : Component) : Sql.Window α :=
  ⟨partition.keyItems.map (keyExpr int str), orderBy.keyItems.map (sortKeyOf int str)⟩

def operandExpr : Component → Sql.Expr α
  | .aggWindow (.aggregation func arg isDistinct) partition orderBy =>
    .call func.name isDistinct false [columnExpr arg] (some (windowOf int str partition orderBy))
  | .funcWindow (.windowClause func) partition orderBy =>
    .call func.name false false [] (some (windowOf int str partition orderBy))
  | c => keyExpr int str c

def predicateExpr : Component → Sql.Expr α
  | .comparison l op r => .compare (operandExpr int str l) op.comparator (operandExpr int str r)
  | .connection l op r => .logic l.predicateExpr op.connective r.predicateExpr
  | c => operandExpr int str c

def conditionExpr : Component → Option (Sql.Expr α)
  | .absent => none
  | c => some (predicateExpr int str c)

def itemOf : Component → Sql.SelectItem α
  | .named item asName => .expr (operandExpr int str item) (some asName)
  | c => .expr (operandExpr int str c) none

mutual

def sourceRef : Component → Sql.TableRef α
  | .tableSource (.table t) asName => .table t.name asName
  | .querySource q asName => .query q.statement asName
  | .join l r type on => .join l.sourceRef r.sourceRef type.joinKind (conditionExpr int str on)
  | _ => .table "" none

/-- The statement that a bound query stands for. -/
def statement : Component → Sql.Select α
  | .query (.select items) source filter groupBy having orderBy isDistinct => {
      distinct := isDistinct
      items := items.map (itemOf int str)
      sources := [source.sourceRef]
      filter := conditionExpr int str filter
      groupBy := groupBy.keyItems.map (keyExpr int str)
      having := conditionExpr int str having
      orderBy := orderBy.keyItems.map (sortKeyOf int str) }
  | _ => ⟨false, [], [], none, [], none, []⟩

end

end Tree

section Shapes

def IsColumn : Component → Prop
  | .boundColumn qualifier name _ => (qualifier = "" ∨ PlainName qualifier) ∧ PlainName name
  | _ => False

def IsKey : Component → Prop
  | .int _ | .str _ => True
  | .aggregation _ arg _ => arg.IsColumn
  | c => c.IsColumn

def IsSortKey : Component → Prop
  | .sortItem key _ => key.IsKey
  | _ => False

variable (lists : List Component → Prop)

/-- A clause that is not there, or one whose items are admitted by `isItem` and, together, by
`lists`. -/
def IsListing (isItem : Component → Prop) : Component → Prop
  | .absent => True
  | .partitionList items | .groupList items | .sortList items => lists items ∧ ∀ c ∈ items, isItem c
  | _ => False

def IsOperand : Component → Prop
  | .aggWindow (.aggregation _ arg _) partition orderBy =>
    arg.IsColumn ∧ partition.IsListing lists IsKey ∧ orderBy.IsListing lists IsSortKey
  | .funcWindow (.windowClause _) partition orderBy =>
    partition.IsListing lists IsKey ∧ orderBy.IsListing lists IsSortKey
  | c => c.IsKey

def IsPredicate : Component → Prop
  | .comparison l _ r => l.IsOperand lists ∧ r.IsOperand lists
  | .connection l _ r => l.IsPredicate ∧ r.IsPredicate
  | c => c.IsOperand lists

def IsCondition : Component → Prop
  | .absent => True
  | c => c.IsPredicate lists

def IsItem : Component → Prop
  | .named item asName => item.IsOperand lists ∧ PlainName asName
  | c => c.IsOperand lists

mutual

def IsSource : Component → Prop
  | .tableSource (.table t) asName => PlainName t.name ∧ ∀ a ∈ asName, PlainName a
  | .querySource q asName => q.IsQuery ∧ ∀ a ∈ asName, PlainName a
  | .join l r _ on => l.IsSource ∧ r.IsSource ∧ on.IsPredicate lists
  | _ => False

/-- A query over named columns, without floats, whose lists of keys are all admitted by `lists`. -/
def IsQuery : Component → Prop
  | .query (.select items) source filter groupBy having orderBy _ =>
    (items ≠ [] ∧ ∀ c ∈ items, c.IsItem lists) ∧ source.IsSource ∧ filter.IsCondition lists ∧
      groupBy.IsListing lists IsKey ∧ having.IsCondition lists ∧ orderBy.IsListing lists IsSortKey
  | _ => False

end

end Shapes

mutual

def SourceNamed : Component → Prop
  | .tableSource _ asName => asName.isSome
  | .querySource q asName => q.AllNamed ∧ asName.isSome
  | .join l r .. => l.SourceNamed ∧ r.SourceNamed
  | _ => False

def AllNamed : Component → Prop
  | .query (.select items) source .. =>
    (∀ c ∈ items, ∃ item asName, c = .named item asName) ∧ source.SourceNamed
  | _ => False

end

end Component

namespace Sql

open Component

section Constants

variable {α β ε : Type} {f : α → Except ε β} {int : Int64 → α} {str : String → α}
  {int' : Int64 → β} {str' : String → β}

theorem mapConstants_columnExpr (c : Component) :
    (columnExpr c).mapConstants f = .ok (columnExpr c) := by
  cases c <;> rfl

variable (hint : ∀ v, f (int v) = .ok (int' v)) (hstr : ∀ s, f (str s) = .ok (str' s))

include hint hstr

theorem mapConstants_keyExpr (c : Component) :
    (keyExpr int str c).mapConstants f = .ok (keyExpr int' str' c) := by
  cases c with
  | int v =>
    rw [keyExpr, Expr.mapConstants, hint]
    rfl
  | str s =>
    rw [keyExpr, Expr.mapConstants, hstr]
    rfl
  | aggregation func arg isDistinct =>
    simp only [keyExpr, Expr.mapConstants, Expr.mapConstantsList, Window.mapConstants?,
      mapConstants_columnExpr]
    rfl
  | _ => rfl

theorem mapConstants_keys (cs : List Component) :
    Expr.mapConstantsList f (cs.map (keyExpr int str)) = .ok (cs.map (keyExpr int' str')) := by
  induction cs with
  | nil => rfl
  | cons c cs ih =>
    simp only [List.map_cons, Expr.mapConstantsList, mapConstants_keyExpr hint hstr, ih]
    rfl

theorem mapConstants_sortKeys (cs : List Component) :
    SortKey.mapConstants f (cs.map (sortKeyOf int str)) = .ok (cs.map (sortKeyOf int' str')) := by
  induction cs with
  | nil => rfl
  | cons c cs ih =>
    cases c <;> simp only [List.map_cons, sortKeyOf, SortKey.mapConstants,
      mapConstants_keyExpr hint hstr, ih] <;> rfl

theorem mapConstants_window (partition orderBy : Component) :
    Window.mapConstants? f (some (windowOf int str partition orderBy)) =
      .ok (some (windowOf int' str' partition orderBy)) := by
  simp only [windowOf, Window.mapConstants?, mapConstants_keys hint hstr,
    mapConstants_sortKeys hint hstr]
  rfl

theorem mapConstants_operandExpr (c : Component) :
    (operandExpr int str c).mapConstants f = .ok (operandExpr int' str' c) := by
  cases c using operandExpr.fun_cases with
  | case1 func arg isDistinct partition orderBy =>
    simp only [operandExpr, Expr.mapConstants, Expr.mapConstantsList, mapConstants_columnExpr,
      mapConstants_window hint hstr]
    rfl
  | case2 func partition orderBy =>
    simp only [operandExpr, Expr.mapConstants, Expr.mapConstantsList, mapConstants_window hint hstr]
    rfl
  | case3 c hagg hwindow =>
    rw [operandExpr, operandExpr]
    · exact mapConstants_keyExpr hint hstr c
    all_goals assumption

theorem mapConstants_predicateExpr (c : Component) :
    (predicateExpr int str c).mapConstants f = .ok (predicateExpr int' str' c) := by
  induction c using predicateExpr.induct with
  | case1 l op r =>
    simp only [predicateExpr, Expr.mapConstants, mapConstants_operandExpr hint hstr]
    rfl
  | case2 l op r ihl ihr =>
    simp only [predicateExpr, Expr.mapConstants, ihl, ihr]
    rfl
  | case3 c hcompare hconnect =>
    rw [predicateExpr, predicateExpr]
    · exact mapConstants_operandExpr hint hstr c
    all_goals assumption

theorem mapConstants_conditionExpr (c : Component) :
    Expr.mapConstants? f (conditionExpr int str c) = .ok (conditionExpr int' str' c) := by
  cases c using conditionExpr.fun_cases with
  | case1 => rfl
  | case2 c habsent =>
    rw [conditionExpr, conditionExpr, Expr.mapConstants?, mapConstants_predicateExpr hint hstr]
    · rfl
    all_goals assumption

theorem mapConstants_items (cs : List Component) :
    SelectItem.mapConstants f (cs.map (itemOf int str)) = .ok (cs.map (itemOf int' str')) := by
  induction cs with
  | nil => rfl
  | cons c cs ih =>
    cases c <;> simp only [List.map_cons, itemOf, SelectItem.mapConstants,
      mapConstants_operandExpr hint hstr, ih] <;> rfl

theorem mapConstants_all :
    (∀ c : Component, (c.sourceRef int str).mapConstants f = .ok (c.sourceRef int' str')) ∧
      ∀ c : Component, (c.statement int str).mapConstants f = .ok (c.statement int' str') := by
  apply sourceRef.mutual_induct
  case case1 =>
    intro t asName
    rfl
  case case2 =>
    intro q asName ih
    simp only [sourceRef, TableRef.mapConstants, ih]
    rfl
  case case3 =>
    intro l r type on ihl ihr
    simp only [sourceRef, TableRef.mapConstants, ihl, ihr, mapConstants_conditionExpr hint hstr]
    rfl
  case case4 =>
    intro c htable hquery hjoin
    rw [sourceRef, sourceRef]
    · rfl
    all_goals assumption
  case case5 =>
    intro items source filter groupBy having orderBy isDistinct ih
    simp only [Component.statement, Select.mapConstants, mapConstants_items hint hstr,
      TableRef.mapConstantsList, ih, mapConstants_conditionExpr hint hstr, mapConstants_keys hint hstr,
      mapConstants_sortKeys hint hstr]
    rfl
  case case6 =>
    intro c hquery
    rw [Component.statement, Component.statement]
    · rfl
    all_goals assumption

end Constants

end Sql

end QuerySearch
