import QuerySearch.Proofs.Binding.Clauses
import QuerySearch.Proofs.Resolve.Denoted

/-! The sort keys of a statement and those of a query that stands for it, at every level and in every OVER
clause. -/

namespace QuerySearch

open Sql (Constant Expr Select SelectItem SortKey TableRef)

def Sql.Expr.overKeys : Expr Constant → Option (List (SortKey Constant))
  | .call _ _ _ _ (some window) => some window.orderBy
  | _ => none

def Component.overOrder : Component → Option Component
  | .aggWindow _ _ orderBy | .funcWindow _ _ orderBy => some orderBy
  | .named item _ => item.overOrder
  | _ => none

section Keys

variable (denotes : Expr Constant → Component → Prop) (reads : Component → Component → Prop)

/-- The item sorts as the key says, by what reads the chain that the key stands for. -/
def SortsAs (k : SortKey Constant) (item : Component) : Prop :=
  ∃ chain value, denotes k.expr chain ∧ reads chain value ∧
    item = .sortItem value (sortDir k.descending)

/-- The clause sorts as each of the keys says, but in the order of the fingerprints. -/
inductive OrderedAs : List (SortKey Constant) → Component → Prop
  | absent : OrderedAs [] .absent
  | list {keys matched items} (hne : keys ≠ []) (hkeys : List.Forall₂ (SortsAs denotes reads) keys matched)
    (hperm : matched.Perm items) (hsorted : (items.map Component.fingerprint).Pairwise fun f g => ¬ g < f) :
    OrderedAs keys (.sortList items)

end Keys

section Levels

variable (scope : Scope) (reads : Component → Component → Prop)

def OverAs (e : Expr Constant) (c : Component) : Prop :=
  Option.Rel (OrderedAs (Denotes scope) reads) e.overKeys c.overOrder

inductive TestAs : Expr Constant → Component → Prop
  | compare {l op r l' op' r'} (hl : OverAs scope reads l l') (hr : OverAs scope reads r r') :
    TestAs (.compare l op r) (.comparison l' op' r')
  | swapped {l op r l' op' r'} (hl : OverAs scope reads l l') (hr : OverAs scope reads r r') :
    TestAs (.compare l op r) (.comparison r' op' l')
  | logic {l op r l' op' r'} (hl : TestAs l l') (hr : TestAs r r') :
    TestAs (.logic l op r) (.connection l' op' r')
  | not {e c} (h : TestAs e c) : TestAs (.not e) c

inductive ClauseAs : Option (Expr Constant) → Component → Prop
  | absent : ClauseAs none .absent
  | test {e c} (h : TestAs scope reads e c) : ClauseAs (some e) c

def ItemAs (select : List (SelectItem Constant)) (item : Component) : Prop :=
  ∃ e asName chain, .expr e asName ∈ select ∧ Denotes scope e chain ∧ item.provided = [chain] ∧
    OverAs scope reads e item

end Levels

section Statements

variable (schema : Schema) (reads : Component → Component → Prop)

mutual

/-- The ORDER BY and OVER clauses of the query and of its subqueries sort as those of the statement do. -/
inductive Sql.Select.OrdersAs : Select Constant → UInt64 → Component → Prop
  | query {isDistinct select t filter groupBy having orderBy next source scope next' items source' filter'
      groupBy' having' orderBy' isDistinct'}
    (hscope : Gives (t.resolve schema) next (source, scope) next') (hsource : t.OrdersAs next source')
    (hitems : ∀ item ∈ items, ItemAs scope reads select item) (hfilter : ClauseAs scope reads filter filter')
    (hhaving : ClauseAs scope reads having having')
    (horder : OrderedAs (KeyDenotes scope select) reads orderBy orderBy') :
    Select.OrdersAs ⟨isDistinct, select, [t], filter, groupBy, having, orderBy⟩ next
      (.query (.select items) source' filter' groupBy' having' orderBy' isDistinct')

inductive Sql.TableRef.OrdersAs : TableRef Constant → UInt64 → Component → Prop
  | table {name asName next t asName'} : TableRef.OrdersAs (.table name asName) next (.tableSource t asName')
  | query {q asName next c asName'} (h : q.OrdersAs next c) :
    TableRef.OrdersAs (.query q asName) next (.querySource c asName')
  | join {left right kind e next l leftScope mid r rightScope next' l' r' on c}
    (hleft : Gives (left.resolve schema) next (l, leftScope) mid)
    (hright : Gives (right.resolve schema) mid (r, rightScope) next') (hl : left.OrdersAs next l')
    (hr : right.OrdersAs mid r') (hon : TestAs (leftScope ++ rightScope) reads e on)
    (hc : c = joined l' r' on kind) :
    TableRef.OrdersAs (.join left right kind (some e)) next c

end

end Statements

def ReadsItself (chain value : Component) : Prop :=
  value = chain ∧ chain.IsOrigin ∧ chain.kind.isReferencable = true

section Values

variable {scope : Scope} {denotes : Expr Constant → Component → Prop}
  {reads : Component → Component → Prop} {keys : List (SortKey Constant)} {items : List Component}
  {c : Component}

theorem Component.IsOrigin.overOrder (h : c.IsOrigin) : c.overOrder = none := by
  cases c with
  | column | windowChain | int | float | str | aggChain => rfl
  | _ => exact h.elim

end Values

end QuerySearch
