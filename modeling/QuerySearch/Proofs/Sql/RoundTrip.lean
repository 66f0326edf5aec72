import QuerySearch.Component.Lemmas
import QuerySearch.Proofs.Binding.Named
import QuerySearch.Proofs.Sql.Statements

/-! The text of a bound query is read as the statement that the query stands for. -/

namespace QuerySearch.Sql

open Component

theorem read_text {c : Component} (h : c.IsQuery (· ≠ [])) (hnamed : c.AllNamed) :
    Select.read c.text = .ok (c.statement .int .str) := by
  have hstr (s : String) : (Literal.str s).value = .ok (.str s) := rfl
  have hvalue := (mapConstants_all value_writtenInteger hstr).2 c
  rw [Select.read, whole_statement h hnamed]
  simp only [hvalue]
  rfl

/-- A query with its names bound is read back from its text, node for node. -/
theorem read_bound_text {q c : Component} {names names' : NameSupply}
    (hbound : q.bindNames names = (.ok c, names')) (h : c.IsQuery (· ≠ [])) :
    Select.read c.text = .ok (c.statement .int .str) :=
  read_text h (bindNames_named hbound)

section Samples

def orders : Table := ⟨"orders", [("id", .number)], 0⟩

def orderId : Component := .column orders "id" .number

/-- The rank and the number of some of the orders that a subquery selects. -/
def rankedOrders (id inner count : Component) : Component :=
  .query
    (.select [.named (.funcWindow (.windowClause .denseRank) (.partitionList [id])
      (.sortList [.sortItem id .desc])) "r", .named (.aggregation .count id true) "n"])
    (.querySource
      (.query (.select [.named inner "k"]) (.tableSource (.table orders) (some "o")) .absent .absent
        .absent .absent false) (some "q"))
    (.connection (.connection (.comparison id .lt (.int (-5))) .or
      (.comparison id .ne (.str "it's"))) .and (.comparison id .le id))
    (.groupList [id]) .absent (.sortList [.sortItem count .desc]) true

def rankedOrdersBound : Component :=
  rankedOrders (.boundColumn "q" "k" orderId) (.boundColumn "o" "id" orderId)
    (.boundColumn "" "n" (.aggChain .count orderId))

theorem bindNames_rankedOrders :
    (rankedOrders orderId orderId (.aggChain .count orderId)).bindNames .empty =
      (.ok rankedOrdersBound, .empty) := by
  have hkeys : (Fingerprint.ofWindowChain .denseRank .ofAbsent ==
      Fingerprint.ofAggChain .count (.ofColumn orders "id")) = false := by
    decide +kernel
  have hcolumns : orders.columns = [("id", .number)] := rfl
  simp [rankedOrders, rankedOrdersBound, bindNames, bindQuery, bindSource, bindItems, bindItem, bound,
    boundKeys, boundAll, boundKeysAll, locate, tableEnvironment, Environment.places, Environment.bind,
    Environment.contains, Environment.empty, Environment.through, sortListOf, partitionListOf,
    groupListOf, sortedByKey, orderId, provided, hkeys, hcolumns]
  rfl

theorem read_rankedOrders :
    (rankedOrders orderId orderId (.aggChain .count orderId)).bindNames .empty =
        (.ok rankedOrdersBound, .empty) ∧
      rankedOrdersBound.IsQuery (· ≠ []) ∧
      Select.read rankedOrdersBound.text = .ok (rankedOrdersBound.statement .int .str) := by
  have hnames : PlainName "r" ∧ PlainName "n" ∧ PlainName "k" ∧ PlainName "o" ∧ PlainName "q" ∧
      PlainName "id" ∧ PlainName "orders" := by
    simp [PlainName]
  have h : rankedOrdersBound.IsQuery (· ≠ []) := by
    simp [rankedOrdersBound, rankedOrders, IsQuery, IsSource, IsItem, IsOperand, IsListing, IsKey,
      IsSortKey, IsColumn, IsCondition, IsPredicate, orders, hnames]
  exact ⟨bindNames_rankedOrders, h, read_bound_text bindNames_rankedOrders h⟩

def keylessText : List Char :=
  ['S', 'E', 'L', 'E', 'C', 'T', ' ', '"', 'o', '"', '.', '"', 'i', 'd', '"', ' ', 'A', 'S',
    ' ', '"', 'x', '"', ' ', 'F', 'R', 'O', 'M', ' ', '"', 'o', 'r', 'd', 'e', 'r', 's', '"',
    ' ', 'A', 'S', ' ', '"', 'o', '"', ' ', 'G', 'R', 'O', 'U', 'P', ' ', 'B', 'Y', ' ']

theorem no_statement_without_keys : selectStatement keylessText = none := by
  have h : (selectStatement keylessText).isNone = true := by
    decide +kernel
  exact Option.isNone_iff_eq_none.1 h

def groupedByNothing (id : Component) : Component :=
  .query (.select [.named id "x"]) (.tableSource (.table orders) (some "o")) .absent (.groupList [])
    .absent .absent false

/-- A clause without keys is written as its keyword, behind which the grammar wants a key. -/
theorem not_read_without_keys : ¬ ∀ (q c : Component) (names names' : NameSupply),
    q.bindNames names = (.ok c, names') → c.IsQuery (fun _ => True) →
      Select.read c.text = .ok (c.statement .int .str) := by
  intro h
  have hcolumns : orders.columns = [("id", .number)] := rfl
  have hbound : (groupedByNothing orderId).bindNames .empty =
      (.ok (groupedByNothing (.boundColumn "o" "id" orderId)), .empty) := by
    simp [groupedByNothing, bindNames, bindQuery, bindSource, bindItems, bindItem, bound, boundKeys,
      boundAll, locate, tableEnvironment, Environment.places, Environment.bind, Environment.contains,
      Environment.empty, groupListOf, sortedByKey, orderId, provided,
      hcolumns]
    rfl
  have hquery : (groupedByNothing (.boundColumn "o" "id" orderId)).IsQuery (fun _ => True) := by
    simp [groupedByNothing, IsQuery, IsSource, IsItem, IsOperand, IsListing, IsKey, IsColumn,
      IsCondition, orders, PlainName]
  have habsent : absent.isAbsent = true := (isAbsent_iff _).2 rfl
  have hpresent : (groupList []).isAbsent = false := by
    rw [← Bool.not_eq_true, isAbsent_iff]
    simp
  have htext : (groupedByNothing (.boundColumn "o" "id" orderId)).text.toList = keylessText := by
    simp [groupedByNothing, text, texts, qualified, quoteName, orders, withAlias, Component.clause,
      habsent, hpresent, commaSeparated, keylessText]
  have hread : Select.read (groupedByNothing (.boundColumn "o" "id" orderId)).text =
      .error .malformed := by
    rw [Select.read, Parser.whole, htext, Parser.bind_of_none no_statement_without_keys]
    rfl
  have := h _ _ _ _ hbound hquery
  rw [hread] at this
  cases this

end Samples

end QuerySearch.Sql
