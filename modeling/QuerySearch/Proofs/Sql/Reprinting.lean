import Mathlib
import QuerySearch.Proofs.Sql.Grammatical
import QuerySearch.Proofs.Sql.Printing

/-! The text of a statement that was read is read as this statement again, if the text says what the
statement is.  It does unless it drops quotes that a name needs, the point of a number or parentheses
inside a comparison or a null test. -/

namespace QuerySearch.Sql

theorem read_printed_text {text : String} {q : Select Constant} (h : Select.read text = .ok q)
    (hlegible : q.Legible) : Select.read q.text = .ok q :=
  Select.read_text hlegible (grammatical_of_read h)

def countedJoins : Select Constant where
  distinct := false
  items := [.expr (.call "count" false true [] none) none]
  sources := [.join (.table "t" none)
    (.join (.table "v" none) (.table "w" none) .inner
      (some (.compare (.column ⟨none, "a"⟩) .le (.constant (.real ⟨0x3FF8000000000000⟩)))))
    .left (some (.not (.compare (.column ⟨none, "b"⟩) .eq (.constant (.int 1)))))]
  filter := some (.logic (.isNull (.column ⟨none, "x"⟩) true) .or
    (.compare (.column ⟨some "t", "y"⟩) .ne (.constant (.str "it's"))))
  groupBy := []
  having := none
  orderBy := []

def countedJoinsText : String :=
  "select count(*) from t left join (v join w on a <= 1.5) on not b = 1 where x is not null or t.y <> 'it''s'"

set_option maxRecDepth 20000 in
theorem read_countedJoinsText : Select.read countedJoinsText = .ok countedJoins := by
  cbv

theorem legible_countedJoins : countedJoins.Legible := by
  have hnames : BareName "count" ∧ BareName "t" ∧ BareName "v" ∧ BareName "w" ∧ BareName "a" ∧ BareName "b" ∧
      BareName "x" ∧ BareName "y" := by
    decide
  have hpoint : '.' ∈ ((⟨0x3FF8000000000000⟩ : Binary64).text .plain).toList := by decide +kernel
  simp [Select.Legible, countedJoins, Select.All, SelectItem.AllOf, TableRef.AllOf, TableRef.All, Expr.All?,
    Expr.All, Expr.AllOf, Window.All, SortKey.AllOf, legible, Expr.stratum, Constant.Legible, hnames, hpoint]

theorem read_printed_countedJoins : Select.read countedJoinsText = .ok countedJoins ∧ countedJoins.Legible ∧
    Select.read countedJoins.text = .ok countedJoins :=
  ⟨read_countedJoinsText, legible_countedJoins, read_printed_text read_countedJoinsText legible_countedJoins⟩

def orderColumn : Select Constant :=
  ⟨false, [.expr (.column ⟨none, "order"⟩) none], [.table "t" none], none, [], none, []⟩

theorem not_read_printed_order : ¬ ∀ (text : String) (q : Select Constant), Select.read text = .ok q →
    Select.read q.text = .ok q := by
  intro h
  have hread : Select.read "SELECT \"order\" FROM t" = .ok orderColumn := by
    cbv
  have hmalformed : (selectStatement.whole orderColumn.text).isNone = true := by
    decide +kernel
  have hagain := h _ _ hread
  rw [Select.read, Option.isNone_iff_eq_none.1 hmalformed] at hagain
  cases hagain

end QuerySearch.Sql
