import Mathlib
import QuerySearch.Proofs.Meaning.Joins

/-! A statement of columns, literals, joins and conditions has the rows of the query it is resolved to, as
long as no literal stands on a side of a join that may be missing: it would be read as itself there,
and not as missing. -/

namespace QuerySearch

namespace Sql

section Literals

variable (schema : Schema)

def TableRef.ShowsNoLiteral (t : TableRef Constant) : Prop :=
  ∀ next source scope next', Gives (t.resolve schema) next (source, scope) next' →
    ∀ v ∈ scope, ¬ v.chain.IsConstant

mutual

/-- The sides of joins that may be missing show no literals. -/
def Select.PadsNoLiteral : Select Constant → Prop
  | ⟨_, _, sources, _, _, _, _⟩ => TableRef.PadsNoLiteralEach sources

def TableRef.PadsNoLiteral : TableRef Constant → Prop
  | .table .. => True
  | .query q _ => q.PadsNoLiteral
  | .join l r kind _ => (l.PadsNoLiteral ∧ r.PadsNoLiteral) ∧
    (kind.padsLeft = true → l.ShowsNoLiteral schema) ∧
      (kind.padsRight = true → r.ShowsNoLiteral schema)

def TableRef.PadsNoLiteralEach : List (TableRef Constant) → Prop
  | [] => True
  | t :: ts => t.PadsNoLiteral ∧ TableRef.PadsNoLiteralEach ts

end

end Literals

/-- Without groups, order and calls. -/
def Select.IsPlain {α : Type} (level : Select α) : Prop :=
  level.groupBy = [] ∧ level.having = none ∧ level.orderBy = [] ∧ (∀ s ∈ level.items, s.NoCall) ∧
    ∀ e ∈ level.exprs, e.NoCall

def Select.Plain {α : Type} (q : Select α) : Prop := ∀ level ∈ q.levels, level.IsPlain

end Sql

open Sql (Constant Select TableRef)

section Runs

variable {D : Type} [LinearOrder D] {lit : Literals D} {db : Database D} {schema : Schema}
  {c : Component} {scope : Scope}
  {next next' : UInt64}

def RowsTo (lit : Literals D) (reads : Nat) (next : UInt64) (labelled : Labelled D) (c : Component)
    (bag : Multiset (Row D)) (scope : Scope) (next' : UInt64) : Prop :=
  next'.toNat = next.toNat + reads ∧ Agrees lit (Between next.toNat next'.toNat) labelled c bag scope

theorem table_rowsTo {name : String} {asName : Option String}
    (h : Gives ((TableRef.table name asName).resolve schema) next (c, scope) next')
    (hreads : next.toNat + 1 < UInt64.size) :
    RowsTo lit 1 next ((TableRef.table name asName).labelled lit db schema) c (c.sourceRows lit db) scope
      next' := by
  obtain ⟨t, table, ht, rfl, rfl, rfl, rfl⟩ := gives_table h
  have hnext : (next + 1).toNat = next.toNat + 1 := by
    rw [UInt64.toNat_add]
    exact Nat.mod_eq_of_lt hreads
  refine ⟨hnext, ?_⟩
  rw [TableRef.labelled, ht, Component.sourceRows]
  refine (table_agrees ⟨Text.lowercase t.name, t.columns, next⟩ asName _).mono ?_
  rintro id rfl
  exact ⟨Nat.le_refl _, by omega⟩

theorem querySource_agrees {inner : Component} {innerScope : Scope} {q : Select Constant}
    {asName : Option String}
    (h : Agrees lit ids (q.labelled lit db schema) inner (inner.queryRows lit db) innerScope) :
    Agrees lit ids ((TableRef.query q asName).labelled lit db schema) (.querySource inner asName)
      ((Component.querySource inner asName).sourceRows lit db)
      (asName.elim innerScope innerScope.renamed) := by
  have hprovided : (Component.querySource inner asName).provided = inner.provided := by
    rw [Component.provided]
  rw [Component.sourceRows]
  cases asName with
  | none =>
    rw [TableRef.labelled]
    exact h.relabel hprovided h.header rfl
  | some a =>
    rw [TableRef.labelled]
    refine h.relabel hprovided ?_ ?_
    · simp [h.header, Scope.renamed, VisibleColumn.label, Function.comp_def]
    · simp [Scope.renamed, Function.comp_def]

theorem resolve_rowsTo (schema : Schema) :
    (∀ (q : Select Constant) next c scope next', Gives (q.resolve schema) next (c, scope) next' →
      q.Plain → q.PadsNoLiteral schema → next.toNat + q.reads < UInt64.size →
      RowsTo lit q.reads next (q.labelled lit db schema) c (c.queryRows lit db) scope next' ∧
        c.queryRows lit db = (q.labelled lit db schema).rows) ∧
    ∀ (t : TableRef Constant) next c scope next', Gives (t.resolve schema) next (c, scope) next' →
      (∀ level ∈ t.levels, level.IsPlain) → (∀ e ∈ t.conditions, e.NoCall) → t.PadsNoLiteral schema →
      next.toNat + t.reads < UInt64.size →
      RowsTo lit t.reads next (t.labelled lit db schema) c (c.sourceRows lit db) scope next' := by
  apply resolve_induct
  case table =>
    intro name asName next c scope next' h _ _ _ hreads
    exact table_rowsTo h hreads
  case query =>
    intro q asName next c scope next' ih hlevels _ hpads hreads
    have hrows := ih hlevels hpads hreads
    exact ⟨hrows.1.1, querySource_agrees hrows.1.2⟩
  case join =>
    intro left right kind e next l leftScope mid r rightScope next' on hl hr hon ihl ihr hlevels hconditions
      hpads hreads
    simp only [TableRef.levels, List.forall_mem_append] at hlevels
    simp only [TableRef.conditions, List.forall_mem_append] at hconditions
    obtain ⟨⟨hpadsl, hpadsr⟩, hshowsl, hshowsr⟩ := hpads
    rw [TableRef.reads] at hreads ⊢
    have hrowsl := ihl hlevels.1 hconditions.1.1 hpadsl (by omega)
    have hmid := hrowsl.1
    have hrowsr := ihr hlevels.2 hconditions.1.2 hpadsr (by omega)
    have hnext := hrowsr.1
    have hapart : ∀ id, Between next.toNat mid.toNat id → ¬ Between mid.toNat next'.toNat id :=
      fun id h₁ h₂ => absurd h₁.2 (Nat.not_lt.2 h₂.1)
    refine ⟨by omega, ?_⟩
    rw [TableRef.labelled]
    refine (joined_agrees ⟨hrowsl.2, hrowsr.2, hapart⟩ hon (hconditions.2 e (by simp))
      (fun hkind => hshowsl hkind next l leftScope mid hl)
      (fun hkind => hshowsr hkind mid r rightScope next' hr)).mono ?_
    rintro id (h | h)
    · exact ⟨h.1, Nat.lt_of_lt_of_le h.2 (by omega)⟩
    · exact ⟨Nat.le_trans (by omega) h.1, h.2⟩
  case select =>
    intro isDistinct items t filter groupBy having orderBy next source sourceScope next' c scope _ hquery ih
      hplain hpads hreads
    obtain ⟨_, _, _, hitems, hexprs⟩ := hplain _ (.head _)
    have hconditions : ∀ e ∈ t.conditions, e.NoCall := by
      intro e he
      apply hexprs
      simp [Select.exprs, he]
    have hfilter : ∀ e ∈ filter, e.NoCall := by
      intro e he
      apply hexprs
      simp only [Select.exprs, List.mem_append, Option.mem_toList]
      tauto
    have hrows := ih (fun level hl => hplain level (.tail _ (List.mem_append_left _ hl))) hconditions hpads.1
      hreads
    have hagrees := queryOver_agrees hquery hrows.2 hitems hfilter
    exact ⟨⟨hrows.1, hagrees.1⟩, hagrees.2.symm⟩

/-- The query of a statement without groups, order and calls has the rows of the statement. -/
theorem queryRows_toQuery {statement : Select Constant} {query : Component} {names : List String}
    {nextId : UInt64} (h : (statement.toQuery schema nextId).1 = .ok (query, names))
    (hplain : statement.Plain) (hpads : statement.PadsNoLiteral schema)
    (hreads : nextId.toNat + statement.reads < UInt64.size) :
    query.queryRows lit db = (statement.labelled lit db schema).rows := by
  obtain ⟨scope, next', hresolve⟩ := gives_of_toQuery h
  exact ((resolve_rowsTo schema).1 statement nextId query scope next' hresolve hplain hpads hreads).2

end Runs

section Numbered

open Sql (JoinKind)

def pairTables : Schema := .ofDefs [⟨"t", [⟨"a", "int"⟩]⟩, ⟨"u", [⟨"b", "int"⟩]⟩]

/-- `SELECT t.a, s.k FROM t … JOIN (SELECT 1 AS k, b FROM u) AS s ON t.a = s.b` -/
def numberedPairs (kind : JoinKind) : Select Constant where
  distinct := false
  items := [.expr (.column ⟨some "t", "a"⟩) none, .expr (.column ⟨some "s", "k"⟩) none]
  sources := [.join (.table "t" none)
    (.query ⟨false, [.expr (.constant (.int 1)) (some "k"), .expr (.column ⟨none, "b"⟩) none],
      [.table "u" none], none, [], none, []⟩ (some "s")) kind
    (some (.compare (.column ⟨some "t", "a"⟩) .eq (.column ⟨some "s", "b"⟩)))]
  filter := none
  groupBy := []
  having := none
  orderBy := []

def columnA : Component := .column ⟨"t", [("a", .number)], 0⟩ "a" .number

def columnB : Component := .column ⟨"u", [("b", .number)], 1⟩ "b" .number

def numberedQuery (kind : JoinKind) : Component :=
  .query (.select [columnA, .int 1])
    (joined (.tableSource (.table ⟨"t", [("a", .number)], 0⟩) none)
      (.querySource (.query (.select [.int 1, columnB])
        (.tableSource (.table ⟨"u", [("b", .number)], 1⟩) none) .absent .absent .absent .absent false)
        (some "s")) (.comparison columnA .eq columnB) kind) .absent .absent .absent .absent false

def smallLiterals : Literals Int where
  int v := v.toInt
  real _ := 0
  str _ := 0

def smallPairs : Database Int
  | "t" => {fun _ => some 5, fun _ => some 7}
  | "u" => {fun _ => some 7, fun _ => none}
  | _ => 0

theorem numberedPairs_plain (kind : JoinKind) : (numberedPairs kind).Plain := by
  simp [Select.Plain, numberedPairs, Select.levels, TableRef.levelsEach, TableRef.levels, Select.IsPlain,
    Sql.SelectItem.NoCall, Sql.Expr.NoCall, Select.exprs, TableRef.conditions]

theorem queryRows_numberedPairs :
    ((numberedPairs .right).toQuery pairTables 0).1 = .ok (numberedQuery .right, ["a", "k"]) ∧
      (numberedPairs .right).Plain ∧ (numberedPairs .right).PadsNoLiteral pairTables ∧
      (0 : UInt64).toNat + (numberedPairs .right).reads < UInt64.size ∧
      (numberedQuery .right).queryRows smallLiterals smallPairs =
        ((numberedPairs .right).labelled smallLiterals smallPairs pairTables).rows ∧
      (numberedQuery .right).queryRows smallLiterals smallPairs =
        {[some 7, some 1], [none, some 1]} := by
  have hquery : ((numberedPairs .right).toQuery pairTables 0).1 =
      .ok (numberedQuery .right, ["a", "k"]) := by cbv
  have hpads : (numberedPairs .right).PadsNoLiteral pairTables := by
    refine ⟨⟨⟨trivial, trivial, trivial⟩, fun _ => ?_, Bool.false_ne_true.elim⟩, trivial⟩
    intro next source scope next' h v hv
    obtain ⟨_, table, _, rfl, _, _, rfl⟩ := gives_table h
    obtain ⟨column, _, rfl⟩ := List.mem_map.1 hv
    exact id
  have hreads : (0 : UInt64).toNat + (numberedPairs .right).reads < UInt64.size := by decide
  have hplain := numberedPairs_plain .right
  exact ⟨hquery, hplain, hpads, hreads, queryRows_toQuery hquery hplain hpads hreads, by decide +kernel⟩

/-- Where a left join finds no row of that query, the literal is NULL in the statement. -/
theorem queryRows_ne_numberedPairs :
    ((numberedPairs .left).toQuery pairTables 0).1 = .ok (numberedQuery .left, ["a", "k"]) ∧
      (numberedPairs .left).Plain ∧
      (numberedQuery .left).queryRows smallLiterals smallPairs = {[some 7, some 1], [some 5, some 1]} ∧
      ((numberedPairs .left).labelled smallLiterals smallPairs pairTables).rows =
        {[some 7, some 1], [some 5, none]} :=
  ⟨by cbv, numberedPairs_plain .left, by decide +kernel, by cbv⟩

end Numbered

end QuerySearch
