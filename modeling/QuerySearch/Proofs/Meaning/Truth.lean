import Mathlib.Algebra.Order.Ring.Int
import QuerySearch.Proofs.Outcomes
import QuerySearch.Resolve.Expression

/-! What conditions say where values may be missing, and that it stays the same when negations are pushed
into the comparisons. -/

namespace QuerySearch

/-- The truth of a condition, which is unknown where it hangs on a missing value. -/
inductive Truth where
  | yes
  | no
  | unknown
  deriving DecidableEq

namespace Truth

def ofBool : Bool → Truth
  | true => yes
  | false => no

def not : Truth → Truth
  | yes => no
  | no => yes
  | unknown => unknown

def and : Truth → Truth → Truth
  | no, _ | _, no => no
  | yes, yes => yes
  | _, _ => unknown

def or : Truth → Truth → Truth
  | yes, _ | _, yes => yes
  | no, no => no
  | _, _ => unknown

@[simp] theorem not_not (t : Truth) : t.not.not = t := by cases t <;> rfl

@[simp] theorem not_and (s t : Truth) : (s.and t).not = s.not.or t.not := by cases s <;> cases t <;> rfl

@[simp] theorem not_or (s t : Truth) : (s.or t).not = s.not.and t.not := by cases s <;> cases t <;> rfl

@[simp] theorem not_ofBool (b : Bool) : (ofBool b).not = ofBool (!b) := by cases b <;> rfl

/-- A comparison says nothing of a missing value. -/
def ofValues {D : Type} (test : D → D → Bool) : Option D → Option D → Truth
  | some x, some y => ofBool (test x y)
  | _, _ => unknown

@[simp] theorem ofValues_some {D : Type} (test : D → D → Bool) (x y : D) :
    ofValues test (some x) (some y) = ofBool (test x y) := rfl

@[simp] theorem ofValues_none_left {D : Type} (test : D → D → Bool) (y : Option D) :
    ofValues test none y = unknown := rfl

@[simp] theorem ofValues_none_right {D : Type} (test : D → D → Bool) (x : Option D) :
    ofValues test x none = unknown := by cases x <;> rfl

end Truth

def LogicOp.truth : LogicOp → Truth → Truth → Truth
  | .and => .and
  | .or => .or

def Sql.Connective.truth : Sql.Connective → Truth → Truth → Truth
  | .and => .and
  | .or => .or

section Ordered

variable {D : Type} [LinearOrder D]

def CompareOp.test : CompareOp → D → D → Bool
  | .lt, x, y => decide (x < y)
  | .le, x, y => decide (x ≤ y)
  | .eq, x, y => decide (x = y)
  | .ne, x, y => !decide (x = y)

def Sql.Comparator.test : Sql.Comparator → D → D → Bool
  | .eq, x, y => decide (x = y)
  | .ne, x, y => !decide (x = y)
  | .lt, x, y => decide (x < y)
  | .le, x, y => decide (x ≤ y)
  | .gt, x, y => decide (y < x)
  | .ge, x, y => decide (y ≤ x)

def Sql.Expr.truth (value : Sql.Expr Sql.Constant → Option D) : Sql.Expr Sql.Constant → Truth
  | .compare l op r => .ofValues op.test (value l) (value r)
  | .logic l op r => op.truth (l.truth value) (r.truth value)
  | .not e => (e.truth value).not
  | _ => .unknown

def Component.truth (value : Component → Option D) : Component → Truth
  | .comparison l op r => .ofValues op.test (value l) (value r)
  | .connection l op r => op.truth (l.truth value) (r.truth value)
  | _ => .unknown

end Ordered

def Sql.Expr.operands {α : Type} : Sql.Expr α → List (Sql.Expr α)
  | .compare l _ r => [l, r]
  | .logic l _ r => l.operands ++ r.operands
  | .not e => e.operands
  | _ => []

theorem Sql.Expr.forall_operands {α : Type} {p : Sql.Expr α → Prop}
    (hcompare : ∀ {l op r}, p (.compare l op r) → p l ∧ p r)
    (hlogic : ∀ {l op r}, p (.logic l op r) → p l ∧ p r) (hnot : ∀ {e}, p (.not e) → p e) (e : Sql.Expr α)
    (h : p e) : ∀ operand ∈ e.operands, p operand := by
  fun_induction Sql.Expr.operands e with
  | case1 l op r => simpa using hcompare h
  | case2 l op r ihl ihr => exact List.forall_mem_append.2 ⟨ihl (hlogic h).1, ihr (hlogic h).2⟩
  | case3 e ih => exact ih (hnot h)
  | case4 => exact fun _ ho => nomatch ho

inductive Component.Compares (operand : Component → Prop) : Component → Prop
  | comparison {l r : Component} {op : CompareOp} (hl : operand l) (hr : operand r) :
    Compares operand (.comparison l op r)
  | connection {l r : Component} {op : LogicOp} (hl : Compares operand l) (hr : Compares operand r) :
    Compares operand (.connection l op r)

section Negation

open Sql (Expr Constant)

variable {D : Type} [LinearOrder D]

theorem not_decide_lt (x y : D) : (!decide (x < y)) = decide (y ≤ x) := by
  rw [← decide_not]
  exact decide_eq_decide.2 not_lt

theorem not_decide_le (x y : D) : (!decide (x ≤ y)) = decide (y < x) := by
  rw [← decide_not]
  exact decide_eq_decide.2 not_le

theorem ofValues_normalize (op : Sql.Comparator) (negated : Bool) (x y : Option D) :
    (if (normalize op negated).2 then Truth.ofValues (normalize op negated).1.test y x
      else Truth.ofValues (normalize op negated).1.test x y) =
      if negated then (Truth.ofValues op.test x y).not else Truth.ofValues op.test x y := by
  cases x with
  | none => cases op <;> cases negated <;> simp [normalize, Truth.not]
  | some x =>
    cases y with
    | none => cases op <;> cases negated <;> simp [normalize, Truth.not]
    | some y =>
      cases op <;> cases negated <;>
        simp [normalize, CompareOp.test, Sql.Comparator.test, not_decide_lt, not_decide_le]

theorem truth_connective (op : Sql.Connective) (negated : Bool) (s t : Truth) :
    (connective op negated).truth (if negated then s.not else s) (if negated then t.not else t) =
      if negated then (op.truth s t).not else op.truth s t := by
  cases op <;> cases negated <;> simp [connective, LogicOp.truth, Sql.Connective.truth]

theorem Component.Compares.mono {p q : Component → Prop} {c : Component} (h : c.Compares p)
    (hpq : ∀ d, p d → q d) : c.Compares q := by
  induction h with
  | comparison hl hr => exact .comparison (hpq _ hl) (hpq _ hr)
  | connection _ _ ihl ihr => exact .connection ihl ihr

theorem predicate_compare {scope : Scope} {lhs rhs : Expr Constant} {op : Sql.Comparator} {negated : Bool}
    {c : Component} (h : (Expr.compare lhs op rhs).predicate scope negated = .ok c) :
    ∃ l r, lhs.value scope = .ok l ∧ rhs.value scope = .ok r ∧
      c = if (normalize op negated).2 then .comparison r (normalize op negated).1 l
        else .comparison l (normalize op negated).1 r := by
  obtain ⟨l, hl, h⟩ := ok_of_bind h
  obtain ⟨r, hr, h⟩ := ok_of_bind h
  exact ⟨l, r, hl, hr, (Except.ok.inj h).symm⟩

theorem predicate_compares {scope : Scope} {e : Expr Constant} {negated : Bool} {c : Component}
    (h : e.predicate scope negated = .ok c) :
    c.Compares fun d => ∃ operand ∈ e.operands, operand.value scope = .ok d := by
  match e with
  | .compare lhs op rhs =>
    obtain ⟨l, r, hl, hr, rfl⟩ := predicate_compare h
    have hoperandl : ∃ operand ∈ [lhs, rhs], operand.value scope = .ok l := ⟨lhs, by simp, hl⟩
    have hoperandr : ∃ operand ∈ [lhs, rhs], operand.value scope = .ok r := ⟨rhs, by simp, hr⟩
    split
    · exact .comparison hoperandr hoperandl
    · exact .comparison hoperandl hoperandr
  | .logic lhs op rhs =>
    obtain ⟨l, hl, h⟩ := ok_of_bind h
    obtain ⟨r, hr, h⟩ := ok_of_bind h
    cases h
    refine .connection ((predicate_compares hl).mono ?_) ((predicate_compares hr).mono ?_)
    · rintro d ⟨operand, ho, hd⟩
      exact ⟨operand, List.mem_append_left _ ho, hd⟩
    · rintro d ⟨operand, ho, hd⟩
      exact ⟨operand, List.mem_append_right _ ho, hd⟩
  | .not e => exact predicate_compares (e := e) h
  | .column _ | .constant _ | .call .. | .subquery _ | .isNull .. => cases h

theorem predicate_truth {scope : Scope} {e : Expr Constant} {negated : Bool} {c : Component}
    (h : e.predicate scope negated = .ok c) {value : Expr Constant → Option D}
    {value' : Component → Option D}
    (hvalue : ∀ operand ∈ e.operands, ∀ d, operand.value scope = .ok d → value' d = value operand) :
    c.truth value' = if negated then (e.truth value).not else e.truth value := by
  match e with
  | .compare lhs op rhs =>
    obtain ⟨l, r, hl, hr, rfl⟩ := predicate_compare h
    have hvaluel : value' l = value lhs := hvalue lhs (by simp [Expr.operands]) l hl
    have hvaluer : value' r = value rhs := hvalue rhs (by simp [Expr.operands]) r hr
    refine Eq.trans ?_ (ofValues_normalize op negated (value lhs) (value rhs))
    rw [← hvaluel, ← hvaluer]
    split <;> rfl
  | .logic lhs op rhs =>
    obtain ⟨l, hl, h⟩ := ok_of_bind h
    obtain ⟨r, hr, h⟩ := ok_of_bind h
    cases h
    have ihl := predicate_truth hl fun operand ho => hvalue operand (List.mem_append_left _ ho)
    have ihr := predicate_truth hr fun operand ho => hvalue operand (List.mem_append_right _ ho)
    rw [Component.truth, ihl, ihr]
    exact truth_connective op negated (lhs.truth value) (rhs.truth value)
  | .not e =>
    have hinner : e.predicate scope (!negated) = .ok c := h
    refine (predicate_truth hinner hvalue).trans ?_
    cases negated <;> simp [Expr.truth]
  | .column _ | .constant _ | .call .. | .subquery _ | .isNull .. => cases h

/-- A predicate only compares the operands of the condition, with the operators of components, and says
what the condition says, or its negation. -/
theorem truth_predicate {scope : Scope} {e : Expr Constant} {negated : Bool} {c : Component}
    (h : e.predicate scope negated = .ok c) {value : Expr Constant → Option D}
    {value' : Component → Option D}
    (hvalue : ∀ operand ∈ e.operands, ∀ d, operand.value scope = .ok d → value' d = value operand) :
    c.Compares (fun d => ∃ operand ∈ e.operands, operand.value scope = .ok d) ∧
      c.truth value' = if negated then (Expr.not e).truth value else e.truth value :=
  ⟨predicate_compares h, predicate_truth h hvalue⟩

def boxes : Table := ⟨"boxes", [("width", .number), ("height", .number), ("depth", .number)], 0⟩

def boxColumns : Scope := boxes.columns.map fun c => ⟨"b", c.1, .column boxes c.1 c.2⟩

def boxSize : String → Option Int
  | "width" => some 3
  | "depth" => some 1
  | _ => none

def boxOperand : Expr Constant → Option Int
  | .column c => boxSize c.name
  | .constant (.int v) => some v.toInt
  | _ => none

def boxValue : Component → Option Int
  | .column _ name _ => boxSize name
  | .int v => some v.toInt
  | _ => none

/-- `width > height OR NOT (depth < 2 AND width <> 3)` -/
def boxCondition : Expr Constant :=
  .logic (.compare (.column ⟨none, "width"⟩) .gt (.column ⟨some "b", "height"⟩)) .or
    (.not (.logic (.compare (.column ⟨none, "depth"⟩) .lt (.constant (.int 2))) .and
      (.compare (.column ⟨none, "width"⟩) .ne (.constant (.int 3)))))

/-- `width <= height AND depth < 2 AND width <> 3` -/
def noBoxCondition : Component :=
  .connection (.comparison (.column boxes "width" .number) .le (.column boxes "height" .number)) .and
    (.connection (.comparison (.column boxes "depth" .number) .lt (.int 2)) .and
      (.comparison (.column boxes "width" .number) .ne (.int 3)))

theorem truth_noBoxCondition :
    boxCondition.predicate boxColumns true = .ok noBoxCondition ∧
      (∀ operand ∈ boxCondition.operands, ∀ d, operand.value boxColumns = .ok d →
        boxValue d = boxOperand operand) ∧
      noBoxCondition.Compares
        (fun d => ∃ operand ∈ boxCondition.operands, operand.value boxColumns = .ok d) ∧
      noBoxCondition.truth boxValue = (Expr.not boxCondition).truth boxOperand ∧
      noBoxCondition.truth boxValue = .no := by
  have hpredicate : boxCondition.predicate boxColumns true = .ok noBoxCondition := rfl
  have hvalue : ∀ operand ∈ boxCondition.operands, ∀ d, operand.value boxColumns = .ok d →
      boxValue d = boxOperand operand := by
    simp only [boxCondition, Expr.operands, List.cons_append, List.nil_append, List.forall_mem_cons]
    refine ⟨?_, ?_, ?_, ?_, ?_, ?_, by simp⟩ <;>
      · rintro d ⟨⟩
        rfl
  have h := truth_predicate hpredicate hvalue
  exact ⟨hpredicate, hvalue, h.1, h.2, rfl⟩

end Negation

end QuerySearch
