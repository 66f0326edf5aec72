import QuerySearch.Proofs.Meaning.Rows
import QuerySearch.Proofs.Resolve.Supplied

/-! The fields that columns mean in the rows of a statement are those that their chains mean in the rows
of the component. -/

namespace QuerySearch

namespace Sql

def Expr.NoCall {α : Type} : Expr α → Prop
  | .compare l _ r => l.NoCall ∧ r.NoCall
  | .logic l _ r => l.NoCall ∧ r.NoCall
  | .not e => e.NoCall
  | .isNull e _ => e.NoCall
  | .call .. => False
  | _ => True

def SelectItem.NoCall {α : Type} : SelectItem α → Prop
  | .star => True
  | .expr e _ => e.NoCall

theorem Expr.NoCall.operand {α : Type} {e operand : Expr α} (h : e.NoCall) (ho : operand ∈ e.operands) :
    operand.NoCall :=
  Expr.forall_operands id id id e h operand ho

end Sql

namespace Component

def IsField (ids : UInt64 → Prop) : Component → Prop
  | .column t _ _ => ids t.id
  | c => c.IsConstant

inductive ReadFrom (fields : List Component) (ids : UInt64 → Prop) : Component → Prop
  | constant {c : Component} (h : c.IsConstant) : ReadFrom fields ids c
  | column {t : Table} {name : String} {type : DataType} (hid : ids t.id)
    (h : .column t name type ∈ fields) : ReadFrom fields ids (.column t name type)

section Fields

variable {D : Type} {lit : Literals D} {ids ids' : UInt64 → Prop} {c : Component} {t : Table}
  {name : String} {type : DataType} {l r fields fields' items : List Component} {x y row row' : Row D}

theorem IsConstant.isField (h : c.IsConstant) : c.IsField ids := by
  cases c with
  | int | float | str => trivial
  | _ => exact h.elim

theorem IsField.mono (hids : ∀ id, ids id → ids' id) (h : c.IsField ids) : c.IsField ids' := by
  cases c with
  | column t name type => exact hids t.id h
  | int | float | str => trivial
  | _ => exact h.elim

theorem IsField.provided_eq (h : c.IsField ids) : c.provided = [c] := by
  cases c with
  | column | int | float | str => rfl
  | _ => exact h.elim

theorem IsField.not_isColumn (h : c.IsField ids) (ht : ¬ ids t.id) : c.isColumn t name = false := by
  cases c with
  | column t' name' type =>
    rw [isColumn, Bool.and_eq_false_iff, beq_eq_false_iff_ne]
    refine .inl ?_
    rintro rfl
    exact ht h
  | _ => rfl

theorem ReadFrom.isField (h : c.ReadFrom fields ids) : c.IsField ids := by
  cases h with
  | constant h => exact h.isField
  | column hid _ => exact hid

theorem ReadFrom.mono (h : c.ReadFrom fields ids) (hids : ∀ id, ids id → ids' id)
    (hfields : ∀ d ∈ fields, d ∈ fields') : c.ReadFrom fields' ids' := by
  cases h with
  | constant h => exact .constant h
  | column hid h => exact .column (hids _ hid) (hfields _ h)

theorem ReadFrom.ofMem (h : c.ReadFrom fields ids) (hc : c ∈ fields') : c.ReadFrom fields' ids := by
  cases h with
  | constant h => exact .constant h
  | column hid _ => exact .column hid hc

theorem IsConstant.field_eq (h : c.IsConstant) :
    c.field lit fields row = c.field lit fields' row' := by
  cases c with
  | int | float | str => rfl
  | _ => exact h.elim

theorem field_column : (column t name type).field lit fields row =
    ((fields.zip row).find? fun f => f.1.isColumn t name).bind (·.2) := rfl

theorem isColumn_self : (column t name type).isColumn t name = true := by simp [isColumn]

theorem ReadFrom.field_left (h : c.ReadFrom l ids) (hx : x.length = l.length) :
    c.field lit (l ++ r) (x ++ y) = c.field lit l x := by
  cases h with
  | constant h => exact h.field_eq
  | @column t name type _ h =>
    rw [field_column, field_column, List.zip_append hx.symm, List.find?_append]
    have hfound : ((l.zip x).find? fun f => f.1.isColumn t name).isSome = true := by
      have hzip : (l.zip x).map (·.1) = l := List.map_fst_zip (Nat.le_of_eq hx.symm)
      rw [← hzip] at h
      obtain ⟨f, hf, heq⟩ := List.mem_map.1 h
      rw [List.find?_isSome]
      exact ⟨f, hf, by rw [heq]; exact isColumn_self⟩
    obtain ⟨f, hf⟩ := Option.isSome_iff_exists.1 hfound
    rw [hf]
    rfl

theorem ReadFrom.field_right (h : c.ReadFrom r ids) (hl : ∀ d ∈ l, d.IsField ids')
    (hids : ∀ id, ids' id → ¬ ids id) (hx : x.length = l.length) :
    c.field lit (l ++ r) (x ++ y) = c.field lit r y := by
  cases h with
  | constant h => exact h.field_eq
  | @column t name type hid h =>
    rw [field_column, field_column, List.zip_append hx.symm, List.find?_append]
    have hnone : ((l.zip x).find? fun f => f.1.isColumn t name) = none := by
      rw [List.find?_eq_none]
      rintro ⟨d, v⟩ hd
      rw [(hl d (List.of_mem_zip hd).1).not_isColumn fun hid' => hids _ hid' hid]
      exact Bool.false_ne_true
    rw [hnone, Option.none_or]

theorem ReadFrom.field_missing {n : Nat} (h : c.ReadFrom fields ids) (hc : ¬ c.IsConstant) :
    c.field lit fields (List.replicate n none) = none := by
  cases h with
  | constant h => exact absurd h hc
  | column _ _ =>
    rw [field_column, Option.bind_eq_none_iff]
    intro f hf
    exact List.eq_of_mem_replicate (List.of_mem_zip (List.mem_of_find?_eq_some hf)).2

theorem field_items (h : c.ReadFrom items ids) :
    c.field lit items (items.map fun d => d.field lit fields row) = c.field lit fields row := by
  cases h with
  | constant h => exact h.field_eq
  | @column t name type _ h =>
    have hfound : ∃ d, items.find? (fun d => d.isColumn t name) = some d := by
      rw [← Option.isSome_iff_exists, List.find?_isSome]
      exact ⟨_, h, isColumn_self⟩
    obtain ⟨d, hd⟩ := hfound
    have hcolumn := List.find?_some hd
    have hzip : items.zip (items.map fun d => d.field lit fields row) =
        items.map fun d => (d, d.field lit fields row) := by
      simpa using List.zip_map' (f := id) (g := fun d => d.field lit fields row) (l := items)
    rw [field_column, hzip, List.find?_map, Function.comp_def, hd]
    cases d with
    | column t' name' type' =>
      simp only [isColumn, Bool.and_eq_true, beq_iff_eq] at hcolumn
      obtain ⟨rfl, rfl⟩ := hcolumn
      rfl
    | _ => cases hcolumn

end Fields

end Component

section Scopes

open Sql (Expr Constant SelectItem)
open Component (ReadFrom)

variable {D : Type} {lit : Literals D} {ids : UInt64 → Prop} {scope : Scope} {c : Component}
  {fields : List Component} {row : Row D}

def VisibleColumn.label (v : VisibleColumn) : Label := ⟨v.source, v.name⟩

def Scope.readAll (lit : Literals D) (scope : Scope) (fields : List Component) (row : Row D) : Row D :=
  scope.map fun v => v.chain.field lit fields row

theorem lookup_find {column : Sql.ColumnRef} (h : scope.lookup column = .ok c) :
    ∃ v, scope.find? (Scope.isMeant column) = some v ∧ v.chain = c := by
  rw [Scope.lookup] at h
  rw [← List.head?_filter]
  cases hmeant : scope.filter (Scope.isMeant column) with
  | nil =>
    rw [hmeant] at h
    cases h
  | cons v vs =>
    rw [hmeant, List.map_cons, Component.unique_cons] at h
    refine ⟨v, rfl, ?_⟩
    split at h
    · cases h
    · rename_i heq
      cases h
      exact (List.cons.inj heq).1
    · cases h

theorem read_readAll (column : Sql.ColumnRef) :
    Label.read (scope.map VisibleColumn.label) (scope.readAll lit fields row) column =
      (scope.find? (Scope.isMeant column)).bind fun v => v.chain.field lit fields row := by
  have hzip : (scope.map VisibleColumn.label).zip (scope.readAll lit fields row) =
      scope.map fun v => (v.label, v.chain.field lit fields row) := by
    exact List.zip_map'
  rw [Label.read, hzip, List.find?_map]
  cases h : scope.find? (Scope.isMeant column) with
  | none =>
    have : scope.find? ((fun f : Label × Option D => f.1.isMeant column) ∘
        fun v => (v.label, v.chain.field lit fields row)) = none := h
    rw [this]
    rfl
  | some v =>
    have : scope.find? ((fun f : Label × Option D => f.1.isMeant column) ∘
        fun v => (v.label, v.chain.field lit fields row)) = some v := h
    rw [this]
    rfl

theorem value_readFrom (hscope : ∀ v ∈ scope, ReadFrom fields ids v.chain) {e : Expr Constant}
    (h : e.value scope = .ok c) (hcall : e.NoCall) : ReadFrom fields ids c := by
  cases e with
  | column column =>
    obtain ⟨v, hv, rfl⟩ := lookup_ok h
    exact hscope v hv
  | constant v => exact .constant (constantValue_ok h)
  | call => exact hcall.elim
  | _ => cases h

theorem field_value {e : Expr Constant} (h : e.value scope = .ok c) (hcall : e.NoCall) :
    c.field lit fields row =
      e.field lit (scope.map VisibleColumn.label) (scope.readAll lit fields row) := by
  cases e with
  | column column =>
    obtain ⟨v, hv, rfl⟩ := lookup_find h
    rw [Expr.field, read_readAll, hv, Option.bind_some]
  | constant v => cases v <;> cases h <;> rfl
  | call => exact hcall.elim
  | _ => cases h

variable [LinearOrder D]

theorem Component.Compares.selects_eq {p : Component → Prop} (h : c.Compares p) :
    c.selects lit fields row = (c.truth (Component.field lit fields row) == .yes) := by
  cases h <;> rfl

theorem selects_predicate {e : Expr Constant} (h : e.predicate scope false = .ok c)
    (hcall : e.NoCall) : c.selects lit fields row =
      Expr.selects lit (scope.map VisibleColumn.label) (scope.readAll lit fields row) (some e) := by
  have htruth : c.truth (Component.field lit fields row) =
      e.truth (Expr.field lit (scope.map VisibleColumn.label) (scope.readAll lit fields row)) :=
    predicate_truth h fun operand ho d hd => field_value hd (hcall.operand ho)
  rw [(predicate_compares h).selects_eq, htruth]
  rfl

theorem selects_filter {e : Option (Expr Constant)} (h : predicateOrAbsent scope e = .ok c)
    (hcall : ∀ p ∈ e, p.NoCall) : c.selects lit fields row =
      Expr.selects lit (scope.map VisibleColumn.label) (scope.readAll lit fields row) e := by
  cases e with
  | none =>
    cases h
    rfl
  | some e => exact selects_predicate h (hcall e rfl)

end Scopes

end QuerySearch
