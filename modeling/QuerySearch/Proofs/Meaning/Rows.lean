import Mathlib.Data.Multiset.Bind
import Mathlib.Data.Multiset.Dedup
import QuerySearch.Proofs.Component.Statement
import QuerySearch.Proofs.Meaning.Truth

/-! The rows that statements and queries stand for, over tables that are bags of rows.  Groups, sort keys
and calls have no meaning here. -/

namespace QuerySearch

abbrev Row (D : Type) := List (Option D)

/-- The rows of each table, under its name in small letters.  A row has a field for the name of each of
its columns. -/
abbrev Database (D : Type) := String → Multiset (String → Option D)

structure Literals (D : Type) where
  int : Int64 → D
  real : Binary64 → D
  str : String → D

def padded {D : Type} (width : Nat) (row : Option (Row D)) : Row D :=
  row.getD (List.replicate width none)

namespace Sql.JoinKind

def padsLeft : JoinKind → Bool
  | right | full => true
  | _ => false

def padsRight : JoinKind → Bool
  | left | full => true
  | _ => false

section Pairs

variable {α β : Type} (isMatch : α → β → Bool) (xs : Multiset α) (ys : Multiset β)

def matched : Multiset (Option α × Option β) :=
  ((xs ×ˢ ys).filter fun p => isMatch p.1 p.2).map fun p => (some p.1, some p.2)

def leftOnly : Multiset (Option α × Option β) :=
  (xs.filter fun x => ∀ y ∈ ys, isMatch x y = false).map fun x => (some x, none)

def rightOnly : Multiset (Option α × Option β) :=
  (ys.filter fun y => ∀ x ∈ xs, isMatch x y = false).map fun y => (none, some y)

/-- What a join puts side by side: rows that match, and those without a match where they are kept. -/
def pairs : JoinKind → Multiset (Option α × Option β)
  | inner => matched isMatch xs ys
  | left => matched isMatch xs ys + leftOnly isMatch xs ys
  | right => matched isMatch xs ys + rightOnly isMatch xs ys
  | full => matched isMatch xs ys + leftOnly isMatch xs ys + rightOnly isMatch xs ys

end Pairs

def sideBySide {D : Type} (leftWidth rightWidth : Nat) (p : Option (Row D) × Option (Row D)) : Row D :=
  padded leftWidth p.1 ++ padded rightWidth p.2

end Sql.JoinKind

structure Label where
  source : String
  name : String

namespace Label

def isMeant (column : Sql.ColumnRef) (l : Label) : Bool :=
  (column.qualifier.all fun q => q == l.source) && l.name == column.name

def read {D : Type} (header : List Label) (row : Row D) (column : Sql.ColumnRef) : Option D :=
  ((header.zip row).find? fun f => f.1.isMeant column).bind (·.2)

def ofItem (header : List Label) (s : Sql.SelectItem Sql.Constant) : Label where
  name := s.outputName
  source :=
    match s with
    | .expr (.column ⟨some q, _⟩) _ => q
    | .expr (.column ⟨none, name⟩) _ => ((header.find? fun l => l.name == name).map (·.source)).getD ""
    | _ => ""

end Label

structure Labelled (D : Type) where
  header : List Label
  rows : Multiset (Row D)

section Meaning

variable {D : Type} [LinearOrder D] (lit : Literals D) (db : Database D)

namespace Sql

open Sql (Expr Constant SelectItem TableRef Select)

def Expr.field (header : List Label) (row : Row D) : Expr Constant → Option D
  | .column c => Label.read header row c
  | .constant (.int v) => some (lit.int v)
  | .constant (.real v) => some (lit.real v)
  | .constant (.str s) => some (lit.str s)
  | _ => none

def SelectItem.field (header : List Label) (row : Row D) : SelectItem Constant → Option D
  | .expr e _ => e.field lit header row
  | .star => none

def Expr.selects (header : List Label) (row : Row D) (condition : Option (Expr Constant)) : Bool :=
  condition.all fun e => e.truth (Expr.field lit header row) == .yes

variable (schema : Schema)

mutual

def Select.labelled : Select Constant → Labelled D
  | ⟨isDistinct, items, sources, filter, _, _, _⟩ =>
    let source := TableRef.labelledOnly sources
    let kept := source.rows.filter fun row => Expr.selects lit source.header row filter
    let rows := kept.map fun row => items.map (SelectItem.field lit source.header row)
    ⟨items.map (Label.ofItem source.header), if isDistinct then rows.dedup else rows⟩

def TableRef.labelledOnly : List (TableRef Constant) → Labelled D
  | [t] => t.labelled
  | _ => ⟨[], 0⟩

def TableRef.labelled : TableRef Constant → Labelled D
  | .table name asName =>
    match schema.table? name with
    | none => ⟨[], 0⟩
    | some t =>
      let tableName := Text.lowercase t.name
      ⟨t.columns.map fun c => ⟨asName.getD tableName, c.1⟩,
        (db tableName).map fun row => t.columns.map fun c => row c.1⟩
  | .query q asName =>
    let inner := q.labelled
    ⟨match asName with
      | some a => inner.header.map fun l => ⟨a, l.name⟩
      | none => inner.header, inner.rows⟩
  | .join l r kind on =>
    let left := l.labelled
    let right := r.labelled
    let header := left.header ++ right.header
    ⟨header, (kind.pairs (fun x y => Expr.selects lit header (x ++ y) on) left.rows right.rows).map
      (JoinKind.sideBySide left.header.length right.header.length)⟩

end

end Sql

namespace Component

def isColumn (t : Table) (name : String) : Component → Bool
  | .column t' name' _ => t' == t && name' == name
  | _ => false

/-- The value of a chain in a row with a field for each of the chains `fields`. -/
def field (fields : List Component) (row : Row D) : Component → Option D
  | .column t name _ => ((fields.zip row).find? fun f => f.1.isColumn t name).bind (·.2)
  | .int v => some (lit.int v)
  | .float v => some (lit.real v)
  | .str s => some (lit.str s)
  | _ => none

def selects (fields : List Component) (row : Row D) : Component → Bool
  | .absent => true
  | c => c.truth (field lit fields row) == .yes

mutual

/-- The rows of a source, with a field for each chain it provides. -/
def sourceRows : Component → Multiset (Row D)
  | .tableSource (.table t) _ => (db t.name).map fun row => t.columns.map fun c => row c.1
  | .querySource q _ => q.queryRows
  | .join l r type on =>
    (type.joinKind.pairs (fun x y => on.selects lit (l.provided ++ r.provided) (x ++ y)) l.sourceRows
      r.sourceRows).map (Sql.JoinKind.sideBySide l.provided.length r.provided.length)
  | _ => 0

def queryRows : Component → Multiset (Row D)
  | .query (.select items) source filter _ _ _ isDistinct =>
    let kept := source.sourceRows.filter fun row => filter.selects lit source.provided row
    let rows := kept.map fun row => items.map (field lit source.provided row)
    if isDistinct then rows.dedup else rows
  | _ => 0

end

end Component

end Meaning

section Pairs

namespace Sql.JoinKind

variable {α β α' β' : Type} {isMatch : α → β → Bool} {isMatch' : α' → β' → Bool} {f : α' → α} {g : β' → β}
  {xs : Multiset α} {ys : Multiset β} {xs' : Multiset α'} {ys' : Multiset β'}

theorem matched_map (h : ∀ x ∈ xs', ∀ y ∈ ys', isMatch (f x) (g y) = isMatch' x y) :
    matched isMatch (xs'.map f) (ys'.map g) =
      (matched isMatch' xs' ys').map (Prod.map (Option.map f) (Option.map g)) := by
  have hproduct : xs'.map f ×ˢ ys'.map g = (xs' ×ˢ ys').map (Prod.map f g) := by
    simp [SProd.sprod, Multiset.product, Multiset.bind_map, Multiset.map_bind, Multiset.map_map]
  rw [matched, matched, hproduct, Multiset.filter_map, Multiset.map_map, Multiset.map_map]
  refine congrArg _ (Multiset.filter_congr fun p hp => ?_)
  obtain ⟨hx, hy⟩ := Multiset.mem_product.1 hp
  rw [Function.comp_apply, Prod.map_fst, Prod.map_snd, h p.1 hx p.2 hy]

theorem leftOnly_map (h : ∀ x ∈ xs', ∀ y ∈ ys', isMatch (f x) (g y) = isMatch' x y) :
    leftOnly isMatch (xs'.map f) (ys'.map g) =
      (leftOnly isMatch' xs' ys').map (Prod.map (Option.map f) (Option.map g)) := by
  rw [leftOnly, leftOnly, Multiset.filter_map, Multiset.map_map, Multiset.map_map]
  refine congrArg _ (Multiset.filter_congr fun x hx => ?_)
  simp only [Function.comp_apply, Multiset.mem_map, forall_exists_index, and_imp,
    forall_apply_eq_imp_iff₂]
  exact forall₂_congr fun y hy => by rw [h x hx y hy]

theorem rightOnly_map (h : ∀ x ∈ xs', ∀ y ∈ ys', isMatch (f x) (g y) = isMatch' x y) :
    rightOnly isMatch (xs'.map f) (ys'.map g) =
      (rightOnly isMatch' xs' ys').map (Prod.map (Option.map f) (Option.map g)) := by
  rw [rightOnly, rightOnly, Multiset.filter_map, Multiset.map_map, Multiset.map_map]
  refine congrArg _ (Multiset.filter_congr fun y hy => ?_)
  simp only [Function.comp_apply, Multiset.mem_map, forall_exists_index, and_imp,
    forall_apply_eq_imp_iff₂]
  exact forall₂_congr fun x hx => by rw [h x hx y hy]

theorem pairs_map (kind : JoinKind)
    (h : ∀ x ∈ xs', ∀ y ∈ ys', isMatch (f x) (g y) = isMatch' x y) :
    pairs isMatch (xs'.map f) (ys'.map g) kind =
      (pairs isMatch' xs' ys' kind).map (Prod.map (Option.map f) (Option.map g)) := by
  cases kind <;>
    simp only [pairs, Multiset.map_add, matched_map h, leftOnly_map h, rightOnly_map h]

theorem pairs_right : pairs isMatch xs ys right = (pairs (flip isMatch) ys xs left).map Prod.swap := by
  have hmatched : matched isMatch xs ys = (matched (flip isMatch) ys xs).map Prod.swap := by
    rw [matched, matched, ← Multiset.map_swap_product, Multiset.filter_map, Multiset.map_map,
      Multiset.map_map]
    rfl
  have honly : rightOnly isMatch xs ys = (leftOnly (flip isMatch) ys xs).map Prod.swap := by
    rw [rightOnly, leftOnly, Multiset.map_map]
    rfl
  rw [pairs, pairs, Multiset.map_add, hmatched, honly]

theorem mem_pairs {kind : JoinKind} {p : Option α × Option β} (h : p ∈ pairs isMatch xs ys kind) :
    (∀ x ∈ p.1, x ∈ xs) ∧ (∀ y ∈ p.2, y ∈ ys) ∧ (p.1 = none → kind.padsLeft = true) ∧
      (p.2 = none → kind.padsRight = true) := by
  have hmatched : p ∈ matched isMatch xs ys → ∃ x ∈ xs, ∃ y ∈ ys, p = (some x, some y) := by
    intro h
    obtain ⟨q, hq, rfl⟩ := Multiset.mem_map.1 h
    obtain ⟨hx, hy⟩ := Multiset.mem_product.1 (Multiset.mem_of_mem_filter hq)
    exact ⟨q.1, hx, q.2, hy, rfl⟩
  have hleft : p ∈ leftOnly isMatch xs ys → ∃ x ∈ xs, p = (some x, none) := by
    intro h
    obtain ⟨x, hx, rfl⟩ := Multiset.mem_map.1 h
    exact ⟨x, Multiset.mem_of_mem_filter hx, rfl⟩
  have hright : p ∈ rightOnly isMatch xs ys → ∃ y ∈ ys, p = (none, some y) := by
    intro h
    obtain ⟨y, hy, rfl⟩ := Multiset.mem_map.1 h
    exact ⟨y, Multiset.mem_of_mem_filter hy, rfl⟩
  have hcases : (∃ x ∈ xs, ∃ y ∈ ys, p = (some x, some y)) ∨
      (kind.padsRight = true ∧ ∃ x ∈ xs, p = (some x, none)) ∨
        (kind.padsLeft = true ∧ ∃ y ∈ ys, p = (none, some y)) := by
    cases kind with
    | inner => exact .inl (hmatched h)
    | left =>
      cases Multiset.mem_add.1 h with
      | inl h => exact .inl (hmatched h)
      | inr h => exact .inr (.inl ⟨rfl, hleft h⟩)
    | right =>
      cases Multiset.mem_add.1 h with
      | inl h => exact .inl (hmatched h)
      | inr h => exact .inr (.inr ⟨rfl, hright h⟩)
    | full =>
      cases Multiset.mem_add.1 h with
      | inl h =>
        cases Multiset.mem_add.1 h with
        | inl h => exact .inl (hmatched h)
        | inr h => exact .inr (.inl ⟨rfl, hleft h⟩)
      | inr h => exact .inr (.inr ⟨rfl, hright h⟩)
  obtain ⟨x, hx, y, hy, rfl⟩ | ⟨hpads, x, hx, rfl⟩ | ⟨hpads, y, hy, rfl⟩ := hcases
  · simp [hx, hy]
  · simp [hx, hpads]
  · simp [hy, hpads]

end Sql.JoinKind

end Pairs

end QuerySearch
