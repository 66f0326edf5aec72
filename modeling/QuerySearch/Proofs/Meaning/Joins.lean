import QuerySearch.Proofs.Meaning.Agreement

/-! Joins have the rows that they have in a statement, also where their sides change places.  What is
visible on a side that may be missing must not be a literal. -/

namespace QuerySearch

open Sql (Constant)
open Component (ReadFrom)

variable {D : Type} {lit : Literals D} {ids ids' : UInt64 → Prop}

section Joins

variable {l r c on : Component} {leftScope rightScope scope : Scope} {fields left right : List Component}
  {x y : Row D} {labelledLeft labelledRight : Labelled D} {leftBag rightBag : Multiset (Row D)}

theorem readAll_append : (leftScope ++ rightScope).readAll lit fields x =
    leftScope.readAll lit fields x ++ rightScope.readAll lit fields x :=
  List.map_append

theorem readAll_left (h : ∀ v ∈ scope, ReadFrom left ids v.chain) (hx : x.length = left.length) :
    scope.readAll lit (left ++ right) (x ++ y) = scope.readAll lit left x :=
  List.map_congr_left fun v hv => (h v hv).field_left hx

theorem readAll_right (h : ∀ v ∈ scope, ReadFrom right ids v.chain) (hleft : ∀ d ∈ left, d.IsField ids')
    (hids : ∀ id, ids' id → ¬ ids id) (hx : x.length = left.length) :
    scope.readAll lit (left ++ right) (x ++ y) = scope.readAll lit right y :=
  List.map_congr_left fun v hv => (h v hv).field_right hleft hids hx

theorem readAll_missing {n : Nat} (h : ∀ v ∈ scope, ReadFrom fields ids v.chain)
    (hliteral : ∀ v ∈ scope, ¬ v.chain.IsConstant) :
    scope.readAll lit fields (List.replicate n none) = List.replicate scope.length none := by
  rw [List.eq_replicate_iff]
  refine ⟨width_readAll, fun f hf => ?_⟩
  obtain ⟨v, hv, rfl⟩ := List.mem_map.1 hf
  exact (h v hv).field_missing (hliteral v hv)

theorem length_padded {width : Nat} {row : Option (Row D)} (h : ∀ x ∈ row, x.length = width) :
    (padded width row).length = width := by
  cases row with
  | none => exact List.length_replicate
  | some x => exact h x rfl

theorem padded_readAll {row : Option (Row D)} (h : ∀ v ∈ scope, ReadFrom fields ids v.chain)
    (hliteral : row = none → ∀ v ∈ scope, ¬ v.chain.IsConstant) :
    padded scope.length (row.map (scope.readAll lit fields)) =
      scope.readAll lit fields (padded fields.length row) := by
  cases row with
  | none => exact (readAll_missing h (hliteral rfl)).symm
  | some x => rfl

structure Sides (lit : Literals D) (ids ids' : UInt64 → Prop) (labelledLeft labelledRight : Labelled D)
    (l r : Component) (leftBag rightBag : Multiset (Row D)) (leftScope rightScope : Scope) : Prop where
  left : Agrees lit ids labelledLeft l leftBag leftScope
  right : Agrees lit ids' labelledRight r rightBag rightScope
  apart : ∀ id, ids id → ¬ ids' id

structure Together (lit : Literals D) (l r c : Component) (leftScope rightScope : Scope)
    (combine : Row D → Row D → Row D) : Prop where
  provided : ∀ d, d ∈ c.provided ↔ d ∈ l.provided ∨ d ∈ r.provided
  width : ∀ x y, x.length = l.provided.length → y.length = r.provided.length →
    (combine x y).length = c.provided.length
  read : ∀ x y, x.length = l.provided.length → y.length = r.provided.length →
    (leftScope ++ rightScope).readAll lit c.provided (combine x y) =
      leftScope.readAll lit l.provided x ++ rightScope.readAll lit r.provided y

section Sides

variable (h : Sides lit ids ids' labelledLeft labelledRight l r leftBag rightBag leftScope rightScope)
include h

theorem Sides.together {type : JoinType} :
    Together lit l r (.join l r type on) leftScope rightScope fun x y => x ++ y where
  provided d := by rw [Component.provided, List.mem_append]
  width x y hx hy := by rw [Component.provided, List.length_append, List.length_append, hx, hy]
  read x y hx hy := by
    rw [Component.provided, readAll_append, readAll_left h.left.visible hx,
      readAll_right h.right.visible h.left.provided h.apart hx]

theorem Sides.together_swapped {type : JoinType} :
    Together lit l r (.join r l type on) leftScope rightScope fun x y => y ++ x where
  provided d := by rw [Component.provided, List.mem_append, or_comm]
  width x y hx hy := by rw [Component.provided, List.length_append, List.length_append, hx, hy]
  read x y hx hy := by
    rw [Component.provided, readAll_append, readAll_left h.right.visible hy,
      readAll_right h.left.visible h.right.provided (fun id h₁ h₂ => h.apart id h₂ h₁) hy]

variable [LinearOrder D] {db : Database D} {e : Sql.Expr Constant} {combine : Row D → Row D → Row D}
  (hc : Together lit l r c leftScope rightScope combine)
include hc

theorem Sides.match_eq (hon : e.predicate (leftScope ++ rightScope) false = .ok on)
    (hcall : e.NoCall) : ∀ x ∈ leftBag, ∀ y ∈ rightBag,
      Sql.Expr.selects lit (labelledLeft.header ++ labelledRight.header)
        (leftScope.readAll lit l.provided x ++ rightScope.readAll lit r.provided y) (some e) =
        on.selects lit c.provided (combine x y) := by
  intro x hx y hy
  rw [selects_predicate hon hcall, hc.read x y (h.left.width x hx) (h.right.width y hy), List.map_append,
    h.left.header, h.right.header]

theorem Sides.agrees {kind : Sql.JoinKind}
    (hon : e.predicate (leftScope ++ rightScope) false = .ok on) (hcall : e.NoCall)
    (hleft : kind.padsLeft = true → ∀ v ∈ leftScope, ¬ v.chain.IsConstant)
    (hright : kind.padsRight = true → ∀ v ∈ rightScope, ¬ v.chain.IsConstant) :
    Agrees lit (fun id => ids id ∨ ids' id)
      ⟨labelledLeft.header ++ labelledRight.header,
        (kind.pairs (fun x y => Sql.Expr.selects lit (labelledLeft.header ++ labelledRight.header)
          (x ++ y) (some e)) labelledLeft.rows labelledRight.rows).map
            (Sql.JoinKind.sideBySide labelledLeft.header.length labelledRight.header.length)⟩ c
      ((kind.pairs (fun x y => on.selects lit c.provided (combine x y)) leftBag rightBag).map fun p =>
        combine (padded l.provided.length p.1) (padded r.provided.length p.2))
      (leftScope ++ rightScope) where
  header := by rw [h.left.header, h.right.header, List.map_append]
  rows := by
    dsimp only
    rw [h.left.rows, h.right.rows, Sql.JoinKind.pairs_map kind (h.match_eq hc hon hcall),
      Multiset.map_map, Multiset.map_map]
    refine Multiset.map_congr rfl fun p hp => ?_
    obtain ⟨hx, hy, hmissing, hmissing'⟩ := Sql.JoinKind.mem_pairs hp
    have hp1 : (padded l.provided.length p.1).length = l.provided.length :=
      length_padded fun x h' => h.left.width x (hx x h')
    have hp2 : (padded r.provided.length p.2).length = r.provided.length :=
      length_padded fun y h' => h.right.width y (hy y h')
    rw [Function.comp_apply, Function.comp_apply, hc.read _ _ hp1 hp2, Sql.JoinKind.sideBySide,
      h.left.header, h.right.header, List.length_map, List.length_map]
    exact congrArg₂ _ (padded_readAll h.left.visible fun hnone => hleft (hmissing hnone))
      (padded_readAll h.right.visible fun hnone => hright (hmissing' hnone))
  width row hrow := by
    obtain ⟨p, hp, rfl⟩ := Multiset.mem_map.1 hrow
    obtain ⟨hx, hy, _, _⟩ := Sql.JoinKind.mem_pairs hp
    exact hc.width _ _ (length_padded fun x h' => h.left.width x (hx x h'))
      (length_padded fun y h' => h.right.width y (hy y h'))
  visible v hv := by
    cases List.mem_append.1 hv with
    | inl hv =>
      exact (h.left.visible v hv).mono (fun _ => .inl) fun d hd => (hc.provided d).2 (.inl hd)
    | inr hv =>
      exact (h.right.visible v hv).mono (fun _ => .inr) fun d hd => (hc.provided d).2 (.inr hd)
  provided d hd := by
    cases (hc.provided d).1 hd with
    | inl hd => exact (h.left.provided d hd).mono fun _ => .inl
    | inr hd => exact (h.right.provided d hd).mono fun _ => .inr

end Sides

variable [LinearOrder D] {db : Database D} {e : Sql.Expr Constant}

theorem joined_agrees {kind : Sql.JoinKind}
    (h : Sides lit ids ids' labelledLeft labelledRight l r (l.sourceRows lit db) (r.sourceRows lit db)
      leftScope rightScope)
    (hon : e.predicate (leftScope ++ rightScope) false = .ok on) (hcall : e.NoCall)
    (hleft : kind.padsLeft = true → ∀ v ∈ leftScope, ¬ v.chain.IsConstant)
    (hright : kind.padsRight = true → ∀ v ∈ rightScope, ¬ v.chain.IsConstant) :
    Agrees lit (fun id => ids id ∨ ids' id)
      ⟨labelledLeft.header ++ labelledRight.header,
        (kind.pairs (fun x y => Sql.Expr.selects lit (labelledLeft.header ++ labelledRight.header)
          (x ++ y) (some e)) labelledLeft.rows labelledRight.rows).map
            (Sql.JoinKind.sideBySide labelledLeft.header.length labelledRight.header.length)⟩
      (joined l r on kind) ((joined l r on kind).sourceRows lit db) (leftScope ++ rightScope) := by
  cases kind with
  | right =>
    have hrows : (joined l r on .right).sourceRows lit db =
        (Sql.JoinKind.right.pairs
          (fun x y => on.selects lit (Component.join r l .left on).provided (y ++ x))
          (l.sourceRows lit db) (r.sourceRows lit db)).map fun p =>
            padded r.provided.length p.2 ++ padded l.provided.length p.1 := by
      rw [joined, Component.sourceRows, Sql.JoinKind.pairs_right, Multiset.map_map, Component.provided]
      rfl
    rw [hrows]
    exact h.agrees h.together_swapped hon hcall hleft hright
  | _ =>
    rw [joined, Component.sourceRows]
    exact h.agrees h.together hon hcall hleft hright

end Joins

end QuerySearch
