import Mathlib.Data.List.Pairwise
import Mathlib.Tactic.Tauto
import QuerySearch.Proofs.Component.Supply

/-! Chains that lead back to the columns of some tables, and the values and predicates over them. -/

namespace QuerySearch.Component

def RootedIn (ids : UInt64 → Prop) : Component → Prop
  | .column t _ _ => ids t.id
  | .aggChain _ arg => arg.RootedIn ids
  | _ => False

def IsConstant : Component → Prop
  | .int _ | .float _ | .str _ => True
  | _ => False

structure Visible (source : Component) (ids : UInt64 → Prop) (c : Component) : Prop where
  isProvided : c.fingerprint ∈ source.providedKeys
  isRooted : c.RootedIn ids ∨ c.IsConstant

/-- What a value of a statement comes to, if it has no window. -/
inductive ValueOver (p : Component → Prop) : Component → Prop
  | chain {c : Component} (h : p c) : ValueOver p c
  | constant {c : Component} (h : c.IsConstant) : ValueOver p c
  | aggregation {func : AggFunc} {arg : Component} {isDistinct : Bool} (h : p arg)
    (hkind : arg.kind.isReferencable = true) : ValueOver p (.aggregation func arg isDistinct)

inductive PredicateOver (p : Component → Prop) : Component → Prop
  | comparison {l r : Component} {op : CompareOp} (hl : ValueOver p l) (hr : ValueOver p r) :
    PredicateOver p (.comparison l op r)
  | connection {l r : Component} {op : LogicOp} (hl : PredicateOver p l) (hr : PredicateOver p r) :
    PredicateOver p (.connection l op r)

section Chains

variable {ids ids' : UInt64 → Prop} {source source' c d : Component}

theorem RootedIn.mono (hids : ∀ id, ids id → ids' id) : {c : Component} → c.RootedIn ids →
    c.RootedIn ids'
  | .column t _ _, h => hids t.id h
  | .aggChain _ arg, h => RootedIn.mono hids (c := arg) h

theorem RootedIn.referencable (h : c.RootedIn ids) : c.kind.isReferencable = true := by
  cases c with
  | column t name type =>
    rw [kind, fingerprint_column]
    rfl
  | aggChain func arg =>
    rw [kind, fingerprint_aggChain]
    rfl
  | _ => exact h.elim

theorem IsConstant.not_referencable (h : c.IsConstant) : c.kind.isReferencable ≠ true := by
  cases c with
  | int | float | str =>
    rw [kind, fingerprint_eq]
    exact nofun
  | _ => exact h.elim

theorem RootedIn.provided_eq (h : c.RootedIn ids) : c.provided = [c] := by
  cases c with
  | column | aggChain => rfl
  | _ => exact h.elim

theorem RootedIn.sourceless : {c : Component} → c.RootedIn ids → c.Sourceless
  | .column .., _ => trivial
  | .aggChain _ arg, h => RootedIn.sourceless (c := arg) h

theorem RootedIn.suppliedBy (h : c.RootedIn ids) (hc : c.fingerprint ∈ source.providedKeys) :
    SuppliedBy source c := by
  cases c with
  | column t name type =>
    rw [fingerprint_column] at hc
    intro k hk
    rw [requiredKeys, List.mem_singleton] at hk
    subst hk
    exact hc
  | aggChain func arg =>
    rw [fingerprint_aggChain] at hc
    intro k hk
    rw [requiredKeys, List.mem_singleton] at hk
    subst hk
    exact hc
  | _ => exact h.elim

theorem IsConstant.provided_eq (h : c.IsConstant) : c.provided = [c] := by
  cases c with
  | int | float | str => rfl
  | _ => exact h.elim

theorem IsConstant.sourceless (h : c.IsConstant) : c.Sourceless := by
  cases c with
  | int | float | str => trivial
  | _ => exact h.elim

theorem IsConstant.suppliedBy (h : c.IsConstant) : SuppliedBy source c := by
  cases c with
  | int | float | str => simp [SuppliedBy, requiredKeys]
  | _ => exact h.elim

theorem Visible.rooted (h : Visible source ids c) (hc : c.kind.isReferencable = true) :
    c.RootedIn ids := by
  cases h.isRooted with
  | inl h => exact h
  | inr h => exact absurd hc h.not_referencable

theorem Visible.mono (h : Visible source ids c) (hids : ∀ id, ids id → ids' id)
    (hkeys : ∀ k ∈ source.providedKeys, k ∈ source'.providedKeys) : Visible source' ids' c :=
  ⟨hkeys _ h.isProvided, h.isRooted.imp_left (RootedIn.mono hids)⟩

theorem Visible.provided_eq (h : Visible source ids c) : c.provided = [c] :=
  h.isRooted.elim RootedIn.provided_eq IsConstant.provided_eq

theorem Visible.suppliedBy (h : Visible source ids c) : SuppliedBy source c :=
  h.isRooted.elim (fun hc => hc.suppliedBy h.isProvided) IsConstant.suppliedBy

theorem Visible.sourceless (h : Visible source ids c) : c.Sourceless :=
  h.isRooted.elim RootedIn.sourceless IsConstant.sourceless

end Chains

def chainFields : Component → List Fingerprint.Field
  | .column t name _ => [.text t.name, .word t.id, .text name]
  | .aggChain func arg => [.tag func.ctorIdx, .component arg.fingerprint]
  | .windowChain func arg => [.tag func.ctorIdx, .component arg.fingerprint]
  | _ => []

/-- Where two of the components have one fingerprint, the same fields were hashed for them. -/
def NoCollision (cs : List Component) : Prop :=
  ∀ c ∈ cs, ∀ d ∈ cs, c.fingerprint = d.fingerprint → c.chainFields = d.chainFields

section Collisions

theorem kind_isReferencable_iff (c : Component) : c.kind.isReferencable = true ↔ c.chainFields ≠ [] := by
  rw [kind, fingerprint_eq]
  cases c <;> simp [chainFields, partsFingerprint] <;> rfl

theorem noCollision_of_pairwise {cs chains : List Component}
    (hcs : ∀ c ∈ cs, c.chainFields = [] ∨ c ∈ chains)
    (h : chains.Pairwise fun c d => c.fingerprint ≠ d.fingerprint) : NoCollision cs := by
  intro c hc d hd heq
  have hfields : c.chainFields = [] ↔ d.chainFields = [] := by
    have hkind : c.kind = d.kind := congrArg Fingerprint.kind heq
    rw [← not_iff_not, ← Ne, ← Ne, ← kind_isReferencable_iff, ← kind_isReferencable_iff, hkind]
  cases hcs c hc with
  | inl hc => rw [hc, hfields.1 hc]
  | inr hc =>
    cases hcs d hd with
    | inl hd => rw [hd, hfields.2 hd]
    | inr hd =>
      by_contra hne
      have hcd : c ≠ d := by
        rintro rfl
        exact hne rfl
      have : Std.Symm fun c d : Component => c.fingerprint ≠ d.fingerprint := ⟨fun _ _ h => h.symm⟩
      exact h.forall hc hd hcd heq

variable {ids ids' : UInt64 → Prop} {cs : List Component}

theorem RootedIn.common (hcs : NoCollision cs) : {c d : Component} → c.RootedIn ids →
    d.RootedIn ids' → (∀ e ∈ c.reach false, e ∈ cs) → (∀ e ∈ d.reach false, e ∈ cs) →
    c.fingerprint = d.fingerprint → ∃ id, ids id ∧ ids' id
  | .column t name type, .column t' name' type', hc, hd, hreach, hreach', heq => by
    have hfields := hcs _ (hreach _ (.head _)) _ (hreach' _ (.head _)) heq
    simp only [chainFields, List.cons.injEq, Fingerprint.Field.word.injEq] at hfields
    refine ⟨t.id, hc, ?_⟩
    rw [hfields.2.1]
    exact hd
  | .aggChain func arg, .aggChain func' arg', hc, hd, hreach, hreach', heq => by
    have hfields := hcs _ (hreach _ (.head _)) _ (hreach' _ (.head _)) heq
    simp only [chainFields, List.cons.injEq, Fingerprint.Field.component.injEq] at hfields
    exact RootedIn.common hcs (c := arg) (d := arg') hc hd (fun e he => hreach e (.tail _ (.tail _ he)))
      (fun e he => hreach' e (.tail _ (.tail _ he))) hfields.2.1
  | .column t name type, .aggChain func arg, _, _, _, _, heq => by
    have hkind := congrArg Fingerprint.kind heq
    rw [fingerprint_column, fingerprint_aggChain] at hkind
    cases hkind
  | .aggChain func arg, .column t name type, _, _, _, _, heq => by
    have hkind := congrArg Fingerprint.kind heq
    rw [fingerprint_column, fingerprint_aggChain] at hkind
    cases hkind

end Collisions

section Values

variable {ids : UInt64 → Prop} {source c k : Component}

theorem requiredKeys_aggregation {func : AggFunc} {arg : Component} {isDistinct : Bool} :
    (aggregation func arg isDistinct).requiredKeys = (arg.provided.map fingerprint).take 1 := by
  rw [requiredKeys, providedKeys_eq]

theorem ValueOver.suppliedBy (h : ValueOver (Visible source ids) c) : SuppliedBy source c := by
  cases h with
  | chain h => exact h.suppliedBy
  | constant h => exact h.suppliedBy
  | aggregation h =>
    rw [SuppliedBy, requiredKeys_aggregation, h.provided_eq]
    simpa using h.isProvided

theorem ValueOver.sourceless (h : ValueOver (Visible source ids) c) : c.Sourceless := by
  cases h with
  | chain h => exact h.sourceless
  | constant h => exact h.sourceless
  | aggregation h => exact h.sourceless

theorem ValueOver.visible (h : ValueOver (Visible source ids) c)
    (hkind : c.kind.isReferencable = true) : Visible source ids c := by
  cases h with
  | chain h => exact h
  | constant h => exact absurd hkind h.not_referencable
  | aggregation h =>
    rw [kind, fingerprint_eq] at hkind
    cases hkind

theorem ValueOver.provided (h : ValueOver (Visible source ids) c) (hk : k ∈ c.provided) :
    (k.RootedIn ids ∨ k.IsConstant) ∧ ∀ d ∈ k.reach false, d ∈ c.reach false := by
  cases h with
  | chain h =>
    rw [h.provided_eq, List.mem_singleton] at hk
    subst hk
    exact ⟨h.isRooted, fun _ => id⟩
  | constant h =>
    rw [h.provided_eq, List.mem_singleton] at hk
    subst hk
    exact ⟨.inr h, fun _ => id⟩
  | @aggregation func arg isDistinct h hkind =>
    rw [Component.provided, h.provided_eq] at hk
    cases List.mem_singleton.1 hk
    refine ⟨.inl (h.rooted hkind), fun d hd => ?_⟩
    simp only [reach, List.mem_cons, Bool.false_eq_true, if_false, List.mem_append] at hd ⊢
    tauto

theorem ValueOver.aggregate_or_provided (h : ValueOver (Visible source ids) c) (hk : k ∈ c.provided)
    (hkind : k.kind.isReferencable = true) :
    (∃ func arg, k = .aggChain func arg) ∨ k.fingerprint ∈ source.providedKeys := by
  cases h with
  | chain h =>
    rw [h.provided_eq, List.mem_singleton] at hk
    subst hk
    exact .inr h.isProvided
  | constant h =>
    rw [h.provided_eq, List.mem_singleton] at hk
    subst hk
    exact absurd hkind h.not_referencable
  | @aggregation func arg isDistinct h =>
    rw [Component.provided, h.provided_eq] at hk
    cases List.mem_singleton.1 hk
    exact .inl ⟨func, arg, rfl⟩

theorem PredicateOver.suppliedBy (h : PredicateOver (Visible source ids) c) : SuppliedBy source c := by
  induction h with
  | comparison hl hr => exact suppliedBy_comparison hl.suppliedBy hr.suppliedBy
  | connection _ _ ihl ihr => exact suppliedBy_connection ihl ihr

theorem PredicateOver.sourceless (h : PredicateOver (Visible source ids) c) : c.Sourceless := by
  induction h with
  | comparison hl hr => exact ⟨hl.sourceless, hr.sourceless⟩
  | connection _ _ ihl ihr => exact ⟨ihl, ihr⟩

end Values

end QuerySearch.Component
