import QuerySearch.Proofs.Outcomes
import QuerySearch.Proofs.Resolve.Chains
import QuerySearch.Resolve.Query

/-! What values, predicates and keys of a statement without windows come to. -/

namespace QuerySearch

namespace Sql

mutual

def Expr.NoOver {α : Type} : Expr α → Prop
  | .compare l _ r => l.NoOver ∧ r.NoOver
  | .logic l _ r => l.NoOver ∧ r.NoOver
  | .not e => e.NoOver
  | .isNull e _ => e.NoOver
  | .call _ _ _ args window => Expr.NoOverEach args ∧ window = none
  | _ => True

def Expr.NoOverEach {α : Type} : List (Expr α) → Prop
  | [] => True
  | e :: es => e.NoOver ∧ Expr.NoOverEach es

end

def SelectItem.NoOver {α : Type} : SelectItem α → Prop
  | .star => True
  | .expr e _ => e.NoOver

def SelectItem.isCall {α : Type} : SelectItem α → Bool
  | .expr (.call ..) _ => true
  | _ => false

def SelectItem.isNamed (c : ColumnRef) : SelectItem Constant → Bool
  | .expr _ (some a) => c.qualifier.isNone && a == c.name
  | _ => false

def Expr.itemPlace (scope : Scope) (select : List (SelectItem Constant)) : Expr Constant → Option Nat
  | .constant (.int n) => if 0 < n.toInt then some (n.toInt.toNat - 1) else none
  | .column c =>
    match scope.lookup c with
    | .error (.missing _) => select.findIdx? (SelectItem.isNamed c)
    | _ => none
  | _ => none

def Expr.DenotesAggregate (scope : Scope) (select : List (SelectItem Constant)) (key : Expr Constant) :
    Prop :=
  (SelectItem.expr key none).isCall = true ∨
    ∃ i item, key.itemPlace scope select = some i ∧ select[i]? = some item ∧ item.isCall = true

end Sql

open Sql (Expr Constant SelectItem)

section Values

variable {scope : Scope} {p : Component → Prop} {c : Component}

theorem lookup_ok {column : Sql.ColumnRef} (h : scope.lookup column = .ok c) :
    ∃ v ∈ scope, v.chain = c := by
  rw [Scope.lookup] at h
  split at h
  · cases h
  · rename_i chain hchains
    cases h
    have hmem : c ∈ (scope.filter (Scope.isMeant column)).map (·.chain) := by
      apply Component.mem_of_mem_unique
      rw [hchains]
      exact .head _
    obtain ⟨v, hv, hchain⟩ := List.mem_map.1 hmem
    exact ⟨v, List.mem_of_mem_filter hv, hchain⟩
  · cases h

theorem outputChain_ok {item : Component} (h : outputChain item = .ok c) : c ∈ item.provided := by
  rw [outputChain] at h
  split at h
  · rename_i chain chains heq
    cases h
    simp [heq]
  · cases h

theorem referencable_ok {d : Component} (h : referencable c = .ok d) :
    c = d ∧ c.kind.isReferencable = true := by
  rw [referencable] at h
  split at h
  · cases h
    exact ⟨rfl, ‹_›⟩
  · cases h

theorem referencable_rooted (h : c.RootedIn fun _ => True) : referencable c = .ok c := by
  rw [referencable, if_pos h.referencable]

theorem constantValue_ok {v : Constant} (h : constantValue v = .ok c) : c.IsConstant := by
  cases v <;> cases h <;> trivial

theorem callValue_ok {name : String} {isDistinct star : Bool} {args : List (Except ResolveError Component)}
    (h : callValue name isDistinct star args none = .ok c) :
    ∃ func arg, args = [.ok arg] ∧ arg.kind.isReferencable = true ∧
      c = .aggregation func arg isDistinct := by
  rw [callValue] at h
  split at h
  · cases h
  split at h
  · cases h
  split at h
  · cases h
  split at h
  · rename_i func _ _ arg
    obtain ⟨chain, harg, h⟩ := ok_of_bind h
    obtain ⟨arg', href, h⟩ := ok_of_bind h
    obtain ⟨heq, hkind⟩ := referencable_ok href
    subst heq
    cases h
    exact ⟨func, chain, by rw [harg], hkind, rfl⟩
  · cases h

end Values

section Expressions

open Component (ValueOver PredicateOver Visible)

variable {scope : Scope} {ids : UInt64 → Prop} {source : Component}

theorem valueEach_singleton {args : List (Expr Constant)} {x : Except ResolveError Component}
    (h : Expr.valueEach scope args = [x]) : ∃ e, args = [e] ∧ e.value scope = x := by
  match args with
  | [] => cases h
  | [e] =>
    cases h
    exact ⟨e, rfl, rfl⟩
  | _ :: _ :: _ => cases h

theorem value_over (hscope : ∀ v ∈ scope, Visible source ids v.chain) : {e : Expr Constant} →
    {c : Component} → e.value scope = .ok c → e.NoOver → ValueOver (Visible source ids) c
  | .column column, c, h, _ => by
    obtain ⟨v, hv, rfl⟩ := lookup_ok h
    exact .chain (hscope v hv)
  | .constant v, c, h, _ => .constant (constantValue_ok h)
  | .call name isDistinct star args window, c, h, hover => by
    obtain ⟨hargs, rfl⟩ := hover
    obtain ⟨func, arg, hvalues, hkind, rfl⟩ := callValue_ok h
    obtain ⟨e, rfl, he⟩ := valueEach_singleton hvalues
    exact .aggregation ((value_over hscope he hargs.1).visible hkind) hkind
  | .subquery _, _, h, _ | .compare .., _, h, _ | .logic .., _, h, _ | .not _, _, h, _
  | .isNull .., _, h, _ => by cases h

theorem predicate_over (hscope : ∀ v ∈ scope, Visible source ids v.chain) : {e : Expr Constant} →
    {negated : Bool} → {c : Component} → e.predicate scope negated = .ok c → e.NoOver →
      PredicateOver (Visible source ids) c
  | .compare lhs op rhs, negated, c, h, hover => by
    obtain ⟨l, hl, h⟩ := ok_of_bind h
    obtain ⟨r, hr, h⟩ := ok_of_bind h
    have hl := value_over hscope hl hover.1
    have hr := value_over hscope hr hover.2
    have h : (if (normalize op negated).2 then .comparison r (normalize op negated).1 l
        else .comparison l (normalize op negated).1 r) = c := Except.ok.inj h
    split at h
    · subst h
      exact .comparison hr hl
    · subst h
      exact .comparison hl hr
  | .logic lhs op rhs, negated, c, h, hover => by
    obtain ⟨l, hl, h⟩ := ok_of_bind h
    obtain ⟨r, hr, h⟩ := ok_of_bind h
    cases h
    exact .connection (predicate_over hscope hl hover.1) (predicate_over hscope hr hover.2)
  | .not e, negated, c, h, hover => predicate_over hscope (e := e) h hover
  | .column _, _, _, h, _ | .constant _, _, _, h, _ | .call .., _, _, h, _ | .subquery _, _, _, h, _
  | .isNull .., _, _, h, _ => by cases h

end Expressions

section Keys

open Component (ValueOver Visible)

variable {scope : Scope} {ids : UInt64 → Prop} {source c : Component}
  {select : List (SelectItem Constant)} {items : List Component} {key : Expr Constant}

theorem referencable_output {item : Component}
    (h : (do referencable (← outputChain item) : Except ResolveError Component) = .ok c) :
    c.kind.isReferencable = true ∧ c ∈ item.provided := by
  obtain ⟨chain, hchain, href⟩ := ok_of_bind h
  obtain ⟨heq, hkind⟩ := referencable_ok href
  subst heq
  exact ⟨hkind, outputChain_ok hchain⟩

theorem reference_cases (h : reference scope select items key = .ok c) : c.kind.isReferencable = true ∧
    ((∃ column, key = .column column ∧ scope.lookup column = .ok c) ∨
      (∃ i item, key.itemPlace scope select = some i ∧ items[i]? = some item ∧ c ∈ item.provided) ∨
      ((SelectItem.expr key none).isCall = true ∧
        ∃ item, key.value scope = .ok item ∧ c ∈ item.provided)) := by
  cases key with
  | constant v =>
    cases v with
    | int n =>
      rw [reference] at h
      split at h
      · rename_i item hitem
        obtain ⟨hkind, hmem⟩ := referencable_output h
        split at hitem
        · rename_i hpos
          exact ⟨hkind, .inr (.inl ⟨_, item, if_pos hpos, hitem, hmem⟩)⟩
        · cases hitem
      · cases h
    | _ => cases h
  | column column =>
    rw [reference] at h
    split at h
    · rename_i chain hlookup
      obtain ⟨heq, hkind⟩ := referencable_ok h
      subst heq
      exact ⟨hkind, .inl ⟨column, rfl, hlookup⟩⟩
    · rename_i missing hlookup
      dsimp only at h
      split at h
      · rename_i item hitem
        obtain ⟨i, hi, hitem⟩ := Option.bind_eq_some_iff.1 hitem
        obtain ⟨hkind, hmem⟩ := referencable_output h
        refine ⟨hkind, .inr (.inl ⟨i, item, ?_, hitem, hmem⟩)⟩
        rw [Expr.itemPlace, hlookup, ← hi]
        apply congrArg (List.findIdx? · select)
        funext s
        cases s with
        | star => rfl
        | expr e asName => cases asName <;> rfl
      · cases h
    · cases h
  | call name isDistinct star args window =>
    rw [reference] at h
    obtain ⟨item, hitem, h⟩ := ok_of_bind h
    obtain ⟨hkind, hmem⟩ := referencable_output h
    exact ⟨hkind, .inr (.inr ⟨rfl, item, hitem, hmem⟩)⟩
  | _ => cases h

theorem reference_ok (h : reference scope select items key = .ok c) : c.kind.isReferencable = true ∧
    ((∃ v ∈ scope, v.chain = c) ∨
      (∃ i item, key.itemPlace scope select = some i ∧ items[i]? = some item ∧ c ∈ item.provided) ∨
      ((SelectItem.expr key none).isCall = true ∧
        ∃ item, key.value scope = .ok item ∧ c ∈ item.provided)) :=
  (reference_cases h).imp_right (Or.imp_left fun ⟨_, _, hlookup⟩ => lookup_ok hlookup)

theorem items_over (hscope : ∀ v ∈ scope, Visible source ids v.chain)
    (h : select.mapM (selectItemValue scope) = .ok items) (hover : ∀ s ∈ select, s.NoOver) :
    ∀ item ∈ items, ValueOver (Visible source ids) item := by
  intro item hitem
  obtain ⟨s, hs, hvalue⟩ := exists_of_forall₂ (forall₂_of_mapM h) hitem
  cases s with
  | star => cases hvalue
  | expr e asName => exact value_over hscope hvalue (hover _ hs)

theorem item_visible {s : SelectItem Constant} {item : Component}
    (hscope : ∀ v ∈ scope, Visible source ids v.chain) (h : selectItemValue scope s = .ok item)
    (hcall : s.isCall = false) (hc : c ∈ item.provided) (hkind : c.kind.isReferencable = true) :
    Visible source ids c := by
  cases s with
  | star => cases h
  | expr e asName =>
    cases e with
    | column column =>
      obtain ⟨v, hv, rfl⟩ := lookup_ok h
      rw [(hscope v hv).provided_eq, List.mem_singleton] at hc
      subst hc
      exact hscope v hv
    | constant v =>
      have hconstant := constantValue_ok h
      rw [hconstant.provided_eq, List.mem_singleton] at hc
      subst hc
      exact absurd hkind hconstant.not_referencable
    | call name isDistinct star args window => cases hcall
    | _ => cases h

theorem reference_rooted (hscope : ∀ v ∈ scope, Visible source ids v.chain)
    (hitems : ∀ item ∈ items, ValueOver (Visible source ids) item)
    (h : reference scope select items key = .ok c) (hover : key.NoOver) : c.RootedIn ids ∧
      ((∃ func arg, c = .aggChain func arg) ∨ c.fingerprint ∈ source.providedKeys) := by
  obtain ⟨hkind, hfrom⟩ := reference_ok h
  have hvalue {item : Component} (hitem : ValueOver (Visible source ids) item)
      (hc : c ∈ item.provided) : c.RootedIn ids ∧
        ((∃ func arg, c = .aggChain func arg) ∨ c.fingerprint ∈ source.providedKeys) :=
    ⟨(hitem.provided hc).1.resolve_right fun hc => hc.not_referencable hkind,
      hitem.aggregate_or_provided hc hkind⟩
  obtain ⟨v, hv, rfl⟩ | ⟨i, item, _, hitem, hc⟩ | ⟨_, item, hitem, hc⟩ := hfrom
  · exact ⟨(hscope v hv).rooted hkind, .inr (hscope v hv).isProvided⟩
  · exact hvalue (hitems item (List.mem_of_getElem? hitem)) hc
  · exact hvalue (value_over hscope hitem hover) hc

theorem reference_visible (hscope : ∀ v ∈ scope, Visible source ids v.chain)
    (hselect : select.mapM (selectItemValue scope) = .ok items)
    (h : reference scope select items key = .ok c) (hkey : ¬ key.DenotesAggregate scope select) :
    Visible source ids c := by
  obtain ⟨hkind, ⟨v, hv, rfl⟩ | ⟨i, item, hplace, hitem, hc⟩ | ⟨hcall, _⟩⟩ := reference_ok h
  · exact hscope v hv
  · obtain ⟨s, hs, hvalue⟩ := getElem?_of_forall₂ (forall₂_of_mapM hselect) hitem
    have hcall : s.isCall = false := by
      rw [← Bool.not_eq_true]
      exact fun hcall => hkey (.inr ⟨i, s, hplace, hs, hcall⟩)
    exact item_visible hscope hvalue hcall hc hkind
  · exact absurd (.inl hcall) hkey

end Keys

end QuerySearch
