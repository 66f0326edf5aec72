import QuerySearch.Proofs.Resolve.Chains

/-! Queries of plain clauses that have what they require at every level: those to which names can be
bound, as far as their sort keys can be read. -/

namespace QuerySearch.Component

def Traced (c : Component) : Prop := c.RootedIn (fun _ => True) ∨ c.IsConstant

inductive IsOutput : Component → Prop
  | value {c} (h : ValueOver Traced c) : IsOutput c
  | named {c name} (h : ValueOver Traced c) : IsOutput (.named c name)

inductive IsTest : Component → Prop
  | absent : IsTest .absent
  | predicate {c} (h : PredicateOver Traced c) : IsTest c

inductive IsGrouping : Component → Prop
  | absent : IsGrouping .absent
  | list {items} (h : ∀ c ∈ items, c.RootedIn fun _ => True) : IsGrouping (.groupList items)

inductive IsOrderKey (given : List Fingerprint) : Component → Prop
  | column {t name type dir} (h : .ofColumn t name ∈ given) :
    IsOrderKey given (.sortItem (.column t name type) dir)
  | aggregate {func arg dir} (h : arg.RootedIn fun _ => True) :
    IsOrderKey given (.sortItem (.aggChain func arg) dir)

inductive IsOrder (given : List Fingerprint) : Component → Prop
  | absent : IsOrder given .absent
  | list {items} (h : ∀ c ∈ items, c.IsOrderKey given) : IsOrder given (.sortList items)

def HasOwnColumns (t : Table) : Prop :=
  ∀ c ∈ t.columns, ∀ d ∈ t.columns, Fingerprint.ofColumn t c.1 = Fingerprint.ofColumn t d.1 → c.1 = d.1

def Apart (l r : Component) : Prop :=
  ∀ k ∈ l.providedKeys, k.kind.isReferencable = true → k ∉ r.providedKeys

def Bindable : Component → Prop
  | .query (.select items) source filter groupBy having orderBy _ => source.Bindable ∧
    (∀ item ∈ items, item.IsOutput) ∧ filter.IsTest ∧ groupBy.IsGrouping ∧ having.IsTest ∧
      orderBy.IsOrder source.providedKeys ∧
        ∀ c ∈ [.select items, filter, groupBy, having], SuppliedBy source c
  | .tableSource (.table t) _ => HasOwnColumns t
  | .querySource q _ => q.Bindable
  | .join l r type on => l.Bindable ∧ r.Bindable ∧ Apart l r ∧ PredicateOver Traced on ∧
    SuppliedBy (.join l r type on) on
  | _ => False

section Traced

variable {ids : UInt64 → Prop} {source c : Component} {p q : Component → Prop}

theorem Visible.traced (h : Visible source ids c) : Traced c :=
  h.isRooted.imp_left (RootedIn.mono fun _ _ => trivial)

theorem ValueOver.mono (h : ValueOver p c) (hpq : ∀ d, p d → q d) : ValueOver q c := by
  cases h with
  | chain h => exact .chain (hpq c h)
  | constant h => exact .constant h
  | aggregation h hkind => exact .aggregation (hpq _ h) hkind

theorem PredicateOver.mono (h : PredicateOver p c) (hpq : ∀ d, p d → q d) : PredicateOver q c := by
  induction h with
  | comparison hl hr => exact .comparison (hl.mono hpq) (hr.mono hpq)
  | connection _ _ ihl ihr => exact .connection ihl ihr

theorem Traced.rooted (h : Traced c) (hkind : c.kind.isReferencable = true) :
    c.RootedIn fun _ => True := by
  cases h with
  | inl h => exact h
  | inr h => exact absurd hkind h.not_referencable

theorem Traced.provided_eq (h : Traced c) : c.provided = [c] :=
  h.elim RootedIn.provided_eq IsConstant.provided_eq

theorem ValueOver.provides (h : ValueOver Traced c) : ∃ chain, Traced chain ∧ c.provided = [chain] := by
  cases h with
  | chain h => exact ⟨c, h, h.provided_eq⟩
  | constant h => exact ⟨c, .inr h, h.provided_eq⟩
  | @aggregation func arg isDistinct h hkind =>
    refine ⟨.aggChain func arg, .inl (h.rooted hkind), ?_⟩
    rw [Component.provided, h.provided_eq]
    rfl

theorem IsOutput.provides (h : c.IsOutput) : ∃ chain, Traced chain ∧ c.provided = [chain] := by
  cases h with
  | value h => exact h.provides
  | named h =>
    rw [Component.provided]
    exact h.provides

end Traced

section Order

variable {given given' : List Fingerprint} {c : Component}

theorem RootedIn.isOrderKey {ids : UInt64 → Prop} {dir : SortDir} (h : c.RootedIn ids)
    (hc : (∃ func arg, c = .aggChain func arg) ∨ c.fingerprint ∈ given) :
    (sortItem c dir).IsOrderKey given := by
  cases c with
  | column t name type =>
    rw [fingerprint_column] at hc
    exact .column (hc.resolve_left nofun)
  | aggChain func arg => exact .aggregate (RootedIn.mono (fun _ _ => trivial) (c := arg) h)
  | _ => exact h.elim

theorem IsOrder.mono (h : c.IsOrder given) (hgiven : ∀ k ∈ c.requiredKeys, k ∈ given → k ∈ given') :
    c.IsOrder given' := by
  cases h with
  | absent => exact .absent
  | list h =>
    rw [requiredKeys_sortList] at hgiven
    refine .list fun d hd => ?_
    cases h d hd with
    | @column t name type dir hcolumn =>
      refine .column (hgiven _ (List.mem_flatMap.2 ⟨_, hd, ?_⟩) hcolumn)
      rw [requiredKeys, ← fingerprint, fingerprint_column]
      exact List.mem_singleton_self _
    | aggregate harg => exact .aggregate harg

end Order

end QuerySearch.Component
