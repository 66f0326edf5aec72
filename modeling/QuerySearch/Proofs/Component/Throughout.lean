import QuerySearch.Component.Lemmas
import QuerySearch.Proofs.Binding.Unbinding
import QuerySearch.Proofs.Component.Reach

/-! Properties of a component and of all that stands inside it. -/

namespace QuerySearch.Component

/-- The property holds of the component and of everything inside it. -/
inductive Throughout (p : Component → Prop) : Component → Prop
  | intro {c} (here : p c) (inside : ∀ d ∈ c.children, Throughout p d) : Throughout p c

section Throughout

variable {p q : Component → Prop} {c d : Component} {items : List Component}

theorem Throughout.here : Throughout p c → p c
  | .intro here _ => here

theorem Throughout.child : Throughout p c → d ∈ c.children → Throughout p d
  | .intro _ inside, hd => inside d hd

theorem throughout_leaf (here : p c) (h : c.children = []) : Throughout p c := .intro here (by simp [h])

theorem Throughout.mono (h : Throughout p c) (hpq : ∀ c, p c → q c) : Throughout q c := by
  induction h with
  | intro here _ ih => exact .intro (hpq _ here) ih

theorem Throughout.and (hp : Throughout p c) (hq : Throughout q c) : Throughout (fun c => p c ∧ q c) c := by
  induction hp with
  | intro here _ ih => exact .intro ⟨here, hq.here⟩ fun d hd => ih d hd (hq.child hd)

theorem throughout_sorted (here : p c) (hchildren : c.children = sortedByKey items)
    (h : ∀ d ∈ items, Throughout p d) : Throughout p c := by
  refine .intro here fun d hd => ?_
  rw [hchildren] at hd
  exact h d (mem_sortedByKey.1 hd)

theorem Throughout.chainForm (hp : ∀ c, p c → p c.chainForm) (h : Throughout p c) :
    Throughout p c.chainForm := by
  induction h with
  | @intro c here inside ih =>
    cases c with
    | aggregation func arg isDistinct => exact .intro (hp _ here) inside
    | comparison l op r | connection l op r =>
      have hoperands := formOperands_of (inside l (.head _)) (inside r (.tail _ (.head _))) (ih l (.head _))
        (ih r (.tail _ (.head _)))
      exact .intro (hp _ here) (by simpa [Component.chainForm, children] using hoperands)
    | _ => exact .intro here inside

structure Outgoing (p : Component → Prop) : Prop where
  leaf : ∀ {c}, c.children = [] → p c
  rank : ∀ {func}, p (.windowChain func .absent)
  aggregate : ∀ {func arg isDistinct d}, Throughout p (.aggregation func arg isDistinct) →
    d ∈ arg.provided → Throughout p d → p (.aggChain func d)

mutual

theorem Outgoing.provided (hp : Outgoing p) : (c : Component) → Throughout p c →
    ∀ d ∈ c.provided, Throughout p d
  | .table t, _ => by
    intro d hd
    obtain ⟨column, _, rfl⟩ := List.mem_map.1 hd
    exact throughout_leaf (hp.leaf rfl) rfl
  | .column .., h | .int _, h | .float _, h | .str _, h | .aggChain .., h | .windowChain .., h => by
    simpa [Component.provided] using h
  | .aggregation func arg _, h => by
    intro d hd
    obtain ⟨e, he, rfl⟩ := List.mem_map.1 hd
    have hmem := List.mem_of_mem_take he
    have hinside := hp.provided arg (h.child (.head _)) e hmem
    exact .intro (hp.aggregate h hmem hinside) (by simpa [children] using hinside)
  | .windowClause func, _ => by
    have hchain : Throughout p (windowChain func absent) :=
      .intro hp.rank (by simpa [children] using throughout_leaf (hp.leaf rfl) rfl)
    simpa [Component.provided] using hchain
  | .aggWindow call _ _, h | .funcWindow call _ _, h => hp.provided call (h.child (.head _))
  | .select items, h => hp.providedByAll items fun _ hd => h.child hd
  | .named item _, h => hp.provided item (h.child (.head _))
  | .tableSource t _, h => hp.provided t (h.child (.head _))
  | .querySource q _, h => hp.provided q (h.child (.head _))
  | .join l r _ _, h => by
    rw [Component.provided, List.forall_mem_append]
    exact ⟨hp.provided l (h.child (.head _)), hp.provided r (h.child (.tail _ (.head _)))⟩
  | .query sel .., h => hp.provided sel (h.child (.head _))
  | .boundColumn _ _ chain, h => by
    simpa [Component.provided] using h.child (.head _)
  | .absent, _ | .distinct, _ | .compareOp _, _ | .logicOp _, _ | .joinType _, _ | .aggFunc _, _
  | .windowFunc _, _ | .sortDir _, _ | .partitionList _, _ | .groupList _, _ | .sortList _, _
  | .sortItem _ _, _ | .comparison _ _ _, _ | .connection _ _ _, _ => by simp [Component.provided]

theorem Outgoing.providedByAll (hp : Outgoing p) : (cs : List Component) → (∀ c ∈ cs, Throughout p c) →
    ∀ d ∈ providedByAll cs, Throughout p d
  | [], _ => by simp [Component.providedByAll]
  | c :: cs, h => by
    rw [List.forall_mem_cons] at h
    simp only [Component.providedByAll, List.forall_mem_append]
    exact ⟨hp.provided c h.1, hp.providedByAll cs h.2⟩

end

theorem IsWord.children_eq (h : c.IsWord) : c.children = [] := by
  cases c with
  | distinct | compareOp | logicOp | joinType | aggFunc | windowFunc | sortDir => rfl
  | _ => exact h.elim

theorem inherited_throughout (hword : ∀ c, c.IsWord → p c) (hform : ∀ c, p c → p c.chainForm)
    (hplain : ∀ func arg isDistinct, p (.aggregation func arg isDistinct) → p (.aggregation func arg false)) :
    Inherited (Throughout p) where
  word {c} h := throughout_leaf (hword c h) h.children_eq
  child h hd := h.child hd
  chainForm := .chainForm hform
  repeating h := .intro (hplain _ _ _ h.here) fun _ hd => h.child hd

end Throughout

def IsBound : Component → Prop
  | .boundColumn .. => True
  | _ => False

def IsRelation : Component → Prop
  | .tableSource .. | .querySource .. | .join .. | .query .. => True
  | _ => False

abbrev Unread : Component → Prop := Throughout fun c => ¬ c.IsBound

abbrev Plain : Component → Prop := Throughout fun c => ¬ c.IsBound ∧ ¬ c.IsRelation

section Parts

variable {c : Component}

theorem Plain.unread (h : c.Plain) : c.Unread := Throughout.mono h fun _ => And.left

theorem plain_absent : absent.Plain := throughout_leaf ⟨id, id⟩ rfl

theorem plain_column {t : Table} {name : String} {type : DataType} : (column t name type).Plain :=
  throughout_leaf ⟨id, id⟩ rfl

theorem isRelation_iff : c.IsRelation ↔ c.ctorIdx ∈
    [Kind.tableSource.rank, Kind.querySource.rank, Kind.join.rank, Kind.query.rank] := by
  cases c <;> simp [IsRelation, Kind.rank, Component.ctorIdx, Kind.ctorIdx]

theorem not_isBound_chainForm (h : ¬ c.IsBound) : ¬ c.chainForm.IsBound := by
  cases c with
  | boundColumn => exact absurd trivial h
  | _ => exact id

theorem not_isRelation_chainForm (h : ¬ c.IsRelation) : ¬ c.chainForm.IsRelation := by
  cases c with
  | tableSource | querySource | join | query => exact absurd trivial h
  | _ => exact id

theorem not_isRelation_of_isWord (h : c.IsWord) : ¬ c.IsBound ∧ ¬ c.IsRelation := by
  cases c with
  | distinct | compareOp | logicOp | joinType | aggFunc | windowFunc | sortDir => exact ⟨id, id⟩
  | _ => exact h.elim

theorem inherited_plain : Inherited Plain :=
  inherited_throughout (fun _ => not_isRelation_of_isWord)
    (fun _ h => ⟨not_isBound_chainForm h.1, not_isRelation_chainForm h.2⟩) (fun _ _ _ _ => ⟨id, id⟩)

end Parts

end QuerySearch.Component
