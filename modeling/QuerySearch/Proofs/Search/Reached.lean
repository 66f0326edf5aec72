import QuerySearch.Proofs.Search.Built
import QuerySearch.Search.State

/-! The states that a search reaches, and what comes into the bank on the way. -/

namespace QuerySearch

open Component (groupListOf partitionListOf sortListOf)

/-- A part of something in a bank, a column of it, or such a part with another column in place of its
own, which is of the same kind. -/
inductive Drawn (b : Bank) : Component → Prop
  | child {c d} (hd : d ∈ b.toList) (hc : c ∈ d.children) : Drawn b c
  | column {t u name type} (ht : t ∈ b.toList) (hc : .column u name type ∈ t.provided) :
    Drawn b (.column u name type)
  | aggChain {func given arg} (hgiven : Drawn b (.aggChain func given)) (harg : Drawn b arg)
    (hkind : arg.kind = given.kind) : Drawn b (.aggChain func arg)
  | arg {func arg} (h : Drawn b (.aggChain func arg)) : Drawn b arg

inductive Proposed (b : Bank) : Component → Prop
  | groupList {items} (hitems : ∀ c ∈ items, Drawn b c) : Proposed b (groupListOf items)
  | partitionList {items} (hitems : ∀ c ∈ items, Drawn b c) : Proposed b (partitionListOf items)
  | sortList {c} (hc : Drawn b c) (hkind : c.kind.isReferencable = true) :
    Proposed b (sortListOf [.sortItem c .asc])

namespace Variation

variable {b : Bank} {e : Estimator} {c d : Component} {items : List Component}

theorem mem_free {kind : Kind} (h : c ∈ free b e kind) : c ∈ b.toList := (Bank.mem_of_select h).1

theorem mem_partitionLists (h : items ∈ partitionLists b e) : .partitionList items ∈ b.toList := by
  obtain ⟨c, hc, hitems⟩ := List.mem_filterMap.1 h
  split at hitems
  · cases hitems
    exact mem_free hc
  · cases hitems

theorem mem_groupLists (h : items ∈ groupLists b e) : .groupList items ∈ b.toList := by
  obtain ⟨c, hc, hitems⟩ := List.mem_filterMap.1 h
  split at hitems
  · cases hitems
    exact mem_free hc
  · cases hitems

theorem mem_comparisons {l r : Component} {op : CompareOp} (h : (l, op, r) ∈ comparisons b e) :
    .comparison l op r ∈ b.toList := by
  obtain ⟨c, hc, hparts⟩ := List.mem_filterMap.1 h
  split at hparts
  · cases hparts
    exact mem_free hc
  · cases hparts

theorem drawn_group (h : items ∈ groupLists b e) : ∀ c ∈ items, Drawn b c :=
  fun _ hc => .child (mem_groupLists h) hc

theorem drawn_sides {l r : Component} {op : CompareOp} (h : (l, op, r) ∈ comparisons b e) :
    Drawn b l ∧ Drawn b r :=
  ⟨.child (mem_comparisons h) (.head _), .child (mem_comparisons h) (.tail _ (.head _))⟩

theorem kind_sameName (h : d ∈ sameName b e c) : d.kind = c.kind := by
  fun_induction sameName b e c generalizing d with
  | case1 t name type =>
    have hname := (List.mem_filter.1 h).2
    split at hname
    · rw [Component.kind_eq_iff, Component.kind_rank]
      rfl
    · cases hname
  | case2 func arg ih =>
    obtain ⟨arg', _, rfl⟩ := List.mem_map.1 h
    rw [Component.kind_eq_iff, Component.kind_rank]
    rfl
  | case3 c => rw [List.mem_singleton.1 h]

theorem drawn_sameName : {c : Component} → Drawn b c → ∀ d ∈ sameName b e c, Drawn b d
  | .column t name type, _, d, hd => by
    obtain ⟨hmem, hname⟩ := List.mem_filter.1 hd
    obtain ⟨u, hu, hd⟩ := List.mem_flatMap.1 hmem
    split at hname
    · exact .column (mem_free hu) hd
    · cases hname
  | .aggChain func arg, h, d, hd => by
    obtain ⟨arg', harg, rfl⟩ := List.mem_map.1 hd
    exact .aggChain h (drawn_sameName h.arg arg' harg) (kind_sameName harg)
  | .table _, h, d, hd | .windowChain .., h, d, hd | .int _, h, d, hd | .float _, h, d, hd
  | .str _, h, d, hd | .absent, h, d, hd | .distinct, h, d, hd | .compareOp _, h, d, hd
  | .logicOp _, h, d, hd | .joinType _, h, d, hd | .aggFunc _, h, d, hd | .windowFunc _, h, d, hd
  | .sortDir _, h, d, hd | .aggregation .., h, d, hd | .windowClause _, h, d, hd
  | .aggWindow .., h, d, hd | .funcWindow .., h, d, hd | .partitionList _, h, d, hd
  | .groupList _, h, d, hd | .sortItem .., h, d, hd | .sortList _, h, d, hd | .comparison .., h, d, hd
  | .connection .., h, d, hd | .select _, h, d, hd | .named .., h, d, hd | .tableSource .., h, d, hd
  | .querySource .., h, d, hd | .join .., h, d, hd | .query .., h, d, hd | .boundColumn .., h, d, hd => by
    rw [List.mem_singleton.1 hd]
    exact h

theorem mem_selections_map {f : Component → List Component} {chosen : List Component}
    (h : chosen ∈ selections (items.map f)) : ∀ d ∈ chosen, ∃ c ∈ items, d ∈ f c := by
  induction items generalizing chosen with
  | nil =>
    cases List.mem_singleton.1 h
    simp
  | cons c items ih =>
    obtain ⟨d, hd, h⟩ := List.mem_flatMap.1 h
    obtain ⟨rest, hrest, rfl⟩ := List.mem_map.1 h
    intro d' hd'
    cases hd' with
    | head => exact ⟨c, .head _, hd⟩
    | tail _ hd' =>
      obtain ⟨c', hc', hmem⟩ := ih hrest d' hd'
      exact ⟨c', .tail _ hc', hmem⟩

theorem drawn_choices {chosen : List Component} (hitems : ∀ c ∈ items, Drawn b c)
    (h : chosen ∈ choices (items.map (sameName b e))) : ∀ d ∈ chosen, Drawn b d := by
  rw [choices] at h
  split at h
  · cases h
  · intro d hd
    obtain ⟨c, hc, hmem⟩ := mem_selections_map h d hd
    exact drawn_sameName (hitems c hc) d hmem

theorem proposed_equals {l r reference : Component} {op : CompareOp} (hl : Drawn b l) (hr : Drawn b r)
    (h : c ∈ equals reference (l, op, r)) : Proposed b c := by
  cases op with
  | eq =>
    rw [equals] at h
    split at h
    · cases List.mem_singleton.1 h
      exact .groupList (by simpa using hr)
    split at h
    · cases List.mem_singleton.1 h
      exact .groupList (by simpa using hl)
    · cases h
  | ne | lt | le => cases h

theorem proposed_transitive (h : c ∈ transitive b e items) : Proposed b c := by
  match items, h with
  | [reference], h =>
    obtain ⟨⟨l, op, r⟩, hparts, hc⟩ := List.mem_flatMap.1 h
    obtain ⟨hl, hr⟩ := drawn_sides hparts
    exact proposed_equals hl hr hc
  | [], h | _ :: _ :: _, h => cases h

theorem proposed_ascending (hd : Drawn b d) (h : c ∈ ascending d) : Proposed b c := by
  rw [ascending] at h
  split at h
  · rename_i hkind
    cases List.mem_singleton.1 h
    exact .sortList hd hkind
  · cases h

theorem proposed_orders {l r : Component} {op : CompareOp} (hl : Drawn b l) (hr : Drawn b r)
    (h : c ∈ orders (l, op, r)) : Proposed b c := by
  cases op with
  | lt | le =>
    cases List.mem_append.1 h with
    | inl h => exact proposed_ascending hl h
    | inr h => exact proposed_ascending hr h
  | eq | ne => cases h

theorem proposals_proposed {v : Variation} (h : c ∈ v.proposals b e) : Proposed b c := by
  cases v with
  | partitionToGroup =>
    obtain ⟨items, hitems, rfl⟩ := List.mem_map.1 h
    exact .groupList fun d hd => .child (mem_partitionLists hitems) hd
  | groupSubsets =>
    obtain ⟨items, hitems, rfl⟩ := List.mem_map.1 h
    obtain ⟨given, hgiven, hitems⟩ := List.mem_flatMap.1 hitems
    obtain ⟨k, _, hitems⟩ := List.mem_flatMap.1 hitems
    exact .groupList fun d hd => drawn_group hgiven d (mem_of_mem_combinations hitems d hd)
  | groupTransitive =>
    obtain ⟨items, _, hc⟩ := List.mem_flatMap.1 h
    exact proposed_transitive hc
  | groupSameColumn =>
    obtain ⟨items, hitems, rfl⟩ := List.mem_map.1 h
    obtain ⟨given, hgiven, hitems⟩ := List.mem_flatMap.1 hitems
    exact .groupList (drawn_choices (drawn_group hgiven) hitems)
  | groupToPartition =>
    obtain ⟨items, hitems, rfl⟩ := List.mem_map.1 h
    exact .partitionList (drawn_group hitems)
  | inequalityToOrder =>
    obtain ⟨⟨l, op, r⟩, hparts, hc⟩ := List.mem_flatMap.1 h
    obtain ⟨hl, hr⟩ := drawn_sides hparts
    exact proposed_orders hl hr hc

end Variation

namespace Search

variable {s t : Search}

def workshop (s : Search) : Workshop := ⟨s.bank, s.estimator, s.limits⟩

inductive Reaches (s : Search) : Search → Prop
  | refl : Reaches s s
  | vary {t : Search} (h : Reaches s t) (v : Variation) : Reaches s (t.vary v)
  | step {t : Search} (h : Reaches s t) : Reaches s t.step.2

theorem bank_advance : s.advance.bank = s.bank := by
  rw [advance]
  split <;> rfl

theorem limits_advance : s.advance.limits = s.limits := by
  rw [advance]
  split <;> rfl

theorem bank_step : s.step.2.bank = s.bank.insertAll s.discoveries := bank_advance

theorem Reaches.limits_eq (h : Reaches s t) : t.limits = s.limits := by
  induction h with
  | refl => rfl
  | vary _ v ih => exact ih
  | step _ ih => exact limits_advance.trans ih

theorem discoveries_built {c : Component} (h : c ∈ s.discoveries) : Built s.workshop c :=
  Workshop.build_built (Bank.mem_ofList h)

theorem Reaches.bank_forall {p : Component → Prop} (hstart : ∀ c ∈ s.bank.toList, p c)
    (hproposed : ∀ u, Reaches s u → (∀ c ∈ u.bank.toList, p c) → ∀ c, Proposed u.bank c → p c)
    (hbuilt : ∀ u, Reaches s u → (∀ c ∈ u.bank.toList, p c) → ∀ c, Built u.workshop c → p c)
    (h : Reaches s t) : ∀ c ∈ t.bank.toList, p c := by
  induction h with
  | refl => exact hstart
  | @vary u hu v ih =>
    intro c hc
    cases Bank.mem_insertAll hc with
    | inl hc => exact ih c hc
    | inr hc => exact hproposed u hu ih c (Variation.proposals_proposed hc)
  | @step u hu ih =>
    intro c hc
    rw [bank_step] at hc
    cases Bank.mem_insertAll hc with
    | inl hc => exact ih c hc
    | inr hc => exact hbuilt u hu ih c (discoveries_built hc)

theorem targets_advance : s.advance.targets = s.targets ∧ s.advance.names = s.names := by
  rw [advance]
  split <;> exact ⟨rfl, rfl⟩

theorem Reaches.targets_eq (h : Reaches s t) : t.targets = s.targets ∧ t.names = s.names := by
  induction h with
  | refl => exact ⟨rfl, rfl⟩
  | vary _ v ih => exact ih
  | step _ ih => exact ⟨targets_advance.1.trans ih.1, targets_advance.2.trans ih.2⟩

theorem mem_render {q : Component} {text : String} : text ∈ s.render q ↔
    ∃ target ∈ s.targets, ∃ forms form bound, q.projections target s.names = .ok forms ∧ form ∈ forms ∧
      (form.bindNames .empty).1 = .ok bound ∧ bound.text = text := by
  rw [render, List.mem_flatMap]
  refine exists_congr fun target => and_congr_right fun _ => ?_
  cases hforms : q.projections target s.names with
  | error => simp
  | ok forms =>
    simp only [List.mem_filterMap, Except.ok.injEq, exists_and_left, exists_eq_left']
    refine exists_congr fun form => and_congr_right fun _ => ?_
    cases hbound : (form.bindNames .empty).1 with
    | error => simp
    | ok bound => simp

theorem Reaches.render_eq (h : Reaches s t) : t.render = s.render := by
  funext q
  rw [render, render, h.targets_eq.1, h.targets_eq.2]

theorem reaches_foldl_vary (vs : List Variation) (h : Reaches s t) : Reaches s (vs.foldl vary t) := by
  induction vs generalizing t with
  | nil => exact h
  | cons v vs ih => exact ih (h.vary v)

theorem reaches_varyAll : Reaches s s.varyAll := reaches_foldl_vary _ .refl

end Search

end QuerySearch
