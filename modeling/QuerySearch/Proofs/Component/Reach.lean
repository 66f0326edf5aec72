import QuerySearch.Component.Constituents

/-! All that a component is made of.  It has every property that is handed on to parts. -/

namespace QuerySearch.Component

mutual

/-- A component and all that is made of its parts, with repetitions.  With `asChain` the same for its chain
form. -/
def reach (asChain : Bool) : Component → List Component
  | .aggChain func arg => .aggChain func arg :: .aggFunc func :: arg.reach false
  | .windowChain func arg => .windowChain func arg :: .windowFunc func :: arg.reach false
  | .windowClause func => [.windowClause func, .windowFunc func]
  | .aggregation func arg isDistinct =>
    if asChain then .aggChain func arg :: .aggFunc func :: arg.reach false
    else .aggregation func arg isDistinct :: .aggFunc func :: .aggChain func arg :: arg.reach false ++
      (if isDistinct then [.aggregation func arg false, .distinct] else [])
  | .aggWindow call partition orderBy =>
    .aggWindow call partition orderBy ::
      (call.reach false ++ partition.reach false ++ orderBy.reach false)
  | .funcWindow call partition orderBy =>
    .funcWindow call partition orderBy ::
      (call.reach false ++ partition.reach false ++ orderBy.reach false)
  | .partitionList items => .partitionList items :: reachAll items
  | .groupList items => .groupList items :: reachAll items
  | .sortList items => .sortList items :: reachAll items
  | .select items => .select items :: reachAll items
  | .sortItem chain dir => .sortItem chain dir :: .sortDir dir :: chain.reach false
  | .comparison l op r =>
    if asChain then
      (comparison l op r).chainForm :: .compareOp op ::
        (if sameBoth l r l.chainForm r.chainForm then l.reach false ++ r.reach false
        else l.reach true ++ r.reach true)
    else
      .comparison l op r :: .compareOp op ::
        (if sameBoth l r l.chainForm r.chainForm then []
        else (comparison l op r).chainForm :: (l.reach true ++ r.reach true)) ++
          (l.reach false ++ r.reach false)
  | .connection l op r =>
    if asChain then
      (connection l op r).chainForm :: .logicOp op ::
        (if sameBoth l r l.chainForm r.chainForm then l.reach false ++ r.reach false
        else l.reach true ++ r.reach true)
    else
      .connection l op r :: .logicOp op ::
        (if sameBoth l r l.chainForm r.chainForm then []
        else (connection l op r).chainForm :: (l.reach true ++ r.reach true)) ++
          (l.reach false ++ r.reach false)
  | .named item asName => .named item asName :: item.reach false
  | .tableSource t asName => .tableSource t asName :: t.reach false
  | .querySource q asName => .querySource q asName :: q.reach false
  | .join l r type on =>
    .join l r type on :: .joinType type :: (l.reach false ++ r.reach false ++ on.reach false)
  | .query sel source filter groupBy having orderBy isDistinct =>
    .query sel source filter groupBy having orderBy isDistinct ::
      ((if isDistinct then [.distinct] else []) ++ sel.reach false ++ source.reach false ++
        filter.reach false ++ groupBy.reach false ++ having.reach false ++ orderBy.reach false)
  | .boundColumn qualifier name chain => .boundColumn qualifier name chain :: chain.reach false
  | c => [c]

def reachAll : List Component → List Component
  | [] => []
  | c :: cs => c.reach false ++ reachAll cs

end

section Constituents

variable {c d e : Component}

theorem mem_reachAll {cs : List Component} : d ∈ reachAll cs ↔ ∃ c ∈ cs, d ∈ c.reach false := by
  induction cs with
  | nil => simp [reachAll]
  | cons c cs ih => simp [reachAll, ih]

theorem mem_reach_self (c : Component) : c ∈ c.reach false := by
  cases c <;> simp [reach]

theorem reach_chainForm (c : Component) : c.chainForm.reach false = c.reach true := by
  fun_induction chainForm c with
  | case1 func arg isDistinct => simp [reach]
  | case2 l op r operands ihl ihr | case3 l op r operands ihl ihr =>
    obtain ⟨hsame, hform⟩ | ⟨hother, hform⟩ := formOperands_cases l r l.chainForm r.chainForm
    · simp [operands, hform, reach, chainForm, hsame]
    · have hdone : sameBoth l.chainForm r.chainForm l.chainForm.chainForm r.chainForm.chainForm = true := by
        simp [chainForm_chainForm]
      simp [operands, hform, reach, chainForm, hother, hdone, ihl, ihr]
  | case4 c haggregation hcomparison hconnection => cases c <;> simp_all [reach]

theorem reach_child (h : e ∈ c.children) (hd : d ∈ e.reach false) : d ∈ c.reach false := by
  cases c with
  | partitionList items | groupList items | sortList items | select items =>
    rw [reach]
    exact .tail _ (mem_reachAll.2 ⟨e, h, hd⟩)
  | aggChain | windowChain | aggregation | sortItem | named | tableSource | querySource | boundColumn =>
    obtain rfl := List.mem_singleton.1 h
    simp [reach, hd]
  | comparison | connection =>
    simp only [children, List.mem_cons, List.not_mem_nil, or_false] at h
    obtain rfl | rfl := h <;> simp [reach, hd]
  | aggWindow | funcWindow | join =>
    simp only [children, List.mem_cons, List.not_mem_nil, or_false] at h
    obtain rfl | rfl | rfl := h <;> simp [reach, hd]
  | query =>
    simp only [children, List.mem_cons, List.not_mem_nil, or_false] at h
    obtain rfl | rfl | rfl | rfl | rfl | rfl := h <;> simp [reach, hd]
  | _ => cases h

theorem reach_implied (h : e ∈ c.implied) (hd : d ∈ e.reach false) : d ∈ c.reach false := by
  cases c with
  | aggChain func arg | windowChain func arg | windowClause func | sortItem chain dir | join l r type on =>
    obtain rfl := List.mem_singleton.1 h
    obtain rfl : d = _ := by simpa [reach] using hd
    simp [reach]
  | aggregation func arg isDistinct =>
    have hcases : e = .aggFunc func ∨ e = .aggChain func arg ∨ e = .aggregation func arg false ∨
        isDistinct = true ∧ e = .distinct := by
      cases isDistinct <;> simpa [implied] using h
    obtain rfl | rfl | rfl | ⟨rfl, rfl⟩ := hcases
    · obtain rfl : d = _ := by simpa [reach] using hd
      simp [reach]
    · obtain rfl | rfl | hd : d = _ ∨ d = _ ∨ d ∈ arg.reach false := by simpa [reach] using hd
      all_goals simp [reach, *]
    · cases isDistinct with
      | true =>
        obtain rfl | rfl | rfl | hd : d = _ ∨ d = _ ∨ d = _ ∨ d ∈ arg.reach false := by simpa [reach] using hd
        all_goals simp [reach, *]
      | false => exact hd
    · obtain rfl : d = _ := by simpa [reach] using hd
      simp [reach]
  | comparison l op r | connection l op r =>
    obtain rfl | h := List.mem_cons.1 h
    · obtain rfl : d = _ := by simpa [reach] using hd
      simp [reach]
    · obtain rfl := List.mem_singleton.1 h
      rw [reach_chainForm] at hd
      cases hsame : sameBoth l r l.chainForm r.chainForm with
      | true => simpa [reach, chainForm, hsame, formOperands_of_same hsame] using hd
      | false =>
        simp only [reach, hsame] at hd ⊢
        grind
  | query sel source filter groupBy having orderBy isDistinct =>
    cases isDistinct with
    | true =>
      obtain rfl := List.mem_singleton.1 h
      obtain rfl : d = _ := by simpa [reach] using hd
      simp [reach]
    | false => cases h
  | _ => cases h

theorem reach_constituent (h : e ∈ c.constituents) (hd : d ∈ e.reach false) : d ∈ c.reach false :=
  (List.mem_append.1 h).elim (reach_implied · hd) (reach_child · hd)

end Constituents

def IsWord : Component → Prop
  | .distinct | .compareOp _ | .logicOp _ | .joinType _ | .aggFunc _ | .windowFunc _ | .sortDir _ => True
  | _ => False

def words : Component → List Component
  | .aggChain func _ => [.aggFunc func]
  | .aggregation func _ isDistinct => .aggFunc func :: if isDistinct then [.distinct] else []
  | .windowChain func _ | .windowClause func => [.windowFunc func]
  | .sortItem _ dir => [.sortDir dir]
  | .comparison _ op _ => [.compareOp op]
  | .connection _ op _ => [.logicOp op]
  | .join _ _ type _ => [.joinType type]
  | .query _ _ _ _ _ _ isDistinct => if isDistinct then [.distinct] else []
  | _ => []

structure HandedDown (p : Component → Prop) : Prop where
  child : ∀ {c d}, p c → d ∈ c.children → p d
  chainForm : ∀ {c}, p c → p c.chainForm
  repeating : ∀ {func arg isDistinct}, p (.aggregation func arg isDistinct) → p (.aggregation func arg false)

structure HandedOn (p : Component → Prop) : Prop extends HandedDown p where
  word : ∀ {c w}, p c → w ∈ c.words → p w

structure Inherited (p : Component → Prop) : Prop extends HandedDown p where
  word : ∀ {c}, c.IsWord → p c

section Reach

variable {p : Component → Prop}

mutual

theorem HandedOn.reach (h : HandedOn p) : (c : Component) → p c → (asChain : Bool) →
    ∀ d ∈ c.reach asChain, p d
  | .aggChain func arg, hc, _ | .windowChain func arg, hc, _ => by
    simp only [Component.reach, List.forall_mem_cons]
    exact ⟨hc, h.word hc (.head _), h.reach arg (h.child hc (.head _)) false⟩
  | .aggregation func arg isDistinct, hc, asChain => by
    have harg := h.reach arg (h.child hc (.head _)) false
    have hchain : p (.aggChain func arg) := h.chainForm hc
    cases asChain with
    | true =>
      simp only [Component.reach, if_true, List.forall_mem_cons]
      exact ⟨hchain, h.word hc (.head _), harg⟩
    | false =>
      simp only [Component.reach, Bool.false_eq_true, if_false, List.forall_mem_cons,
        List.forall_mem_append, List.cons_append]
      refine ⟨hc, h.word hc (.head _), hchain, harg, ?_⟩
      cases isDistinct with
      | true => simpa using ⟨h.repeating hc, h.word hc (.tail _ (.head _))⟩
      | false => simp
  | .aggWindow call partition orderBy, hc, _ | .funcWindow call partition orderBy, hc, _ => by
    simp only [Component.reach, List.forall_mem_cons, List.forall_mem_append]
    exact ⟨hc, ⟨h.reach call (h.child hc (by simp [children])) false,
      h.reach partition (h.child hc (by simp [children])) false⟩,
      h.reach orderBy (h.child hc (by simp [children])) false⟩
  | .partitionList items, hc, _ | .groupList items, hc, _ | .sortList items, hc, _
  | .select items, hc, _ => by
    simp only [Component.reach, List.forall_mem_cons]
    exact ⟨hc, h.reachAll items fun d hd => h.child hc hd⟩
  | .sortItem chain dir, hc, _ => by
    simp only [Component.reach, List.forall_mem_cons]
    exact ⟨hc, h.word hc (.head _), h.reach chain (h.child hc (.head _)) false⟩
  | .comparison l op r, hc, asChain | .connection l op r, hc, asChain => by
    have hl := h.reach l (h.child hc (.head _))
    have hr := h.reach r (h.child hc (.tail _ (.head _)))
    have hchain := h.chainForm hc
    cases asChain with
    | true =>
      simp only [Component.reach, if_true, List.forall_mem_cons]
      refine ⟨hchain, h.word hc (.head _), ?_⟩
      split <;> rw [List.forall_mem_append]
      · exact ⟨hl false, hr false⟩
      · exact ⟨hl true, hr true⟩
    | false =>
      simp only [Component.reach, Bool.false_eq_true, if_false, List.forall_mem_cons, List.forall_mem_append,
        List.cons_append]
      refine ⟨hc, h.word hc (.head _), ?_, hl false, hr false⟩
      split
      · exact List.forall_mem_nil _
      · simp only [List.forall_mem_cons, List.forall_mem_append]
        exact ⟨hchain, hl true, hr true⟩
  | .named item asName, hc, _ | .tableSource item asName, hc, _ | .querySource item asName, hc, _ => by
    simp only [Component.reach, List.forall_mem_cons]
    exact ⟨hc, h.reach item (h.child hc (.head _)) false⟩
  | .boundColumn _ _ chain, hc, _ => by
    simp only [Component.reach, List.forall_mem_cons]
    exact ⟨hc, h.reach chain (h.child hc (.head _)) false⟩
  | .join l r type on, hc, _ => by
    simp only [Component.reach, List.forall_mem_cons, List.forall_mem_append]
    exact ⟨hc, h.word hc (.head _), ⟨h.reach l (h.child hc (by simp [children])) false,
      h.reach r (h.child hc (by simp [children])) false⟩,
      h.reach on (h.child hc (by simp [children])) false⟩
  | .query sel source filter groupBy having orderBy isDistinct, hc, _ => by
    have hword : ∀ d ∈ (if isDistinct then [Component.distinct] else []), p d := by
      cases isDistinct with
      | true => simpa using h.word hc (.head _)
      | false => simp
    simp only [Component.reach, List.forall_mem_cons, List.forall_mem_append]
    exact ⟨hc, ⟨⟨⟨⟨⟨hword, h.reach sel (h.child hc (by simp [children])) false⟩,
      h.reach source (h.child hc (by simp [children])) false⟩,
      h.reach filter (h.child hc (by simp [children])) false⟩,
      h.reach groupBy (h.child hc (by simp [children])) false⟩,
      h.reach having (h.child hc (by simp [children])) false⟩,
      h.reach orderBy (h.child hc (by simp [children])) false⟩
  | .windowClause func, hc, _ => by
    simp only [Component.reach, List.forall_mem_cons]
    exact ⟨hc, h.word hc (.head _), by simp⟩
  | .table _, hc, _ | .column .., hc, _ | .int _, hc, _ | .float _, hc, _ | .str _, hc, _ | .absent, hc, _
  | .distinct, hc, _ | .compareOp _, hc, _ | .logicOp _, hc, _ | .joinType _, hc, _ | .aggFunc _, hc, _
  | .windowFunc _, hc, _ | .sortDir _, hc, _ => by simpa [Component.reach] using hc

theorem HandedOn.reachAll (h : HandedOn p) : (cs : List Component) → (∀ c ∈ cs, p c) →
    ∀ d ∈ reachAll cs, p d
  | [], _ => by simp [Component.reachAll]
  | c :: cs, hcs => by
    simp only [Component.reachAll, List.forall_mem_append]
    exact ⟨h.reach c (hcs c (.head _)) false, h.reachAll cs fun d hd => hcs d (.tail _ hd)⟩

end

theorem handedOn_of_constituents (h : ∀ {c d}, p c → d ∈ c.constituents → p d) : HandedOn p where
  child hc hd := h hc (List.mem_append_right _ hd)
  chainForm {c} hc := by
    cases c with
    | aggregation | comparison | connection => exact h hc (.tail _ (.head _))
    | _ => exact hc
  repeating hc := h hc (.tail _ (.tail _ (.head _)))
  word {c w} hc hw := by
    cases c with
    | aggregation _ _ isDistinct =>
      obtain rfl | hw := List.mem_cons.1 hw
      · exact h hc (.head _)
      · exact h hc (List.mem_append_left _ (List.mem_append_right _ hw))
    | aggChain | windowChain | windowClause | sortItem | comparison | connection | join =>
      obtain rfl := List.mem_singleton.1 hw
      exact h hc (.head _)
    | query => exact h hc (List.mem_append_left _ hw)
    | _ => cases hw

theorem reach_trans {c d e : Component} (hd : d ∈ c.reach false) (he : e ∈ d.reach false) :
    e ∈ c.reach false := by
  have hinside : HandedOn fun d => ∀ e ∈ d.reach false, e ∈ c.reach false :=
    handedOn_of_constituents fun hd hpart e he => hd e (reach_constituent hpart he)
  exact hinside.reach c (fun _ => id) false d hd e he

theorem constituent_mem_reach {c d e : Component} (hd : d ∈ c.reach false) (he : e ∈ d.constituents) :
    e ∈ c.reach false :=
  reach_trans hd (reach_constituent he (mem_reach_self e))

theorem child_mem_reach {c d e : Component} (hd : d ∈ c.reach false) (he : e ∈ d.children) :
    e ∈ c.reach false :=
  constituent_mem_reach hd (List.mem_append_right _ he)

theorem isWord_of_mem_terminals {c : Component} (h : c ∈ terminals) : c.IsWord ∨ c = absent := by
  revert c
  simp [terminals, IsWord]

theorem isWord_of_mem_words {c w : Component} (h : w ∈ c.words) : w.IsWord := by
  cases c with
  | aggregation _ _ isDistinct =>
    obtain rfl | h := List.mem_cons.1 h
    · trivial
    · cases isDistinct with
      | true =>
        obtain rfl := List.mem_singleton.1 h
        trivial
      | false => cases h
  | query _ _ _ _ _ _ isDistinct =>
    cases isDistinct with
    | true =>
      obtain rfl := List.mem_singleton.1 h
      trivial
    | false => cases h
  | aggChain | windowChain | windowClause | sortItem | comparison | connection | join =>
    obtain rfl := List.mem_singleton.1 h
    trivial
  | _ => cases h

theorem Inherited.handedOn (h : Inherited p) : HandedOn p where
  toHandedDown := h.toHandedDown
  word _ hw := h.word (isWord_of_mem_words hw)

theorem Inherited.reach (h : Inherited p) (c : Component) (hc : p c) (asChain : Bool) :
    ∀ d ∈ c.reach asChain, p d :=
  h.handedOn.reach c hc asChain

end Reach

end QuerySearch.Component
