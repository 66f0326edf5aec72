import QuerySearch.Proofs.Search.Passes
import QuerySearch.Proofs.Search.Pulls

/-! The protocol of a stream: a placeholder, then either one error or candidates in the order of their
costs, each the text of a query that costs no more than the stream says. -/

namespace QuerySearch

namespace Search

/-- The text of a query that some state has in its bank or finds next, at the cost limit of that state,
which the query keeps to. -/
def Renders (s : Search) (c : Candidate) : Prop :=
  ∃ t q, s.Reaches t ∧ (q ∈ t.bank.toList ∨ q ∈ t.discoveries) ∧ c.text ∈ t.render q ∧
    c.cost = t.costLimit ∧ t.estimator.cost q ≤ c.cost

variable {s t : Search} {text : String}

theorem renders_initialTexts (h : text ∈ s.initialTexts) (hlimit : s.costLimit = 0) :
    s.Renders ⟨text, 0⟩ := by
  obtain ⟨q, hq, htext⟩ := List.mem_flatMap.1 h
  exact ⟨s, q, .refl, .inl (Bank.mem_of_select hq).1, htext, hlimit.symm, (Bank.mem_select.1 hq).2.2⟩

theorem cost_of_mem_rendered {q : Component} (h : q ∈ s.rendered) : s.estimator.cost q ≤ s.costLimit := by
  have hbuilt := mem_discoveries (mem_rendered h)
  rw [rendered] at h
  split at h
  · rename_i hkind
    rw [hkind] at hbuilt
    have haccepts := Workshop.accepts_of_mem_queries hbuilt
    rw [Workshop.accepts, Bool.and_eq_true, decide_eq_true_eq] at haccepts
    exact haccepts.1
  · cases h

theorem Reaches.renders_step (h : s.Reaches t) (htext : text ∈ t.step.1) : s.Renders ⟨text, t.costLimit⟩ := by
  rw [texts_step] at htext
  obtain ⟨q, hq, htext⟩ := List.mem_flatMap.1 htext
  exact ⟨t, q, h, .inr (mem_rendered hq), htext, rfl, cost_of_mem_rendered hq⟩

theorem costLimit_foldl_vary (vs : List Variation) : (vs.foldl vary s).costLimit = s.costLimit := by
  induction vs generalizing s with
  | nil => rfl
  | cons v vs ih => exact ih

end Search

/-- What the candidates that a stream gives have in common.  The first of them is the placeholder. -/
structure Candidates.Obeys (start : Search) (config : SearchConfig) (candidates : List Candidate) :
    Prop where
  ascending : candidates.Pairwise fun c d => c.cost ≤ d.cost
  distinct : config.distinctText = true → candidates.Pairwise fun c d => c.text ≠ d.text
  bounded : ∀ m, config.maxCost = some m → 0 ≤ m → ∀ c ∈ candidates, c.cost ≤ m
  rendered : ∀ c ∈ candidates.tail, start.Renders c

namespace Candidates

structure Record (start : Search) (config : SearchConfig) (seen : Std.HashSet String) (limit : Int)
    (candidates : List Candidate) : Prop where
  nonempty : candidates ≠ []
  ascending : candidates.Pairwise fun c d => c.cost ≤ d.cost
  distinct : config.distinctText = true → candidates.Pairwise fun c d => c.text ≠ d.text
  rendered : ∀ c ∈ candidates.tail, start.Renders c
  seen : ∀ c ∈ candidates, seen.contains c.text = true
  within : ∀ c ∈ candidates, c.cost ≤ limit
  allowed : ∀ m, config.maxCost = some m → 0 ≤ m → limit ≤ m

section Runs

variable {schema : Schema} {statement : Sql.Select Sql.Constant} {config : SearchConfig} {query : Component}
  {names : List String} {start search : Search} {s : Candidates} {cost limit : Int} {text : String}
  {texts : List String} {candidates : List Candidate} {seen : Std.HashSet String} {n fuel calls : Nat}

theorem Record.obeys (h : Record start config seen limit candidates) : Obeys start config candidates where
  ascending := h.ascending
  distinct := h.distinct
  bounded m hmax hm c hc := Int.le_trans (h.within c hc) (h.allowed m hmax hm)
  rendered := h.rendered

theorem Obeys.take (h : Obeys start config candidates) (n : Nat) :
    Obeys start config (candidates.take n) where
  ascending := h.ascending.sublist (List.take_sublist n candidates)
  distinct hdistinct := (h.distinct hdistinct).sublist (List.take_sublist n candidates)
  bounded m hmax hm c hc := h.bounded m hmax hm c (List.mem_of_mem_take hc)
  rendered c hc := h.rendered c ((List.take_sublist n candidates).tail.subset hc)

theorem Record.raise (h : Record start config seen limit candidates) (hcost : limit ≤ cost)
    (hallowed : ∀ m, config.maxCost = some m → 0 ≤ m → cost ≤ m) :
    Record start config seen cost candidates :=
  { h with
    within := fun c hc => Int.le_trans (h.within c hc) hcost
    allowed := hallowed }

theorem Record.offer (h : Record start s.config s.seen cost candidates)
    (htext : start.Renders ⟨text, cost⟩) :
    ∃ more, (s.offer cost text).ready = s.ready ++ more.map .ok ∧
      Record start s.config (s.offer cost text).seen cost (candidates ++ more) := by
  by_cases hseen : s.config.distinctText && s.seen.contains text
  · rw [Candidates.offer, if_pos hseen]
    exact ⟨[], (List.append_nil _).symm, (List.append_nil candidates).symm ▸ h⟩
  · rw [Candidates.offer, if_neg hseen]
    refine ⟨[⟨text, cost⟩], rfl, ?_⟩
    have hnew : s.config.distinctText = true → ∀ c ∈ candidates, c.text ≠ text := by
      intro hdistinct c hc heq
      exact hseen (by rw [hdistinct, ← heq, h.seen c hc]; rfl)
    exact {
      nonempty := List.append_ne_nil_of_left_ne_nil h.nonempty _
      ascending := List.pairwise_append.2 ⟨h.ascending, List.pairwise_singleton _ _,
        fun c hc d hd => List.mem_singleton.1 hd ▸ h.within c hc⟩
      distinct := fun hdistinct => List.pairwise_append.2 ⟨h.distinct hdistinct,
        List.pairwise_singleton _ _, fun c hc d hd => List.mem_singleton.1 hd ▸ hnew hdistinct c hc⟩
      rendered := by
        rw [List.tail_append_of_ne_nil h.nonempty, List.forall_mem_append, List.forall_mem_singleton]
        exact ⟨h.rendered, htext⟩
      seen := by
        rw [List.forall_mem_append, List.forall_mem_singleton]
        exact ⟨fun c hc => by simp [h.seen c hc], by simp⟩
      within := by
        rw [List.forall_mem_append, List.forall_mem_singleton]
        exact ⟨h.within, Int.le_refl cost⟩
      allowed := h.allowed }

theorem config_offer (s : Candidates) (cost : Int) (text : String) :
    (s.offer cost text).config = s.config := by
  rw [offer]
  split <;> rfl

theorem Record.offerAll (h : Record start s.config s.seen cost candidates)
    (htexts : ∀ text ∈ texts, start.Renders ⟨text, cost⟩) :
    ∃ more, (s.offerAll cost texts).ready = s.ready ++ more.map .ok ∧
      Record start s.config (s.offerAll cost texts).seen cost (candidates ++ more) := by
  induction texts generalizing s candidates with
  | nil => exact ⟨[], (List.append_nil _).symm, (List.append_nil candidates).symm ▸ h⟩
  | cons text texts ih =>
    obtain ⟨htext, htexts⟩ := List.forall_mem_cons.1 htexts
    obtain ⟨more, hready, hmore⟩ := h.offer htext
    rw [← config_offer s cost text] at hmore
    obtain ⟨rest, hready', hrest⟩ := ih hmore htexts
    rw [config_offer] at hrest
    refine ⟨more ++ rest, ?_, ?_⟩
    · rw [Candidates.offerAll, List.foldl_cons]
      refine hready'.trans ?_
      rw [hready, List.map_append, List.append_assoc]
    · rw [← List.append_assoc]
      exact hrest

structure Recorded (start : Search) (config : SearchConfig) (s : Candidates) (n : Nat)
    (candidates : List Candidate) : Prop where
  config_eq : (s.asked n).config = config
  told : s.told n ++ (s.asked n).ready = candidates.map .ok
  record : ∃ limit, Record start config (s.asked n).seen limit candidates ∧
    ∀ t, (s.asked n).search = some t → start.Reaches t ∧ limit ≤ t.costLimit ∧
      ∀ m, config.maxCost = some m → 0 ≤ m → t.costLimit ≤ m

theorem Recorded.ask (h : Recorded start config s n candidates) :
    ∃ candidates, Recorded start config s (n + 1) candidates := by
  obtain ⟨rfl, htold, limit, hrecord, hsearch⟩ := h
  obtain ⟨item, rest, hready, hask⟩ | ⟨search, hready, hnow, hask⟩ | ⟨hexhausted, hask⟩ :=
    ask_cases (s.asked n)
  · refine ⟨candidates, ?_, ?_, limit, ?_⟩
    · rw [asked, hask]
    · rw [Candidates.told, asked, hask, ← htold, hready, Answer.items, List.append_assoc]
      rfl
    · rw [asked, hask]
      exact ⟨hrecord, hsearch⟩
  · obtain ⟨hreached, hlimit, hallowed⟩ := hsearch search hnow
    obtain ⟨more, hmore, hrecord⟩ := (hrecord.raise hlimit hallowed).offerAll
      fun text htext => hreached.renders_step htext
    refine ⟨candidates ++ more, ?_, ?_, search.costLimit, ?_, ?_⟩
    · rw [asked, hask]
      exact config_offerAll
    · rw [hready, List.append_nil] at htold
      rw [Candidates.told, asked, hask, htold, Answer.items, List.append_nil, List.map_append]
      refine congrArg _ (hmore.trans ?_)
      rw [hready, List.nil_append]
    · rw [asked, hask]
      exact hrecord
    · rw [asked, hask]
      intro t ht
      have ht : (if isOver (s.asked n).config search.step.2 then none else some search.step.2) = some t :=
        ht
      split at ht
      · cases ht
      · rename_i hover
        cases ht
        refine ⟨hreached.step, Search.costLimit_le_step, fun m hmax hm => ?_⟩
        rw [isOver, hmax] at hover
        simpa using hover
  · refine ⟨candidates, ?_, ?_, limit, ?_⟩
    · rw [asked, hask]
    · rw [Candidates.told, asked, hask, Answer.items, List.append_nil]
      exact htold
    · rw [asked, hask]
      exact ⟨hrecord, hsearch⟩

theorem recorded_ofStatement (h : (statement.toQuery schema 0).1 = .ok (query, names)) :
    ∃ candidates, Recorded (Search.start query names config) config (ofStatement schema statement config) 0
      candidates := by
  have hfirst : Record (Search.start query names config)
      (Candidates.offer 0 ⟨config, [], none, {}⟩ (placeholder statement.items.length)).config
      (Candidates.offer 0 ⟨config, [], none, {}⟩ (placeholder statement.items.length)).seen 0
      [⟨placeholder statement.items.length, 0⟩] := by
    constructor <;> simp [Candidates.offer]
  obtain ⟨more, hready, hrecord⟩ := hfirst.offerAll
    fun text htext => Search.renders_initialTexts (s := Search.start query names config) htext rfl
  rw [(ready_placeholder _).1] at hready
  rw [(ready_placeholder _).2] at hrecord
  refine ⟨[⟨placeholder statement.items.length, 0⟩] ++ more, config_ofStatement, ?_, 0, ?_, ?_⟩
  · rw [asked, told, ofStatement_eq h, List.nil_append, List.map_append, List.map_singleton]
    dsimp only
    exact hready
  · rw [asked, ofStatement_eq h]
    dsimp only
    exact hrecord
  · rw [asked, ofStatement_eq h]
    intro t ht
    rw [← Option.some.inj ht]
    have hlimit : (Search.start query names config).varyAll.costLimit = 0 := Search.costLimit_foldl_vary _
    rw [hlimit]
    exact ⟨Search.reaches_varyAll, Int.le_refl 0, fun m _ hm => hm⟩

theorem exists_recorded (config : SearchConfig) (h : (statement.toQuery schema 0).1 = .ok (query, names))
    (n : Nat) :
    ∃ candidates, Recorded (Search.start query names config) config (ofStatement schema statement config) n
      candidates := by
  induction n with
  | zero => exact recorded_ofStatement h
  | succ n ih =>
    obtain ⟨candidates, hcandidates⟩ := ih
    exact hcandidates.ask

theorem told_obeys (h : (statement.toQuery schema 0).1 = .ok (query, names)) (n : Nat) :
    ∃ candidates : List Candidate, (ofStatement schema statement config).told n = candidates.map .ok ∧
      Obeys (Search.start query names config) config candidates := by
  obtain ⟨candidates, _, htold, limit, hrecord, _⟩ := exists_recorded config h n
  refine ⟨candidates.take ((ofStatement schema statement config).told n).length, ?_, hrecord.obeys.take _⟩
  rw [List.map_take, ← htold, List.take_left']
  rfl

theorem given_of_pair {first second : Except SearchError Candidate} (hready : s.ready = [first, second])
    (hsearch : s.search = none) (fuel calls : Nat) :
    s.given (fuel + 1) (calls + 2) = [first, second] ∧ (s.pulled (fuel + 1) (calls + 2)).IsExhausted := by
  induction calls with
  | zero =>
    have hfirst : s.next (fuel + 1) = (.item first, { s with ready := [second] }) := next_of_ready hready
    have hsecond : ({ s with ready := [second] } : Candidates).next (fuel + 1) =
        (.item second, { s with ready := [] }) :=
      next_of_ready rfl
    simp only [given, pulled, hfirst, hsecond]
    exact ⟨rfl, rfl, hsearch⟩
  | succ calls ih =>
    obtain ⟨hgiven, hexhausted⟩ := ih
    have hlast : s.pulled (fuel + 1) (calls + 1 + 2) =
        ((s.pulled (fuel + 1) (calls + 2)).next (fuel + 1)).2 := rfl
    rw [given, hgiven, hlast, hexhausted.next]
    exact ⟨rfl, hexhausted⟩

/-- What any number of calls give.  The first item is the placeholder.  For a statement that has no query
the error follows and then the end; otherwise there is no error, costs do not go down, no text comes twice
where texts are to be distinct, no cost is above a limit that is not negative, and behind the placeholder
all are texts of queries that cost no more. -/
theorem given_obeys (schema : Schema) (statement : Sql.Select Sql.Constant) (config : SearchConfig)
    (fuel calls : Nat) :
    ((ofStatement schema statement config).next (fuel + 1)).1 =
        .item (.ok ⟨placeholder statement.items.length, 0⟩) ∧
      (∀ e, (statement.toQuery schema 0).1 = .error e →
        (ofStatement schema statement config).given (fuel + 1) (calls + 2) =
            [.ok ⟨placeholder statement.items.length, 0⟩, .error ⟨e⟩] ∧
          (((ofStatement schema statement config).pulled (fuel + 1) (calls + 2)).next (fuel + 1)).1 =
            .ended) ∧
      ∀ query names, (statement.toQuery schema 0).1 = .ok (query, names) →
        ∃ candidates : List Candidate,
          (ofStatement schema statement config).given fuel calls = candidates.map .ok ∧
            Obeys (Search.start query names config) config candidates := by
  refine ⟨?_, fun e h => ?_, fun query names h => ?_⟩
  · obtain ⟨rest, hready⟩ := ready_ofStatement schema statement config
    rw [next_of_ready hready]
  · obtain ⟨hready, hsearch⟩ := ofStatement_error config h
    obtain ⟨hgiven, hexhausted⟩ := given_of_pair hready hsearch fuel calls
    exact ⟨hgiven, congrArg Prod.fst hexhausted.next⟩
  · obtain ⟨n, _, hgiven, _⟩ := pulled_asked (ofStatement schema statement config) fuel calls
    rw [hgiven]
    exact told_obeys h n

end Runs

open Search (scanCounts scanCountQuery parcelTables toQuery_scanCounts)

theorem given_obeys_scanCounts :
    (scanCounts.toQuery parcelTables 0).1 = .ok (scanCountQuery, ["id", "tmp"]) ∧
      (∃ candidates : List Candidate,
        (ofStatement parcelTables scanCounts { maxCost := some 1 }).given 7 100 = candidates.map .ok ∧
          Obeys (Search.start scanCountQuery ["id", "tmp"] { maxCost := some 1 }) { maxCost := some 1 }
            candidates) ∧
      (scanCounts.toQuery (.ofDefs []) 0).1 = .error (.unknownTable "parcels") ∧
      (ofStatement (.ofDefs []) scanCounts {}).given 1 5 =
        [.ok ⟨placeholder 2, 0⟩, .error ⟨.unknownTable "parcels"⟩] := by
  have herror : (scanCounts.toQuery (.ofDefs []) 0).1 = .error (.unknownTable "parcels") := by cbv
  obtain ⟨_, _, hquery⟩ := given_obeys parcelTables scanCounts { maxCost := some 1 } 7 100
  obtain ⟨_, hnone, _⟩ := given_obeys (.ofDefs []) scanCounts {} 0 3
  exact ⟨toQuery_scanCounts, hquery _ _ toQuery_scanCounts, herror, (hnone _ herror).1⟩

end Candidates

end QuerySearch
