import QuerySearch.Proofs.Enumerate.Grouped

/-! A larger budget.  Every slot then has more to choose from, so all composites of parts are found again, in
the same order.  A query is not: its select list is all that can be paid for, and with more items it is
another query. -/

namespace QuerySearch

structure Remainder.Ampler (r r' : Remainder) : Prop where
  budget : r.budget ≤ r'.budget
  model : r.model = r'.model

def Grows (find : Remainder → List Component) : Prop :=
  ∀ r r', r.Ampler r' → (find r).Sublist (find r')

theorem sublist_combinations {α : Type} {xs ys : List α} (h : xs.Sublist ys) (k : Nat) :
    (combinations k xs).Sublist (combinations k ys) := by
  induction h generalizing k with
  | slnil => exact List.Sublist.refl _
  | cons y _ ih =>
    cases k with
    | zero => simp [combinations]
    | succ k => exact (ih (k + 1)).trans (List.sublist_append_right _ _)
  | cons_cons x _ ih =>
    cases k with
    | zero => simp [combinations]
    | succ k => exact ((ih k).map _).append (ih (k + 1))

namespace Grows

variable {find : Remainder → List Component}

theorem nil : Grows fun _ => [] := fun _ _ _ => List.Sublist.refl []

theorem map (h : Grows find) (f : Component → Component) : Grows fun r => (find r).map f :=
  fun r r' hr => (h r r' hr).map f

theorem filter (h : Grows find) (p : Component → Bool) : Grows fun r => (find r).filter p :=
  fun r r' hr => (h r r' hr).filter p

theorem flatMap (h : Grows find) (f : Component → List Component) : Grows fun r => (find r).flatMap f :=
  fun r r' hr => (h r r' hr).flatMap f

theorem lists (h : Grows find) (w : Workshop) (of : List Component → Component) :
    Grows fun r => (w.lists (find r)).map of := fun r r' hr =>
  (List.Sublist.flatMap_right _ fun k _ => sublist_combinations (h r r' hr) (k + 1)).map of

end Grows

namespace Workshop

variable {w : Workshop} {r r' : Remainder} {slot : Category} {rs : List Requirement} {c : Component}
  {kind : Kind} {budget budget' : Int} {find : Remainder → List Component}

section Slots

theorem ampler_start (h : budget ≤ budget') : (w.start budget).Ampler (w.start budget') := ⟨h, rfl⟩

theorem ampler_after (h : r.Ampler r') (c : Component) : (w.after r c).Ampler (w.after r' c) where
  budget := Int.sub_le_sub_right h.budget _
  model := by rw [after, after, h.model]

theorem grows_pick : Grows fun r => w.pick r slot rs := by
  intro r r' h
  refine List.Sublist.flatMap_right _ fun k _ => ?_
  simp only [Array.toList_filter]
  refine List.monotone_filter_right _ fun c hc => ?_
  simp only [Bool.and_eq_true, decide_eq_true_eq] at hc ⊢
  exact ⟨hc.1, h.model ▸ hc.2.trans h.budget⟩

theorem grows_fill {next : Component → Remainder → List Component} (h : ∀ c, Grows (next c)) :
    Grows fun r => w.fill r slot rs next := fun r r' hr =>
  (List.Sublist.flatMap_right _ fun c _ => h c _ _ (ampler_after hr c)).trans
    (grows_pick.flatMap (fun c => next c (w.after r' c)) r r' hr)

end Slots

section Parts

theorem grows_aggregates {build : AggFunc → Component → List Component} :
    Grows fun r => w.aggregates r build := by
  refine grows_fill fun f => ?_
  cases f with
  | aggFunc func => exact grows_pick.flatMap _
  | _ => exact .nil

theorem grows_windowChains : Grows w.windowChains := by
  refine grows_fill fun f => ?_
  cases f with
  | windowFunc func => exact grows_pick.map _
  | _ => exact .nil

theorem grows_sortItems : Grows w.sortItems := grows_fill fun _ => grows_pick.flatMap _

theorem grows_comparisons : Grows w.comparisons := by
  refine grows_fill fun o => ?_
  cases o with
  | compareOp op =>
    refine grows_fill fun lhs => ?_
    split
    · exact grows_pick.map _
    · exact .nil
  | _ => exact .nil

theorem grows_connections : Grows w.connections := by
  refine grows_fill fun o => ?_
  cases o with
  | logicOp op => exact grows_fill fun _ => grows_pick.map _
  | _ => exact .nil

theorem grows_windowCalls {call : Kind} {build : Component → Component → Component → Component} :
    Grows fun r => w.windowCalls r call rs build := by
  refine grows_fill fun func => ?_
  refine grows_fill fun partition => ?_
  exact (grows_pick.filter _).map _

theorem grows_joins : Grows w.joins := by
  refine grows_fill fun left => ?_
  refine grows_fill fun right => ?_
  refine grows_fill fun t => ?_
  cases t with
  | joinType type => exact grows_pick.map _
  | _ => exact .nil

theorem accepts_mono (h : budget ≤ budget') (hc : w.accepts budget c = true) : w.accepts budget' c = true := by
  simp only [accepts, Bool.and_eq_true, decide_eq_true_eq] at hc ⊢
  exact ⟨hc.1.trans h, hc.2⟩

theorem sublist_accepted (h : Grows find) (hle : budget ≤ budget') :
    ((find (w.start budget)).filter (w.accepts budget)).Sublist
      ((find (w.start budget')).filter (w.accepts budget')) :=
  (List.monotone_filter_right _ fun _ => accepts_mono hle).trans ((h.filter _) _ _ (ampler_start hle))

theorem sublist_build (hle : budget ≤ budget') (hkind : kind ≠ .query) :
    (w.build kind budget).Sublist (w.build kind budget') := by
  cases kind with
  | aggChain | aggregation => exact sublist_accepted grows_aggregates hle
  | windowChain => exact sublist_accepted grows_windowChains hle
  | partitionList | groupList | sortList => exact sublist_accepted (grows_pick.lists w _) hle
  | windowClause => exact sublist_accepted (grows_pick.flatMap _) hle
  | sortItem => exact sublist_accepted grows_sortItems hle
  | connection => exact sublist_accepted grows_connections hle
  | comparison => exact sublist_accepted grows_comparisons hle
  | aggWindow | funcWindow => exact sublist_accepted grows_windowCalls hle
  | tableSource => exact (grows_pick.map _).filter _ _ _ (ampler_start hle)
  | querySource => exact sublist_accepted (grows_pick.map _) hle
  | join => exact sublist_accepted grows_joins hle
  | query => exact absurd rfl hkind
  | _ => exact List.Sublist.refl _

end Parts

end Workshop

section Queries

theorem ItemRequirement.eq_of_holds {groupBy having c : Component} {last last' : Requirement}
    (h : ItemRequirement groupBy having last) (h' : ItemRequirement groupBy having last')
    (hc : last.holds c = true) (hc' : last'.holds c = true) : last = last' := by
  cases h <;> cases h' <;> simp_all [Requirement.holds]

theorem QueryBody.eq_of_query_eq {body body' : QueryBody} {items items' : List Component}
    {orderBy orderBy' : Component} {isDistinct isDistinct' : Bool}
    (h : body.query items orderBy isDistinct = body'.query items' orderBy' isDistinct') :
    body = body' ∧ items = items' := by
  obtain ⟨source, filter, groupBy, having⟩ := body
  obtain ⟨source', filter', groupBy', having'⟩ := body'
  cases h
  exact ⟨rfl, rfl⟩

namespace Workshop

variable {w : Workshop} {r r' : Remainder} {q : Component} {budget budget' : Int} {body : QueryBody}
  {items parts : List Component} {orderBy : Component} {isDistinct skipsPlain : Bool} {last : Requirement}

/-- A select list of everything that is offered to the clauses. -/
def Offers (w : Workshop) (budget : Int) (body : QueryBody) (items : List Component) : Prop :=
  ∃ last, ItemRequirement body.groupBy body.having last ∧ w.offered budget body last = items

theorem Affords.ampler (h : w.Affords r parts) (hr : r.Ampler r') : w.Affords r' parts := by
  induction parts generalizing r r' with
  | nil => trivial
  | cons c cs ih => exact ⟨hr.model ▸ h.1.trans hr.budget, ih h.2 (ampler_after hr c)⟩

theorem ampler_left (hle : budget ≤ budget') (body : QueryBody) :
    (w.left budget body).Ampler (w.left budget' body) := by
  simp only [left, QueryBody.clauses, List.foldl]
  exact ampler_after (ampler_after (ampler_after (ampler_after (ampler_start hle) _) _) _) _

theorem exists_of_mem_queries (h : q ∈ w.queries budget) : ∃ body items orderBy isDistinct,
    q = body.query items orderBy isDistinct ∧ w.Offers budget body items := by
  obtain ⟨body, _, _, last, hlast, h⟩ := mem_queries_iff.1 h
  obtain ⟨_, orderBy, isDistinct, _, rfl, _⟩ := mem_completions_iff.1 h
  exact ⟨body, _, orderBy, isDistinct, rfl, last, hlast, rfl⟩

theorem mem_completions_mono (hle : budget ≤ budget') (hr : r.Ampler r')
    (h : q ∈ w.completions r budget body skipsPlain items) : q ∈ w.completions r' budget' body skipsPlain items := by
  obtain ⟨hne, orderBy, isDistinct, horder, hq, haccepts, hplain⟩ := mem_completions_iff.1 h
  have horder' := (grows_pick _ _ (ampler_after hr _)).subset horder
  exact mem_completions_iff.2 ⟨hne, orderBy, isDistinct, horder', hq, accepts_mono hle haccepts, hplain⟩

theorem offered_holds : ∀ c ∈ w.offered budget body last, last.holds c = true :=
  fun _ hc => (mem_pick hc).holds (.tail _ (.tail _ (.head _)))

theorem mem_queries_of_le (hle : budget ≤ budget') (h : body.query items orderBy isDistinct ∈ w.queries budget) :
    body.query items orderBy isDistinct ∈ w.queries budget' ↔ w.Offers budget' body items := by
  constructor
  · intro h'
    obtain ⟨_, _, _, _, heq, hoffers⟩ := exists_of_mem_queries h'
    obtain ⟨rfl, rfl⟩ := QueryBody.eq_of_query_eq heq
    exact hoffers
  · rintro ⟨last', hlast', hoffered'⟩
    obtain ⟨_, hbody, hafford, last, hlast, hmem⟩ := mem_queries_iff.1 h
    obtain ⟨hne, _, _, _, heq, _⟩ := mem_completions_iff.1 hmem
    obtain ⟨rfl, hoffered⟩ := QueryBody.eq_of_query_eq heq
    rw [← hoffered] at hmem hne
    have hsame : last = last' := by
      obtain ⟨c, hc⟩ := List.exists_mem_of_ne_nil _ hne
      exact hlast.eq_of_holds hlast' (offered_holds c (hoffered ▸ hc)) (offered_holds c (hoffered' ▸ hc))
    subst hsame
    refine mem_queries_iff.2 ⟨body, hbody, hafford.ampler (ampler_start hle), last, hlast, ?_⟩
    rw [hoffered']
    exact mem_completions_mono hle (ampler_left hle body) hmem

/-- Whatever is built within a budget is built within a larger one, in the same order, except for queries.  A
query is built again just if its select list is then still all that is offered to its clauses. -/
theorem build_of_le (w : Workshop) (hle : budget ≤ budget') :
    (∀ kind, kind ≠ .query → (w.build kind budget).Sublist (w.build kind budget')) ∧
    ∀ q ∈ w.build .query budget, ∃ body items orderBy isDistinct, q = body.query items orderBy isDistinct ∧
      w.Offers budget body items ∧ (q ∈ w.build .query budget' ↔ w.Offers budget' body items) := by
  refine ⟨fun kind => sublist_build hle, fun q hq => ?_⟩
  obtain ⟨body, items, orderBy, isDistinct, rfl, hoffers⟩ := exists_of_mem_queries hq
  exact ⟨body, items, orderBy, isDistinct, rfl, hoffers, mem_queries_of_le hle hq⟩

section Moorings

open Component

def moorings : Table := ⟨"moorings", [("pier", .number)], 0⟩

def pier : Component := .column moorings "pier" .number

def mooringsSource : Component := .tableSource (.table moorings) none

def mooringsBody : QueryBody := ⟨mooringsSource, .absent, .absent, .absent⟩

/-- `SELECT DISTINCT pier FROM moorings` -/
def piers : Component := mooringsBody.query [pier] .absent true

def mooringsParts : List Component := [mooringsSource, .absent, pier, .int 7]

def mooringsWorkshop : Workshop := ⟨.ofList mooringsParts, .ofQuery piers, {}⟩

theorem mooringsKinds : mooringsSource.kind = .tableSource ∧ Component.absent.kind = .absent ∧
    pier.kind = .column ∧ (int 7).kind = .int ∧ piers.kind = .query := by
  simp only [kind_eq_iff]
  decide

theorem ofKind_moorings (k : Kind) :
    mooringsWorkshop.bank.ofKind k = mooringsParts.filter fun c => c.kind == k := by
  refine Bank.ofKind_ofList (Bank.pairwise_of_kinds ?_) k
  simp only [mooringsParts, List.map, mooringsKinds]
  decide

theorem moorings_costs : mooringsWorkshop.estimator.cost mooringsSource = 0 ∧
    mooringsWorkshop.estimator.cost .absent = 0 ∧ mooringsWorkshop.estimator.cost piers = 0 ∧
    mooringsWorkshop.estimator.costUnder (mooringsWorkshop.left 0 mooringsBody).model pier = 0 ∧
    mooringsWorkshop.estimator.costUnder (mooringsWorkshop.left 0 mooringsBody).model (int 7) = 1 := by
  simp only [mooringsWorkshop, mooringsBody, left, QueryBody.clauses, QueryBody.query, List.foldl, after, start,
    piers, pier, mooringsSource, Estimator.cost, Estimator.ofQuery, counter, terminals, List.map,
    Estimator.costUnder_eq]
  decide +kernel

theorem isSuppliedBy_moorings : ∀ c ∈ [pier, .int 7, .absent], c.isSuppliedBy mooringsSource.providedKeys = true := by
  simp [isSuppliedBy, mooringsSource, pier, moorings, providedKeys, requiredKeys]

theorem left_moorings {budget : Int} : (mooringsWorkshop.left budget mooringsBody).budget = budget := by
  obtain ⟨hsource, habsent, _⟩ := moorings_costs
  simp [left, QueryBody.clauses, mooringsBody, after, start, hsource, habsent]

theorem offered_moorings {budget : Int} (hbudget : 0 ≤ budget) :
    mooringsWorkshop.offered budget mooringsBody .notAggregation = pier :: if 1 ≤ budget then [.int 7] else [] := by
  have hshelf (k : Kind) : (mooringsWorkshop.bank.shelf k).toList = mooringsParts.filter fun c => c.kind == k :=
    ofKind_moorings k
  have hkinds : Kind.all.filter Category.selectItem.admits =
      [.column, .aggChain, .windowChain, .int, .float, .str, .absent, .aggregation, .aggWindow, .funcWindow] := by
    decide
  have hcosts : mooringsWorkshop.estimator.costUnder (mooringsWorkshop.left budget mooringsBody).model pier = 0 ∧
      mooringsWorkshop.estimator.costUnder (mooringsWorkshop.left budget mooringsBody).model (int 7) = 1 :=
    moorings_costs.2.2.2
  have hsource : mooringsBody.source = mooringsSource := rfl
  have hsupplied := isSuppliedBy_moorings
  simp only [List.forall_mem_cons] at hsupplied
  by_cases hseven : 1 ≤ budget
  all_goals simp [offered, pick, Bank.select, hkinds, hshelf, mooringsParts, mooringsKinds, Requirement.allHold,
    Requirement.holds, isAbsent, hsupplied, hsource, hcosts, left_moorings, hbudget, hseven]

theorem fits_moorings {slot : Category} {rs : List Requirement} {c : Component} :
    mooringsWorkshop.Fits slot rs c ↔ c ∈ mooringsParts ∧ slot.admits c.kind ∧ Requirement.allHold c rs := by
  simp only [Fits, ofKind_moorings, List.mem_filter, beq_iff_eq]
  constructor
  · rintro ⟨⟨_, hslot, hc, rfl⟩, hrs⟩
    exact ⟨hc, hslot, hrs⟩
  · rintro ⟨hc, hslot, hrs⟩
    exact ⟨⟨c.kind, hslot, hc, rfl⟩, hrs⟩

theorem affords_piers : mooringsWorkshop.Affords (mooringsWorkshop.start 0)
    (mooringsBody.clauses ++ [.select [pier], .absent]) := by
  refine affords_of_model (Int.le_refl 0) (fun f => ?_) fun f => Nat.le_refl _
  refine Nat.le_trans ?_ (Estimator.get_le_ofQuery f)
  rw [piers, QueryBody.query, counter]
  simp [QueryBody.clauses, mooringsBody]
  omega

theorem builtBody_moorings : BuiltBody mooringsWorkshop mooringsBody := by
  have hgrouped : isGroupedBy (groupKeys .absent) .absent = true := by
    rw [isGroupedBy, mooringsKinds.2.1]
    · rfl
    all_goals simp
  have hdepth : mooringsSource.depth = 0 := by
    simp [mooringsSource, depth]
  constructor
  all_goals
    rw [fits_moorings]
    simp [mooringsParts, mooringsBody, mooringsKinds, Category.admits, Requirement.allHold, Requirement.holds,
      isSuppliedBy, requiredKeys, hasNoAggregation, hgrouped, hdepth]

theorem mem_build_piers : piers ∈ mooringsWorkshop.build .query 0 := by
  have habsent : Component.absent.isAbsent = true := by
    simp [isAbsent, mooringsKinds]
  have hnew : mooringsWorkshop.bank.contains piers = false :=
    Bank.contains_ofList_of_kinds (by simp [mooringsParts, mooringsKinds])
  have haccepts : mooringsWorkshop.accepts 0 piers = true := by
    simp [accepts, hnew, moorings_costs]
  refine mem_build_of_affords builtBody_moorings affords_piers (.plain habsent habsent)
    (offered_moorings (Int.le_refl 0)) (List.cons_ne_nil _ _) ?_ haccepts ?_
  · rw [fits_moorings]
    simp [mooringsParts, mooringsKinds, Category.admits, Requirement.allHold, Requirement.holds, isSuppliedBy,
      requiredKeys]
  · intro _
    simp [QueryBody.query, isPlainSelect]

theorem build_of_le_moorings : (0 : Int) ≤ 1 ∧ piers ∈ mooringsWorkshop.build .query 0 ∧
    (∀ kind, kind ≠ .query → (mooringsWorkshop.build kind 0).Sublist (mooringsWorkshop.build kind 1)) ∧
    ∀ q ∈ mooringsWorkshop.build .query 0, ∃ body items orderBy isDistinct,
      q = body.query items orderBy isDistinct ∧ mooringsWorkshop.Offers 0 body items ∧
      (q ∈ mooringsWorkshop.build .query 1 ↔ mooringsWorkshop.Offers 1 body items) :=
  ⟨by decide, mem_build_piers, build_of_le mooringsWorkshop (by decide)⟩

theorem eq_of_fits_moorings {slot : Category} {rs : List Requirement} {c : Component}
    (h : mooringsWorkshop.Fits slot rs c) :
    (slot = .source → c = mooringsSource) ∧
    (slot = .predicate ∨ slot = .groupBy ∨ slot = .orderBy → c = .absent) ∧ c.kind ≠ .aggregation := by
  obtain ⟨hc, hslot, _⟩ := fits_moorings.1 h
  simp only [mooringsParts, List.mem_cons, List.not_mem_nil, or_false] at hc
  obtain rfl | rfl | rfl | rfl := hc
  all_goals
    refine ⟨?_, ?_, by simp [mooringsKinds]⟩
    · rintro rfl
      simp [Category.admits, mooringsKinds] at hslot ⊢
    · rintro (rfl | rfl | rfl)
      all_goals simp [Category.admits, mooringsKinds] at hslot ⊢

/-- Within a budget of 1 only queries that select 7 as well are found. -/
theorem fingerprint_ne_piers : piers ∈ mooringsWorkshop.build .query 0 ∧
    ∀ q ∈ mooringsWorkshop.build .query 1, q.fingerprint ≠ piers.fingerprint := by
  refine ⟨mem_build_piers, fun q hq => ?_⟩
  have hne (isDistinct : Bool) :
      (mooringsBody.query [pier, .int 7] .absent isDistinct).fingerprint ≠ piers.fingerprint := by
    simp only [piers, mooringsBody, QueryBody.query, pier, mooringsSource, fingerprint, keys, Keys.same, List.map]
    cases isDistinct
    all_goals decide +kernel
  obtain ⟨⟨source, filter, groupBy, having⟩, hbody, _, last, hlast, hq⟩ := mem_queries_iff.1 hq
  obtain ⟨hitems, orderBy, isDistinct, horder, rfl, _⟩ := mem_completions_iff.1 hq
  obtain rfl := (eq_of_fits_moorings hbody.source).1 rfl
  obtain rfl := (eq_of_fits_moorings hbody.filter).2.1 (.inl rfl)
  obtain rfl := (eq_of_fits_moorings hbody.groupBy).2.1 (.inr (.inl rfl))
  obtain rfl := (eq_of_fits_moorings hbody.having).2.1 (.inl rfl)
  obtain rfl := (eq_of_fits_moorings (mem_pick horder)).2.1 (.inr (.inr rfl))
  cases hlast with
  | aggregations =>
    obtain ⟨c, hc⟩ := List.exists_mem_of_ne_nil _ hitems
    exact absurd (beq_iff_eq.1 (offered_holds c hc)) (eq_of_fits_moorings (mem_pick hc)).2.2
  | plain =>
    have hoffered := offered_moorings (show (0 : Int) ≤ 1 by decide)
    rw [mooringsBody] at hoffered
    rw [hoffered]
    exact hne isDistinct
  | grouped hpresent => simp [isAbsent, mooringsKinds] at hpresent

end Moorings

end Workshop

end Queries

end QuerySearch
