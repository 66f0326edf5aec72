import QuerySearch.Proofs.Resolve.Chains
import QuerySearch.Proofs.Search.Shelves
import QuerySearch.Proofs.Search.Start

/-! The columns of a grouped query.  What its select list and HAVING use outside of aggregations are groups,
except inside window calls, into which nothing looks. -/

namespace QuerySearch

namespace Component

mutual

/-- The chains in a select item or a condition that are read in each row of the groups: all but those that
an aggregation without a window is over. -/
def looseChains : Component → List Component
  | .column t name type => [.column t name type]
  | .aggChain func arg => [.aggChain func arg]
  | .windowChain func arg => [.windowChain func arg]
  | .aggWindow (.aggregation _ arg _) partition orderBy =>
    arg.looseChains ++ partition.looseChains ++ orderBy.looseChains
  | .aggWindow call partition orderBy | .funcWindow call partition orderBy =>
    call.looseChains ++ partition.looseChains ++ orderBy.looseChains
  | .partitionList items | .groupList items | .sortList items => looseChainsOfAll items
  | .sortItem chain _ => chain.looseChains
  | .comparison l _ r => l.looseChains ++ r.looseChains
  | .connection l _ r => l.looseChains ++ r.looseChains
  | .named item _ => item.looseChains
  | _ => []

def looseChainsOfAll : List Component → List Component
  | [] => []
  | c :: cs => c.looseChains ++ looseChainsOfAll cs

end

def operands : Component → List Component
  | .comparison l _ r => l.operands ++ r.operands
  | .connection l _ r => l.operands ++ r.operands
  | c => [c]

section Operands

variable {c d o : Component} {keys : List Fingerprint}

theorem isGroupedBy_operand : {c : Component} → c.isGroupedBy keys = true → ∀ o ∈ c.operands,
    o.isGroupedBy keys = true
  | .comparison l _ r, h, o, ho | .connection l _ r, h, o, ho => by
    have h := Bool.and_eq_true_iff.1 h
    cases List.mem_append.1 ho with
    | inl ho => exact isGroupedBy_operand h.1 o ho
    | inr ho => exact isGroupedBy_operand h.2 o ho
  | .table _, h, o, ho | .column .., h, o, ho | .aggChain .., h, o, ho | .windowChain .., h, o, ho
  | .int _, h, o, ho | .float _, h, o, ho | .str _, h, o, ho | .absent, h, o, ho | .distinct, h, o, ho
  | .compareOp _, h, o, ho | .logicOp _, h, o, ho | .joinType _, h, o, ho | .aggFunc _, h, o, ho
  | .windowFunc _, h, o, ho | .sortDir _, h, o, ho | .aggregation .., h, o, ho | .windowClause _, h, o, ho
  | .aggWindow .., h, o, ho | .funcWindow .., h, o, ho | .partitionList _, h, o, ho | .groupList _, h, o, ho
  | .sortItem .., h, o, ho | .sortList _, h, o, ho | .select _, h, o, ho | .named .., h, o, ho
  | .tableSource .., h, o, ho | .querySource .., h, o, ho | .join .., h, o, ho | .query .., h, o, ho
  | .boundColumn .., h, o, ho => by
    rw [List.mem_singleton.1 ho]
    exact h

theorem grouped_of_value (hvalue : Category.value.admits o.kind = true) (h : o.isGroupedBy keys = true)
    (hd : d ∈ o.looseChains) : d.fingerprint ∈ keys := by
  have hreferencable (hkind : o.kind.isReferencable = true)
      (h : (!o.kind.isReferencable || keys.contains o.fingerprint) = true) : o.fingerprint ∈ keys := by
    simpa [hkind] using h
  cases o with
  | column | aggChain | windowChain =>
    rw [List.mem_singleton.1 hd]
    exact hreferencable ((kind_isReferencable_iff _).2 nofun) h
  | aggWindow | funcWindow | partitionList | groupList | sortItem | sortList | comparison | connection
  | named =>
    rw [kind, fingerprint_eq] at hvalue
    cases hvalue
  | _ => cases hd

end Operands

end Component

namespace Workshop

variable {cs : List Component} {e : Estimator} {limits : Limits} {budget : Int}
  {sel source filter having orderBy c : Component} {groups : List Component} {isDistinct : Bool}

/-- The chains that a grouped query reads in its select list and in HAVING are groups, unless they are read
in a window call. -/
theorem looseChains_grouped
    (h : .query sel source filter (.groupList groups) having orderBy isDistinct ∈
      Workshop.build ⟨.ofList cs, e, limits⟩ .query budget) :
    (∀ c ∈ sel.children, (∀ d ∈ c.looseChains, d.fingerprint ∈ groups.map Component.fingerprint) ∨
      c.kind = .aggWindow ∨ c.kind = .funcWindow) ∧
    ∀ o ∈ having.operands, (∀ d ∈ o.looseChains, d.fingerprint ∈ groups.map Component.fingerprint) ∨
      Category.value.admits o.kind = false := by
  have horderly := Bank.orderly_ofList cs
  generalize hq : Component.query sel source filter (.groupList groups) having orderBy isDistinct = q at h
  cases build_built h with
  | @query items source filter groupBy having orderBy isDistinct last hsource hfilter hgroup hhaving hlast
      hitems =>
    cases hq
    have hitem : ∀ c ∈ items, c.isGroupedBy (groups.map Component.fingerprint) = true := by
      intro c hc
      have hpresent : (Component.groupList groups).isAbsent ≠ true := by
        simp [Component.isAbsent_iff]
      cases hlast with
      | aggregations habsent | plain habsent => exact absurd habsent hpresent
      | grouped => exact (hitems c hc).holds (.tail _ (.tail _ (.head _)))
    refine ⟨fun c hc => ?_, fun o ho => ?_⟩
    · have hslot := (hitems c hc).admits horderly
      by_cases hvalue : Category.value.admits c.kind = true
      · exact .inl fun d hd => Component.grouped_of_value hvalue (hitem c hc) hd
      · refine .inr ?_
        simp only [Category.admits, Bool.or_eq_true, beq_iff_eq, not_or] at hslot hvalue
        tauto
    · by_cases hvalue : Category.value.admits o.kind = true
      · have hgrouped := Component.isGroupedBy_operand (hhaving.holds (.tail _ (.head _))) o ho
        exact .inl fun d hd => Component.grouped_of_value hvalue hgrouped hd
      · exact .inr (by simpa using hvalue)
  | _ => cases hq

theorem affords_of_model {w : Workshop} {r : Remainder} {parts : List Component} (hbudget : 0 ≤ r.budget)
    (hparts : ∀ f, (parts.map fun c => c.counter.get f).sum ≤ r.model.get f)
    (hmodel : ∀ f, r.model.get f ≤ w.estimator.model.get f) : w.Affords r parts := by
  induction parts generalizing r with
  | nil => trivial
  | cons c cs ih =>
    simp only [List.map_cons, List.sum_cons] at hparts
    have hc : ∀ f, c.counter.get f ≤ r.model.get f := fun f => by have := hparts f; omega
    have hcost : w.estimator.cost c = 0 :=
      Estimator.costUnder_eq_zero fun f => (hc f).trans (hmodel f)
    refine ⟨?_, ih ?_ (fun f => ?_) fun f => ?_⟩
    · rw [Estimator.costUnder_eq_zero hc]
      exact hbudget
    · simpa [after, hcost] using hbudget
    · have := hparts f
      simp only [after, Counter.get_minus]
      omega
    · have := hmodel f
      simp only [after, Counter.get_minus]
      omega

theorem mem_build_of_affords {w : Workshop} {body : QueryBody} {last : Requirement} {orderBy : Component}
    {items : List Component} {isDistinct : Bool}
    (hbody : BuiltBody w body) (hafford : w.Affords (w.start budget) (body.clauses ++ [.select items, orderBy]))
    (hlast : ItemRequirement body.groupBy body.having last) (hitems : w.offered budget body last = items)
    (hne : items ≠ []) (horder : w.Fits .orderBy [.suppliedBy (Component.select items).providedKeys] orderBy)
    (haccepts : w.accepts budget (body.query items orderBy isDistinct))
    (hplain : last.skipsPlain = true → (body.query items orderBy isDistinct).isPlainSelect = false) :
    body.query items orderBy isDistinct ∈ w.build .query budget := by
  obtain ⟨h₁, h₂, h₃, h₄, -, h₆, -⟩ := hafford
  refine mem_queries_iff.2 ⟨body, hbody, ⟨h₁, h₂, h₃, h₄, trivial⟩, last, hlast, ?_⟩
  subst hitems
  exact mem_completions_iff.2 ⟨hne, orderBy, isDistinct, mem_pick_iff.2 ⟨horder, h₆⟩, rfl, haccepts, hplain⟩

section Tolls

open Component

def tolls : Table := ⟨"tolls", [("gate", .number), ("fee", .number)], 0⟩

def gate : Component := .column tolls "gate" .number

def fee : Component := .column tolls "fee" .number

def tollsSource : Component := .tableSource (.table tolls) none

/-- `SUM(fee) OVER (PARTITION BY fee)` -/
def feeTotals : Component := .aggWindow (.aggregation .sum fee false) (.partitionList [fee]) .absent

def gateBelow : Component := .comparison gate .lt (.int 5)

/-- `SELECT gate, SUM(fee) OVER (PARTITION BY fee) FROM tolls GROUP BY gate HAVING gate < 5` -/
def tollsQuery : Component :=
  .query (.select [gate, feeTotals]) tollsSource .absent (.groupList [gate]) gateBelow .absent false

def tollsParts : List Component := [gate, .absent, feeTotals, .groupList [gate], gateBelow, tollsSource]

def tollsWorkshop : Workshop := ⟨.ofList tollsParts, .ofQuery tollsQuery, {}⟩

theorem tollsKinds : gate.kind = .column ∧ Component.absent.kind = .absent ∧ feeTotals.kind = .aggWindow ∧
    (groupList [gate]).kind = .groupList ∧ gateBelow.kind = .comparison ∧ tollsSource.kind = .tableSource ∧
    tollsQuery.kind = .query := by
  simp only [kind_eq_iff]
  decide

theorem ofKind_tolls (k : Kind) : tollsWorkshop.bank.ofKind k = tollsParts.filter fun c => c.kind == k := by
  refine Bank.ofKind_ofList (Bank.pairwise_of_kinds ?_) k
  simp only [tollsParts, List.map, tollsKinds]
  decide

theorem affords_tolls : tollsWorkshop.Affords (tollsWorkshop.start 0)
    [tollsSource, .absent, .groupList [gate], gateBelow, .select [gate, feeTotals], .absent] := by
  refine affords_of_model (Int.le_refl 0) (fun f => ?_) fun f => Nat.le_refl _
  refine Nat.le_trans (Nat.le_of_eq ?_) (Estimator.get_le_ofQuery f)
  rw [tollsQuery, counter]
  simp
  omega

theorem fits_tolls {slot : Category} {rs : List Requirement} {c : Component} (hc : c ∈ tollsParts)
    (hslot : slot.admits c.kind) (hrs : Requirement.allHold c rs) : tollsWorkshop.Fits slot rs c :=
  ⟨⟨c.kind, hslot, by rw [ofKind_tolls]; exact List.mem_filter.2 ⟨hc, beq_self_eq_true _⟩⟩, hrs⟩

theorem isSuppliedBy_tolls : ∀ c ∈ [gate, feeTotals, gateBelow, .groupList [gate]],
    c.isSuppliedBy tollsSource.providedKeys = true := by
  simp [isSuppliedBy, tollsSource, feeTotals, gateBelow, fee, gate, tolls, providedKeys, requiredKeys]

theorem isGroupedBy_tolls : ∀ c ∈ [gate, feeTotals, gateBelow],
    c.isGroupedBy (Component.groupList [gate]).groupKeys = true := by
  have hkinds : feeTotals.kind.isReferencable = false ∧ (int 5).kind.isReferencable = false := by
    rw [(kind_eq_iff (int 5) .int).2 rfl, tollsKinds.2.2.1]
    exact ⟨rfl, rfl⟩
  rw [feeTotals] at *
  simp [isGroupedBy, Component.groupKeys, gateBelow, gate, hkinds]

theorem pick_tolls {r : Remainder}
    (hcost : ∀ c ∈ [gate, feeTotals], (tollsWorkshop.estimator.costUnder r.model c : Int) ≤ r.budget) :
    tollsWorkshop.pick r .selectItem [.suppliedBy tollsSource.providedKeys, .present,
      .groupedBy (Component.groupList [gate]).groupKeys] = [gate, feeTotals] := by
  have hshelf (k : Kind) : (tollsWorkshop.bank.shelf k).toList = tollsParts.filter fun c => c.kind == k :=
    ofKind_tolls k
  have hkinds : Kind.all.filter Category.selectItem.admits =
      [.column, .aggChain, .windowChain, .int, .float, .str, .absent, .aggregation, .aggWindow, .funcWindow] := by
    decide
  simp only [List.forall_mem_cons] at hcost
  have hsupplied := isSuppliedBy_tolls
  have hgrouped := isGroupedBy_tolls
  simp only [List.forall_mem_cons] at hsupplied hgrouped
  simp [pick, Bank.select, hkinds, hshelf, tollsParts, tollsKinds, Requirement.allHold, Requirement.holds,
    isAbsent, hcost, hsupplied, hgrouped]

theorem accepts_tolls : tollsWorkshop.accepts 0 tollsQuery = true := by
  have hnew : tollsWorkshop.bank.contains tollsQuery = false :=
    Bank.contains_ofList_of_kinds (by simp [tollsParts, tollsKinds])
  have hcost : tollsWorkshop.estimator.cost tollsQuery = 0 := Estimator.costUnder_eq_zero Estimator.get_le_ofQuery
  rw [accepts, hnew, hcost]
  rfl

theorem mem_build_tolls : tollsQuery ∈ tollsWorkshop.build .query 0 := by
  have hsupplied := isSuppliedBy_tolls
  have hgrouped := isGroupedBy_tolls
  simp only [List.forall_mem_cons] at hsupplied hgrouped
  have hsource : tollsWorkshop.Fits .source [.depthAtMost tollsWorkshop.sourceDepth] tollsSource :=
    fits_tolls (by simp [tollsParts]) (by simp [Category.admits, tollsKinds])
      (by simp [Requirement.allHold, Requirement.holds, tollsSource, depth])
  have hfilter : tollsWorkshop.Fits .predicate [.suppliedBy tollsSource.providedKeys, .noAggregation]
      .absent :=
    fits_tolls (by simp [tollsParts]) (by simp [Category.admits, tollsKinds])
      (by simp [Requirement.allHold, Requirement.holds, isSuppliedBy, requiredKeys, hasNoAggregation])
  have hgroup : tollsWorkshop.Fits .groupBy [.suppliedBy tollsSource.providedKeys] (.groupList [gate]) :=
    fits_tolls (by simp [tollsParts]) (by simp [Category.admits, tollsKinds])
      (by simp [Requirement.allHold, Requirement.holds, hsupplied])
  have hhaving : tollsWorkshop.Fits .predicate [.suppliedBy tollsSource.providedKeys,
      .groupedBy (Component.groupList [gate]).groupKeys] gateBelow :=
    fits_tolls (by simp [tollsParts]) (by simp [Category.admits, tollsKinds])
      (by simp [Requirement.allHold, Requirement.holds, hsupplied, hgrouped])
  have horder : tollsWorkshop.Fits .orderBy [.suppliedBy (select [gate, feeTotals]).providedKeys] .absent :=
    fits_tolls (by simp [tollsParts]) (by simp [Category.admits, tollsKinds])
      (by simp [Requirement.allHold, Requirement.holds, isSuppliedBy, requiredKeys])
  have hgroups : (groupList [gate]).isAbsent = false := by
    simp [isAbsent, tollsKinds]
  have hbody : BuiltBody tollsWorkshop ⟨tollsSource, .absent, .groupList [gate], gateBelow⟩ :=
    ⟨hsource, hfilter, hgroup, hhaving⟩
  refine mem_build_of_affords hbody affords_tolls (.grouped hgroups) (pick_tolls fun c hc => ?_)
    (List.cons_ne_nil _ _) horder accepts_tolls (by simp [Requirement.skipsPlain])
  -- An item costs no more than the whole select list.
  refine (Int.ofNat_le.2 ?_).trans affords_tolls.2.2.2.2.1
  rw [Estimator.costUnder_eq_costOf, Estimator.costUnder_eq_costOf]
  refine Estimator.costOf_mono _ (fun f => ?_) fun f => Nat.le_refl _
  simp only [List.mem_cons, List.not_mem_nil, or_false] at hc
  obtain rfl | rfl := hc
  · simp [counter]
  · simp [counter]

theorem looseChains_tolls : tollsQuery ∈ tollsWorkshop.build .query 0 ∧
    (∀ c ∈ (select [gate, feeTotals]).children,
      (∀ d ∈ c.looseChains, d.fingerprint ∈ [gate].map Component.fingerprint) ∨
        c.kind = .aggWindow ∨ c.kind = .funcWindow) ∧
    ∀ o ∈ gateBelow.operands, (∀ d ∈ o.looseChains, d.fingerprint ∈ [gate].map Component.fingerprint) ∨
      Category.value.admits o.kind = false :=
  ⟨mem_build_tolls, looseChains_grouped mem_build_tolls⟩

/-- The window call reads `fee`, which the query does not group by. -/
theorem not_grouped_tolls : tollsQuery ∈ tollsWorkshop.build .query 0 ∧
    feeTotals ∈ (select [gate, feeTotals]).children ∧ fee ∈ feeTotals.looseChains ∧
    fee.fingerprint ∉ [gate].map Component.fingerprint := by
  have hfee : fee.fingerprint ≠ gate.fingerprint := by
    simp only [fee, gate, fingerprint, keys, Keys.same]
    decide +kernel
  exact ⟨mem_build_tolls, by simp [children], by simp [feeTotals, fee, looseChains],
    by simpa using hfee⟩

end Tolls

end Workshop

end QuerySearch
