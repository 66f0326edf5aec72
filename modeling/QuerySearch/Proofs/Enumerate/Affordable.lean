import QuerySearch.Proofs.Component.Kinds
import QuerySearch.Proofs.Enumerate.Charges
import QuerySearch.Enumerate.Queries

/-! Which composites a workshop finds.  Slot after slot what was chosen is paid from the budget and taken
from the model, and this loses no composite within the budget except through the parts that are
charged once: a chain that two siblings share and the template does not have is paid by both. -/

namespace QuerySearch.Workshop

variable {w : Workshop} {r : Remainder} {slot : Category} {rs : List Requirement} {c d : Component}
  {parts : List Component} {budget : Int}

def Fits (w : Workshop) (slot : Category) (rs : List Requirement) (c : Component) : Prop :=
  (∃ k, slot.admits k ∧ c ∈ w.bank.ofKind k) ∧ Requirement.allHold c rs

theorem mem_pick_iff :
    c ∈ w.pick r slot rs ↔ w.Fits slot rs c ∧ w.estimator.costUnder r.model c ≤ r.budget := by
  rw [pick, Bank.mem_select, Fits, and_assoc]

theorem mem_fill_iff {next : Component → Remainder → List Component} :
    d ∈ w.fill r slot rs next ↔ ∃ c, (w.Fits slot rs c ∧ w.estimator.costUnder r.model c ≤ r.budget) ∧
      d ∈ next c (w.after r c) := by
  simp only [fill, List.mem_flatMap, mem_pick_iff]

/-- A predicate or a join of parts that the bank holds, in the order in which their slots are filled. -/
inductive Composed (w : Workshop) : (parts : List Component) → Component → Prop
  | comparison {l op r type} (hop : w.Fits (.only .compareOp) [] (.compareOp op))
    (hl : w.Fits .value [.present, .typeIn (comparedTypes op)] l) (htype : l.dataType = some type)
    (hr : w.Fits .value [.present, .typeIn [type], .notIn [l.fingerprint]] r) :
    Composed w [.compareOp op, l, r] (.comparison l op r)
  | connection {l op r} (hop : w.Fits (.only .logicOp) [] (.logicOp op))
    (hl : w.Fits .predicate [.present] l) (hr : w.Fits .predicate [.present, .repeatsNoneOf l] r) :
    Composed w [.logicOp op, l, r] (.connection l op r)
  | join {l r type on} (hl : w.Fits .source [.depthAtMost w.sourceDepth] l)
    (hr : w.Fits .source
      [.notIn [l.fingerprint], .depthAtMost w.sourceDepth, .providesNone l.providedKeys] r)
    (htype : w.Fits (.only .joinType) [] (.joinType type))
    (hon : w.Fits .predicate
      [.present, .suppliedBy (l.providedKeys ++ r.providedKeys),
        .acrossSides l.providedKeys r.providedKeys, .noAggregation] on) :
    Composed w [l, r, .joinType type, on] (.join l r type on)

/-- The remainder pays for the parts, each out of what the parts before it leave. -/
def Affords (w : Workshop) : Remainder → List Component → Prop
  | _, [] => True
  | r, c :: cs => w.estimator.costUnder r.model c ≤ r.budget ∧ w.Affords (w.after r c) cs

section Slots

theorem mem_comparisons_iff {l op} (h : w.Composed [.compareOp op, l, d] (.comparison l op d)) :
    .comparison l op d ∈ w.comparisons r ↔ w.Affords r [.compareOp op, l, d] := by
  constructor
  · intro hmem
    obtain ⟨o, ⟨_, ho⟩, hmem⟩ := mem_fill_iff.1 hmem
    split at hmem
    · obtain ⟨lhs, ⟨_, hl⟩, hmem⟩ := mem_fill_iff.1 hmem
      split at hmem
      · obtain ⟨rhs, hr, heq⟩ := List.mem_map.1 hmem
        cases heq
        exact ⟨ho, hl, (mem_pick_iff.1 hr).2, trivial⟩
      · cases hmem
    · cases hmem
  · rintro ⟨ho, hl, hr, _⟩
    cases h with
    | comparison hop hfl htype hfr =>
      refine mem_fill_iff.2 ⟨.compareOp op, ⟨hop, ho⟩, mem_fill_iff.2 ⟨l, ⟨hfl, hl⟩, ?_⟩⟩
      simp only [htype]
      exact List.mem_map_of_mem (mem_pick_iff.2 ⟨hfr, hr⟩)

theorem mem_connections_iff {l op} (h : w.Composed [.logicOp op, l, d] (.connection l op d)) :
    .connection l op d ∈ w.connections r ↔ w.Affords r [.logicOp op, l, d] := by
  constructor
  · intro hmem
    obtain ⟨o, ⟨_, ho⟩, hmem⟩ := mem_fill_iff.1 hmem
    split at hmem
    · obtain ⟨lhs, ⟨_, hl⟩, hmem⟩ := mem_fill_iff.1 hmem
      obtain ⟨rhs, hr, heq⟩ := List.mem_map.1 hmem
      cases heq
      exact ⟨ho, hl, (mem_pick_iff.1 hr).2, trivial⟩
    · cases hmem
  · rintro ⟨ho, hl, hr, _⟩
    cases h with
    | connection hop hfl hfr =>
      exact mem_fill_iff.2 ⟨.logicOp op, ⟨hop, ho⟩, mem_fill_iff.2 ⟨l, ⟨hfl, hl⟩,
        List.mem_map_of_mem (mem_pick_iff.2 ⟨hfr, hr⟩)⟩⟩

theorem mem_joins_iff {l type on} (h : w.Composed [l, d, .joinType type, on] (.join l d type on)) :
    .join l d type on ∈ w.joins r ↔ w.Affords r [l, d, .joinType type, on] := by
  constructor
  · intro hmem
    obtain ⟨left, ⟨_, hl⟩, hmem⟩ := mem_fill_iff.1 hmem
    obtain ⟨right, ⟨_, hr⟩, hmem⟩ := mem_fill_iff.1 hmem
    obtain ⟨t, ⟨_, ht⟩, hmem⟩ := mem_fill_iff.1 hmem
    split at hmem
    · obtain ⟨cond, hon, heq⟩ := List.mem_map.1 hmem
      cases heq
      exact ⟨hl, hr, ht, (mem_pick_iff.1 hon).2, trivial⟩
    · cases hmem
  · rintro ⟨hl, hr, ht, hon, _⟩
    cases h with
    | join hfl hfr hft hfon =>
      exact mem_fill_iff.2 ⟨l, ⟨hfl, hl⟩, mem_fill_iff.2 ⟨d, ⟨hfr, hr⟩, mem_fill_iff.2
        ⟨.joinType type, ⟨hft, ht⟩, List.mem_map_of_mem (mem_pick_iff.2 ⟨hfon, hon⟩)⟩⟩⟩

theorem mem_build_iff (h : w.Composed parts c) :
    c ∈ w.build c.kind budget ↔ w.Affords (w.start budget) parts ∧ w.accepts budget c := by
  cases h with
  | comparison hop hl htype hr =>
    rw [(Component.kind_eq_iff (.comparison ..) .comparison).2 rfl, build, List.mem_filter,
      mem_comparisons_iff (.comparison hop hl htype hr)]
  | connection hop hl hr =>
    rw [(Component.kind_eq_iff (.connection ..) .connection).2 rfl, build, List.mem_filter,
      mem_connections_iff (.connection hop hl hr)]
  | join hl hr htype hon =>
    rw [(Component.kind_eq_iff (.join ..) .join).2 rfl, build, List.mem_filter,
      mem_joins_iff (.join hl hr htype hon)]

end Slots

section Account

variable {used : Counter}

/-- What the parts pay for once more, one after the other, although it has been paid for. -/
def paidAgain (w : Workshop) (used : Counter) : List Component → Nat
  | [] => 0
  | c :: cs =>
    w.estimator.paidAgain w.estimator.model used c.counter + w.paidAgain (used.plus c.counter) cs

def usedBy (used : Counter) (parts : List Component) : Counter :=
  used.plus (.sum (parts.map fun c => c.counter))

theorem get_usedBy (used : Counter) (parts : List Component) (f : Fingerprint) :
    (usedBy used parts).get f = used.get f + (parts.map fun c => c.counter.get f).sum := by
  rw [usedBy, Counter.get_plus, Counter.get_sum, List.map_map]
  rfl

theorem usedBy_cons (used : Counter) : usedBy used (c :: parts) = usedBy (used.plus c.counter) parts :=
  Counter.ext fun f => by
    rw [get_usedBy, get_usedBy, List.map_cons, List.sum_cons, Counter.get_plus, Nat.add_assoc]

theorem affords_of_account (hmodel : r.model = w.estimator.model.minus used)
    (hbudget : ((w.estimator.costOf w.estimator.model (usedBy used parts) + w.paidAgain used parts : Nat) : Int) ≤
      r.budget + w.estimator.costOf w.estimator.model used) : w.Affords r parts := by
  induction parts generalizing r used with
  | nil => trivial
  | cons c cs ih =>
    have haccount := w.estimator.costOf_plus w.estimator.model used c.counter
    rw [usedBy_cons, paidAgain] at hbudget
    -- The part alone costs no more than it together with those behind it.
    have hparts : w.estimator.costOf w.estimator.model (used.plus c.counter) ≤
        w.estimator.costOf w.estimator.model (usedBy (used.plus c.counter) cs) :=
      w.estimator.costOf_mono (fun f => by rw [get_usedBy]; omega) fun f => Nat.le_refl _
    -- Paid from the full model it costs no more than from what is left of the model.
    have hfull : w.estimator.cost c ≤ w.estimator.costOf (w.estimator.model.minus used) c.counter := by
      rw [Estimator.cost, Estimator.costUnder_eq_costOf]
      exact w.estimator.costOf_mono (fun f => Nat.le_refl _) fun f => by rw [Counter.get_minus]; omega
    have hrest : (w.after r c).model = w.estimator.model.minus (used.plus c.counter) :=
      Counter.ext fun f => by simp [after, hmodel, Nat.sub_sub]
    refine ⟨?_, ih hrest ?_⟩
    · rw [Estimator.costUnder_eq_costOf, hmodel]
      omega
    · simp only [after]
      omega

theorem usedBy_le_counter (h : w.Composed parts c) (f : Fingerprint) :
    (usedBy .empty parts).get f ≤ c.counter.get f := by
  rw [get_usedBy]
  cases h with
  | comparison hop hl htype hr =>
    simp only [Component.counter, List.map_cons, List.map_nil, List.sum_cons, List.sum_nil,
      Counter.get_plus, Counter.get_empty]
    omega
  | connection hop hl hr =>
    simp only [Component.counter, List.map_cons, List.map_nil, List.sum_cons, List.sum_nil,
      Counter.get_empty]
    split
    · simp only [Counter.get_plus]
      omega
    · simp only [Counter.get_plus]
      omega
  | join hl hr htype hon =>
    simp only [Component.counter, List.map_cons, List.map_nil, List.sum_cons, List.sum_nil,
      Counter.get_sum, Counter.get_empty]
    omega

end Account

/-- A new predicate or join within the budget is found if the budget also covers what its parts pay for
once more. -/
theorem mem_build_of_cost (h : w.Composed parts c) (hnew : w.bank.contains c = false)
    (hcost : ((w.estimator.cost c + w.paidAgain .empty parts : Nat) : Int) ≤ budget) :
    c ∈ w.build c.kind budget := by
  have hparts : w.estimator.costOf w.estimator.model (usedBy .empty parts) ≤ w.estimator.cost c := by
    rw [Estimator.cost, Estimator.costUnder_eq_costOf]
    exact w.estimator.costOf_mono (usedBy_le_counter h) fun f => Nat.le_refl _
  have hmodel : (w.start budget).model = w.estimator.model.minus .empty :=
    Counter.ext fun f => by simp [start]
  refine (mem_build_iff h).2 ⟨affords_of_account hmodel ?_, ?_⟩
  · simp only [start]
    omega
  · simp only [accepts, hnew, Bool.not_false, Bool.and_true, decide_eq_true_eq]
    omega

section Jobs

open Component

def jobs : Table := ⟨"jobs", [("id", .number), ("pay", .number)], 0⟩

def jobId : Component := .column jobs "id" .number

def pay : Component := .column jobs "pay" .number

def payBelow : Component := .comparison pay .lt (.int 5)

def payIs : Component := .comparison pay .eq (.int 5)

def payWorkshop : Workshop where
  bank := .ofList [payBelow, payIs, .logicOp .and]
  estimator := .ofQuery (.query (.select [jobId]) (.tableSource (.table jobs) none)
    (.comparison jobId .lt (.int 5)) .absent .absent .absent false)
  limits := {}

def payParts : List Component := [.logicOp .and, payBelow, payIs]

theorem payKeys_ne : payBelow.fingerprint ≠ payIs.fingerprint ∧
    payBelow.fingerprint ≠ (logicOp .and).fingerprint ∧ payIs.fingerprint ≠ (logicOp .and).fingerprint ∧
    ∀ c ∈ [payBelow, payIs, logicOp .and], c.fingerprint ≠ (connection payBelow .and payIs).fingerprint := by
  simp only [payBelow, payIs, pay, fingerprint, keys, Keys.same, List.forall_mem_cons]
  decide +kernel

theorem payKinds : payBelow.kind = .comparison ∧ payIs.kind = .comparison ∧
    (logicOp .and).kind = .logicOp :=
  ⟨(kind_eq_iff _ _).2 rfl, (kind_eq_iff _ _).2 rfl, (kind_eq_iff _ _).2 rfl⟩

theorem payWorkshop_bank : payWorkshop.bank.ofKind .comparison = [payBelow, payIs] ∧
    payWorkshop.bank.ofKind .logicOp = [.logicOp .and] ∧
    payWorkshop.bank.contains (.connection payBelow .and payIs) = false := by
  obtain ⟨hpays, hbelow, his, hboth⟩ := payKeys_ne
  simp only [List.forall_mem_cons] at hboth
  simp [payWorkshop, Bank.ofList, Bank.insertAll, Bank.ofKind_insert, payKinds, BEq.beq, hpays, hbelow,
    his, hboth]

theorem payWorkshop_composed : payWorkshop.Composed payParts (.connection payBelow .and payIs) := by
  have hpresent : payBelow.isAbsent = false ∧ payIs.isAbsent = false := by
    simp [isAbsent, payKinds]
  obtain ⟨hcomparisons, hops, _⟩ := payWorkshop_bank
  refine .connection ⟨⟨.logicOp, rfl, ?_⟩, rfl⟩ ⟨⟨.comparison, rfl, ?_⟩, ?_⟩ ⟨⟨.comparison, rfl, ?_⟩, ?_⟩
  · simp [hops]
  · simp [hcomparisons]
  · simp [Requirement.allHold, Requirement.holds, hpresent]
  · simp [hcomparisons]
  · have hatoms : payBelow.atoms = [payBelow] ∧ payIs.atoms = [payIs] := ⟨rfl, rfl⟩
    simp [Requirement.allHold, Requirement.holds, Requirement.repeatsNoneOf, hpresent, hatoms,
      payKeys_ne.1.symm]

theorem payWorkshop_costs : payWorkshop.estimator.cost (.connection payBelow .and payIs) = 3 ∧
    payWorkshop.paidAgain .empty payParts = 1 := by
  simp only [payWorkshop, payParts, paidAgain, Estimator.cost, payBelow, payIs, pay, jobId,
    Estimator.ofQuery, counter, terminals, List.map, List.foldl, keys, Keys.same, Estimator.costUnder_eq]
  decide +kernel

theorem mem_build_pays : payWorkshop.Composed payParts (.connection payBelow .and payIs) ∧
    payWorkshop.bank.contains (.connection payBelow .and payIs) = false ∧
    ((payWorkshop.estimator.cost (.connection payBelow .and payIs) +
      payWorkshop.paidAgain .empty payParts : Nat) : Int) ≤ 4 ∧
    connection payBelow .and payIs ∈ payWorkshop.build (connection payBelow .and payIs).kind 4 := by
  have hcost : ((payWorkshop.estimator.cost (.connection payBelow .and payIs) +
      payWorkshop.paidAgain .empty payParts : Nat) : Int) ≤ 4 := by
    rw [payWorkshop_costs.1, payWorkshop_costs.2]
    decide
  exact ⟨payWorkshop_composed, payWorkshop_bank.2.2, hcost,
    mem_build_of_cost payWorkshop_composed payWorkshop_bank.2.2 hcost⟩

/-- Both comparisons use `pay`.  The query would cost 3, but after the first comparison a budget of 3
no longer covers the second. -/
theorem notMem_build_pays : payWorkshop.Composed payParts (.connection payBelow .and payIs) ∧
    payWorkshop.bank.contains (.connection payBelow .and payIs) = false ∧
    payWorkshop.estimator.cost (.connection payBelow .and payIs) = 3 ∧
    connection payBelow .and payIs ∉ payWorkshop.build (connection payBelow .and payIs).kind 3 := by
  refine ⟨payWorkshop_composed, payWorkshop_bank.2.2, payWorkshop_costs.1, fun hmem => ?_⟩
  obtain ⟨_, _, hsecond, _⟩ := ((mem_build_iff payWorkshop_composed).1 hmem).1
  revert hsecond
  simp only [payWorkshop, after, start, Estimator.cost, payBelow, payIs, pay, jobId,
    Estimator.ofQuery, counter, terminals, List.map, List.foldl, keys, Keys.same, Estimator.costUnder_eq]
  decide +kernel

end Jobs

end QuerySearch.Workshop
