import QuerySearch.Component.Lemmas

/-! What chain forms count.  A predicate over aggregates and the predicate over the chains that they compute
are counted alike, but for the aggregates over distinct values: each of them counts one part more.  An
operation whose operands all have the fingerprints of their chain forms is its own chain form, with all
the aggregates that it has. -/

namespace QuerySearch.Component

/-- How many operands of a value or a predicate are aggregates over distinct values. -/
def distincts : Component → Nat
  | .aggregation _ _ isDistinct => isDistinct.toNat
  | .comparison l _ r | .connection l _ r => l.distincts + r.distincts
  | _ => 0

/-- No operand with aggregates over distinct values has the fingerprint of its chain form. -/
def ToldApart : Component → Prop
  | .comparison l _ r | .connection l _ r =>
    (l.chainForm.fingerprint = l.fingerprint → l.distincts = 0) ∧
      (r.chainForm.fingerprint = r.fingerprint → r.distincts = 0) ∧ l.ToldApart ∧ r.ToldApart
  | _ => True

section Counts

variable {c l r l' r' : Component} {f : Fingerprint}

theorem chainKey_chainForm (c : Component) : c.chainForm.chainKey = c.chainKey := by
  rw [chainKey_eq, chainForm_chainForm, chainKey_eq]

theorem get_counter_comparison (hl : l'.chainKey = l.chainKey) (hr : r'.chainKey = r.chainKey)
    (op : CompareOp) : (comparison l' op r').counter.get f + (l.counter.get f + r.counter.get f) =
      (comparison l op r).counter.get f + (l'.counter.get f + r'.counter.get f) := by
  simp only [chainKey] at hl hr
  simp only [counter, hl, hr, Counter.get_plus]
  omega

theorem get_counter_connection (hl : l'.chainKey = l.chainKey) (hr : r'.chainKey = r.chainKey)
    (op : LogicOp) : (connection l' op r').counter.get f + (l.counter.get f + r.counter.get f) =
      (connection l op r).counter.get f + (l'.counter.get f + r'.counter.get f) := by
  simp only [chainKey] at hl hr
  simp only [counter, hl, hr]
  split <;> simp only [Counter.get_plus] <;> omega

theorem counter_formOperands {make : Component → Component → Component}
    (hmake : ∀ l' r', l'.chainKey = l.chainKey → r'.chainKey = r.chainKey →
      (make l' r').counter.get f + (l.counter.get f + r.counter.get f) =
        (make l r).counter.get f + (l'.counter.get f + r'.counter.get f))
    (hl : l.counter.get f + (if f = .ofDistinct then l.chainForm.distincts else 0) =
      l.chainForm.counter.get f + if f = .ofDistinct then l.distincts else 0)
    (hr : r.counter.get f + (if f = .ofDistinct then r.chainForm.distincts else 0) =
      r.chainForm.counter.get f + if f = .ofDistinct then r.distincts else 0) :
    (make l r).counter.get f + (if f = .ofDistinct then
        (formOperands l r l.chainForm r.chainForm).1.distincts +
          (formOperands l r l.chainForm r.chainForm).2.distincts else 0) =
      (make (formOperands l r l.chainForm r.chainForm).1
        (formOperands l r l.chainForm r.chainForm).2).counter.get f +
        if f = .ofDistinct then l.distincts + r.distincts else 0 := by
  obtain ⟨-, h⟩ | ⟨-, h⟩ := formOperands_cases l r l.chainForm r.chainForm
  · rw [h]
  · have hparts := hmake l.chainForm r.chainForm (chainKey_chainForm l) (chainKey_chainForm r)
    rw [h]
    split at hl <;> simp_all <;> omega

/-- A component counts what its chain form does, and one part more for each aggregate over distinct
values that is not there. -/
theorem counter_chainForm (c : Component) : c.counter.plus (.single .ofDistinct c.chainForm.distincts) =
    c.chainForm.counter.plus (.single .ofDistinct c.distincts) := by
  ext f
  simp only [Counter.get_plus, Counter.get_single]
  fun_induction chainForm c with
  | case1 func arg isDistinct => cases isDistinct <;> simp [counter, distincts, Counter.one]
  | case2 l op r operands ihl ihr =>
    exact counter_formOperands (fun _ _ hl hr => get_counter_comparison hl hr op) ihl ihr
  | case3 l op r operands ihl ihr =>
    exact counter_formOperands (fun _ _ hl hr => get_counter_connection hl hr op) ihl ihr
  | case4 => rfl

theorem distincts_chainForm_le (c : Component) : c.chainForm.distincts ≤ c.distincts := by
  fun_induction chainForm c with
  | case1 => exact Nat.zero_le _
  | case2 l op r operands ihl ihr | case3 l op r operands ihl ihr =>
    have hoperands : operands.1.distincts + operands.2.distincts ≤ l.distincts + r.distincts := by
      obtain ⟨-, h⟩ | ⟨-, h⟩ := formOperands_cases l r l.chainForm r.chainForm
      · exact Nat.le_of_eq (by rw [show operands = (l, r) from h])
      · rw [show operands = (l.chainForm, r.chainForm) from h]
        exact Nat.add_le_add ihl ihr
    exact hoperands
  | case4 => exact Nat.le_refl _

theorem counter_chainForm_le (c : Component) : c.chainForm.counter.get f ≤ c.counter.get f := by
  have hcounts := congrArg (fun d => Counter.get d f) (counter_chainForm c)
  have hdistincts := distincts_chainForm_le c
  simp only [Counter.get_plus, Counter.get_single] at hcounts
  split at hcounts <;> omega

theorem ToldApart.distincts_chainForm (h : c.ToldApart) : c.chainForm.distincts = 0 := by
  fun_induction chainForm c with
  | case1 => rfl
  | case2 l op r operands ihl ihr | case3 l op r operands ihl ihr =>
    obtain ⟨hsamel, hsamer, hl, hr⟩ := h
    have hoperands : operands.1.distincts + operands.2.distincts = 0 := by
      obtain ⟨hsame, h⟩ | ⟨-, h⟩ := formOperands_cases l r l.chainForm r.chainForm
      · obtain ⟨heql, heqr⟩ := sameBoth_iff.1 hsame
        rw [show operands = (l, r) from h, hsamel heql, hsamer heqr]
      · rw [show operands = (l.chainForm, r.chainForm) from h, ihl hl, ihr hr]
    exact hoperands
  | case4 c haggregation hcomparison hconnection =>
    cases c with
    | aggregation => exact absurd rfl (haggregation _ _ _)
    | comparison => exact absurd rfl (hcomparison _ _ _)
    | connection => exact absurd rfl (hconnection _ _ _)
    | _ => rfl

end Counts

/-- A chain form is its own chain form.  A component counts what its chain form does and one part for each
aggregate over distinct values that this leaves out: all of them, unless an operand that has some has
the fingerprint of its chain form. -/
theorem chainForm_counts (c : Component) : c.chainForm.chainForm = c.chainForm ∧
    c.counter.plus (.single .ofDistinct c.chainForm.distincts) =
      c.chainForm.counter.plus (.single .ofDistinct c.distincts) ∧
    (c.ToldApart → c.counter = c.chainForm.counter.plus (.single .ofDistinct c.distincts)) := by
  refine ⟨chainForm_chainForm c, counter_chainForm c, fun h => ?_⟩
  rw [← counter_chainForm, h.distincts_chainForm]
  ext f
  simp

def shops : Table := ⟨"shops", [("till_822999936", .number)], 0⟩

def till : Component := .column shops "till_822999936" .number

/-- `COUNT(DISTINCT till_822999936) < n` -/
def fewTills (n : Int64) : Component := .comparison (.aggregation .count till true) .lt (.int n)

/-- `COUNT(DISTINCT till_822999936) < n OR till_822999936 = 5` -/
def fewTillsOr (n : Int64) : Component := .connection (fewTills n) .or (.comparison till .eq (.int 5))

section Tills

variable (n : Int64)

theorem fingerprint_fewTills : (fewTills n).fingerprint =
    .ofComparison (.ofAggregation .count (.ofColumn shops "till_822999936") true) .lt (.ofInt n) := by
  simp only [fewTills, till, fingerprint_eq, partsFingerprint]

theorem fingerprint_chainForm_fewTills : (fewTills n).chainForm.fingerprint =
    .ofComparison (.ofAggChain .count (.ofColumn shops "till_822999936")) .lt (.ofInt n) := by
  rw [← chainKey_eq]
  simp [chainKey, fewTills, till, keys, Keys.same]

end Tills

theorem chainForm_counts_fewTills : (fewTillsOr 5).ToldApart ∧
    (fewTillsOr 5).counter = (fewTillsOr 5).chainForm.counter.plus (.single .ofDistinct 1) := by
  have hcomparison : (fewTills 5).chainForm.fingerprint ≠ (fewTills 5).fingerprint := by
    rw [fingerprint_fewTills, fingerprint_chainForm_fewTills]
    decide +kernel
  have hcount : (aggChain .count till).fingerprint ≠ (aggregation .count till true).fingerprint := by
    rw [fingerprint_eq, fingerprint_eq (aggregation ..)]
    intro h
    cases congrArg Fingerprint.kind h
  have happart : (fewTillsOr 5).ToldApart :=
    ⟨fun h => absurd h hcomparison, fun _ => rfl, ⟨fun h => absurd h hcount, fun _ => rfl, trivial, trivial⟩,
      fun _ => rfl, fun _ => rfl, trivial, trivial⟩
  exact ⟨happart, (chainForm_counts (fewTillsOr 5)).2.2 happart⟩

/-- With this number they have the same, so the disjunction is its own chain form. -/
theorem not_counter_fewTills : (fewTillsOr 2203443896).distincts = 1 ∧
    (fewTillsOr 2203443896).counter ≠ (fewTillsOr 2203443896).chainForm.counter.plus (.single .ofDistinct 1) := by
  have hcomparison : (fewTills 2203443896).chainForm.fingerprint = (fewTills 2203443896).fingerprint := by
    rw [fingerprint_fewTills, fingerprint_chainForm_fewTills]
    decide +kernel
  have hequation : (comparison till .eq (.int 5)).chainForm = comparison till .eq (.int 5) := by
    simp [till, chainForm]
  have hsame := formOperands_of_same (sameBoth_iff.2 ⟨hcomparison, congrArg fingerprint hequation⟩)
  have hform : (fewTillsOr 2203443896).chainForm = fewTillsOr 2203443896 := by
    rw [fewTillsOr, chainForm]
    simp only [hsame]
  refine ⟨rfl, fun h => ?_⟩
  have hget := congrArg (fun d => Counter.get d .ofDistinct) h
  simp [hform] at hget

end QuerySearch.Component
