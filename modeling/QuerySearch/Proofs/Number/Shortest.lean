import QuerySearch.Proofs.Number.Rounding

/-! Decimals that read back.  Seventeen digits are enough for a decimal in the interval of a number, so
the shortest one always lies there, and its text with a point is read as the number. -/

namespace QuerySearch.Decimal

def value (d : Decimal) : ℚ := d.digits * 10 ^ d.exponent

theorem value_pos {d : Decimal} (h : 0 < d.digits) : 0 < d.value := by
  rw [value]
  positivity

section Grids

variable {c n d : ℕ} {j : ℤ} {i : Interval}

theorem withZeros_eq (n k : ℕ) : (withZeros n k : ℚ) = n * 10 ^ k := by
  simp [withZeros]

theorem withZeros_compare (c n : ℕ) (hd : 0 < d) (j : ℤ) :
    (withZeros c j.toNat * d : ℚ) = c * 10 ^ j * (d * 10 ^ (-j).toNat) ∧
      (withZeros n (-j).toNat : ℚ) = n / d * (d * 10 ^ (-j).toNat) := by
  have hd' : (d : ℚ) ≠ 0 := by positivity
  rw [withZeros_eq, withZeros_eq, ← zpow_mul_toNat (by norm_num) j]
  constructor
  · ring
  · field_simp

theorem atMost_iff (hd : 0 < d) : atMost c j n d = true ↔ (c : ℚ) * 10 ^ j ≤ n / d := by
  obtain ⟨hc, hn⟩ := withZeros_compare c n hd j
  have hpos : (0 : ℚ) < d * 10 ^ (-j).toNat := by positivity
  rw [atMost, decide_eq_true_iff, ← mul_le_mul_iff_of_pos_right hpos, ← hc, ← hn]
  norm_cast

theorem atLeast_iff (hd : 0 < d) : atLeast c j n d = true ↔ (n : ℚ) / d ≤ c * 10 ^ j := by
  obtain ⟨hc, hn⟩ := withZeros_compare c n hd j
  have hpos : (0 : ℚ) < d * 10 ^ (-j).toNat := by positivity
  rw [atLeast, decide_eq_true_iff, ← mul_le_mul_iff_of_pos_right hpos, ← hc, ← hn]
  norm_cast

theorem holds_iff (hi : 0 < i.unit) : i.holds c j = true ↔ i.Contains (c * 10 ^ j) := by
  have hbelow (n : ℕ) : isBelow c j n i.unit = true ↔ (c : ℚ) * 10 ^ j < n / i.unit := by
    rw [isBelow, Bool.not_eq_true', ← Bool.not_eq_true, atLeast_iff hi, not_le]
  have habove (n : ℕ) : isAbove c j n i.unit = true ↔ (n : ℚ) / i.unit < c * 10 ^ j := by
    rw [isAbove, Bool.not_eq_true', ← Bool.not_eq_true, atMost_iff hi, not_le]
  rw [Interval.holds, Interval.Contains]
  split
  · rw [Bool.and_eq_true, atLeast_iff hi, atMost_iff hi]
  · rw [Bool.and_eq_true, habove, hbelow]

def Interval.floor (i : Interval) (j : ℤ) : ℕ := withZeros i.value (-j).toNat / withZeros i.unit j.toNat

theorem floor_spec (hi : 0 < i.unit) (j : ℤ) : (i.floor j : ℚ) * 10 ^ j ≤ i.value / i.unit ∧
    (i.value : ℚ) / i.unit < (i.floor j + 1 : ℕ) * 10 ^ j := by
  have hpos : 0 < withZeros i.unit j.toNat := Nat.mul_pos hi (Nat.pow_pos (by decide))
  have hcommute (c : ℕ) : withZeros i.unit j.toNat * c = withZeros c j.toNat * i.unit := by
    simp only [withZeros]
    ring
  constructor
  · rw [← atMost_iff hi, atMost, decide_eq_true_iff, ← hcommute]
    exact Nat.mul_div_le _ _
  · rw [← not_le, ← atMost_iff hi, atMost, decide_eq_true_iff, ← hcommute, not_le]
    exact Nat.lt_mul_div_succ _ hpos

theorem holds_of_nearest {c : ℕ} (h : i.nearest? j = some c) : i.holds c j = true := by
  unfold Interval.nearest? at h
  dsimp only at h
  split at h
  · rename_i hboth
    obtain ⟨hbelow, habove⟩ := Bool.and_eq_true_iff.1 hboth
    split at h <;> cases h <;> assumption
  · split at h
    · cases h
      assumption
    · split at h
      · cases h
        assumption
      · cases h

theorem not_holds_of_nearest (h : i.nearest? j = none) :
    i.holds (i.floor j) j = false ∧ i.holds (i.floor j + 1) j = false := by
  unfold Interval.nearest? at h
  dsimp only at h
  split at h
  · split at h <;> cases h
  · split at h
    · cases h
    · split at h
      · cases h
      · rename_i hbelow habove
        exact ⟨Bool.eq_false_of_not_eq_true hbelow, Bool.eq_false_of_not_eq_true habove⟩

theorem firstGrid_holds {k : ℤ} {count used : ℕ} (h : ∃ c, i.nearest? (k - (used + count : ℕ)) = some c)
    (hcount : 0 < count) :
    i.holds (i.firstGrid k count used).digits (i.firstGrid k count used).exponent = true := by
  induction count generalizing used with
  | zero => omega
  | succ n ih =>
    rw [Interval.firstGrid]
    cases hc : i.nearest? (k - (used + 1)) with
    | some c => exact holds_of_nearest hc
    | none =>
      obtain ⟨c, h⟩ := h
      cases n with
      | zero => cases hc.symm.trans h
      | succ n =>
        apply ih ⟨c, _⟩ (Nat.succ_pos n)
        rw [← h]
        congr 3
        omega

end Grids

section Magnitude

variable {n d : ℕ}

theorem lt_pow_digitCount (n : ℕ) : n < 10 ^ digitCount n :=
  (Nat.length_toDigits_le_iff (by decide) (List.length_pos_iff.2 Nat.toDigits_ne_nil)).1 (Nat.le_refl _)

theorem pow_digitCount_le (hn : 0 < n) : 10 ^ (digitCount n - 1) ≤ n := by
  by_cases h : digitCount n - 1 = 0
  · rwa [h]
  · rw [← not_lt, ← Nat.length_toDigits_le_iff (by decide) (by omega)]
    rw [digitCount] at h ⊢
    omega

theorem pow_magnitude_le (hn : 0 < n) (hd : 0 < d) : (10 : ℚ) ^ (magnitude n d - 1) ≤ (n : ℚ) / d := by
  have hd' : (0 : ℚ) < d := by exact_mod_cast hd
  have hcount (m : ℕ) : 0 < digitCount m := List.length_pos_iff.2 Nat.toDigits_ne_nil
  rw [le_div_iff₀ hd', magnitude]
  split
  · have hle := pow_digitCount_le (Nat.div_pos ‹d ≤ n› hd)
    have hexponent : (digitCount (n / d) : ℤ) - 1 = (digitCount (n / d) - 1 : ℕ) := by
      have := hcount (n / d)
      omega
    rw [hexponent, zpow_natCast]
    have : 10 ^ (digitCount (n / d) - 1) * d ≤ n :=
      (Nat.mul_le_mul_right d hle).trans (Nat.div_mul_le_self n d)
    exact_mod_cast this
  · have hlt : d - 1 < n * 10 ^ digitCount ((d - 1) / n) := by
      have := lt_pow_digitCount ((d - 1) / n)
      rwa [Nat.div_lt_iff_lt_mul hn, mul_comm] at this
    have hexponent : (1 : ℤ) - digitCount ((d - 1) / n) - 1 = -(digitCount ((d - 1) / n) : ℕ) := by
      omega
    rw [hexponent, zpow_neg, zpow_natCast, inv_mul_le_iff₀ (by positivity), mul_comm]
    have : d ≤ n * 10 ^ digitCount ((d - 1) / n) := by omega
    exact_mod_cast this

end Magnitude

section Shortest

variable {x : Binary64}

theorem unit_pos (x : Binary64) : 0 < (Interval.around x).unit := by
  simp only [Interval.around, Nat.shiftLeft_eq]
  positivity

theorem value_around (x : Binary64) :
    ((Interval.around x).value : ℚ) / (Interval.around x).unit = x.mantissa * 2 ^ x.scale := by
  refine (Binary64.around_div (4 * x.mantissa) x).trans ?_
  push_cast
  ring

theorem mantissa_lt_gap (x : Binary64) : (x.mantissa : ℚ) < 10 ^ 16 * (x.gapBelow + 1 / 2) := by
  have hcases := x.scale_mantissa_cases
  have hlt : (x.mantissa : ℚ) < 2 ^ 53 := by exact_mod_cast x.mantissa_lt
  rw [Binary64.gapBelow]
  split
  · rename_i h
    simp only [Bool.and_eq_true, decide_eq_true_eq] at h
    have : x.mantissa = 2 ^ 52 := by omega
    rw [this]
    norm_num
  · linarith

theorem seventeen_digits (hx : 0 < x.mantissa) : ∃ c, (Interval.around x).nearest?
    (magnitude (Interval.around x).value (Interval.around x).unit - 17) = some c := by
  set i := Interval.around x with hi
  set j := magnitude i.value i.unit - 17 with hj
  have hunit := unit_pos x
  have hpow : (0 : ℚ) < 2 ^ x.scale := by positivity
  have hvalue : (i.value : ℚ) / i.unit = x.mantissa * 2 ^ x.scale := value_around x
  have hpos : 0 < i.value := by
    simp only [hi, Interval.around, Nat.shiftLeft_eq]
    positivity
  by_contra hnone
  obtain ⟨hbelow, habove⟩ := not_holds_of_nearest (Option.eq_none_iff_forall_not_mem.2 fun c hc => hnone ⟨c, hc⟩)
  obtain ⟨hfloor, hceil⟩ := floor_spec hunit j
  rw [← Bool.not_eq_true, holds_iff hunit, Binary64.contains_around hx] at hbelow habove
  rw [hvalue, ← div_le_iff₀ hpow] at hfloor
  rw [hvalue, ← lt_div_iff₀ hpow] at hceil
  have hgap := x.gapBelow_pos
  -- The points next to the number lie outside, so they are further apart than the interval is wide.
  have hleft : (i.floor j : ℚ) * 10 ^ j / 2 ^ x.scale ≤ x.mantissa - x.gapBelow := by
    by_contra hlt
    apply hbelow
    split <;> constructor <;> linarith
  have hright : x.mantissa + 1 / 2 ≤ ((i.floor j + 1 : ℕ) : ℚ) * 10 ^ j / 2 ^ x.scale := by
    by_contra hlt
    apply habove
    split <;> constructor <;> linarith
  have hstep : ((i.floor j + 1 : ℕ) : ℚ) * 10 ^ j / 2 ^ x.scale =
      (i.floor j : ℚ) * 10 ^ j / 2 ^ x.scale + 10 ^ j / 2 ^ x.scale := by
    push_cast
    ring
  have hdigit : (10 : ℚ) ^ 16 * (10 ^ j / 2 ^ x.scale) ≤ x.mantissa := by
    have hlow := pow_magnitude_le hpos hunit
    have hsplit : magnitude i.value i.unit - 1 = 16 + j := by omega
    rw [hvalue, ← div_le_iff₀ hpow, hsplit, zpow_add₀ (by norm_num)] at hlow
    rw [← mul_div_assoc]
    exact_mod_cast hlow
  have hlt := mantissa_lt_gap x
  linarith

/-- The shortest decimal of a number lies in its interval. -/
theorem contains_shortest (hx : 0 < x.mantissa) : (Interval.around x).Contains (shortest x).value := by
  rw [Decimal.value, ← holds_iff (unit_pos x)]
  apply firstGrid_holds _ (by decide)
  obtain ⟨c, hc⟩ := seventeen_digits hx
  exact ⟨c, by simpa using hc⟩

theorem shortest_pos (hx : 0 < x.mantissa) : 0 < (shortest x).digits := by
  have h := contains_shortest hx
  have hgap := x.gapBelow_le
  have hone : (1 : ℚ) ≤ x.mantissa := by exact_mod_cast hx
  rw [Binary64.contains_around hx] at h
  have hpos : 0 < (shortest x).value / 2 ^ x.scale := by
    split at h <;> linarith [h.1]
  by_contra hzero
  have : (shortest x).digits = 0 := by omega
  simp [Decimal.value, this] at hpos

end Shortest

section Layouts

variable {d : Decimal}

theorem readDigits_append (xs ys : List Char) :
    readDigits (xs ++ ys) = readDigits xs * 10 ^ ys.length + readDigits ys := by
  have hfold (n : ℕ) : ys.foldl (fun n c => 10 * n + digitValue c) n = n * 10 ^ ys.length + readDigits ys := by
    rw [readDigits]
    induction ys generalizing n with
    | nil => simp
    | cons y ys ih =>
      rw [List.foldl_cons, List.foldl_cons, ih, ih (10 * 0 + digitValue y), List.length_cons]
      ring
  rw [readDigits, List.foldl_append]
  exact hfold _

theorem readDigits_zeros (k : ℕ) : readDigits (List.replicate k '0') = 0 := by
  induction k with
  | zero => rfl
  | succ k ih =>
    rw [List.replicate_succ']
    rw [readDigits_append, ih]
    rfl

theorem readDigits_toDigits (n : ℕ) : readDigits (Nat.toDigits 10 n) = n := by
  have := Nat.ofDigitChars_ten_toDigits (n := n)
  rwa [Nat.ofDigitChars_eq_foldl] at this

theorem placed_value (d : Decimal) : (∀ c ∈ d.placed.1, c.isDigit = true) ∧
    d.value = readDigits d.placed.1 * 10 ^ (d.placed.2 - d.placed.1.length) := by
  set ds := d.placed.1 with hds
  obtain ⟨k, hk⟩ : ∃ k, Nat.toDigits 10 d.digits = ds ++ List.replicate k '0' := by
    refine ⟨((Nat.toDigits 10 d.digits).reverse.takeWhile (· == '0')).length, ?_⟩
    have hzeros : (Nat.toDigits 10 d.digits).reverse.takeWhile (· == '0') = List.replicate
        ((Nat.toDigits 10 d.digits).reverse.takeWhile (· == '0')).length '0' := by
      apply List.eq_replicate_of_mem
      intro c hc
      simpa using List.all_eq_true.1 List.all_takeWhile c hc
    have hsplit := List.takeWhile_append_dropWhile (p := (· == '0')) (l := (Nat.toDigits 10 d.digits).reverse)
    rw [hds, placed, ← List.reverse_replicate, ← hzeros, ← List.reverse_append, hsplit, List.reverse_reverse]
  have hplace : d.placed.2 = (ds.length + k : ℕ) + d.exponent := by
    have hlength := congrArg List.length hk
    simp only [List.length_append, List.length_replicate] at hlength
    rw [← hlength]
    rfl
  have hdigits : d.digits = readDigits ds * 10 ^ k := by
    rw [← readDigits_toDigits d.digits, hk, readDigits_append, readDigits_zeros, List.length_replicate,
      Nat.add_zero]
  refine ⟨fun c hc => ?_, ?_⟩
  · apply Nat.isDigit_of_mem_toDigits (b := 10) (by decide) (by decide)
    rw [hk]
    exact List.mem_append_left _ hc
  · have hexponent : d.placed.2 - ds.length = k + d.exponent := by
      rw [hplace]
      push_cast
      ring
    rw [value, hexponent, zpow_add₀ (by norm_num), hdigits, zpow_natCast]
    push_cast
    ring

theorem layOut_point (hd : 0 < d.digits) (hpoint : '.' ∈ (d.layOut .plain).toList) :
    ∃ whole fraction, (d.layOut .plain).toList = whole ++ '.' :: fraction ∧ whole ≠ [] ∧ fraction ≠ [] ∧
      (∀ c ∈ whole ++ fraction, c.isDigit = true) ∧
      (readDigits (whole ++ fraction) : ℚ) / 10 ^ fraction.length = d.value := by
  obtain ⟨hisDigit, hvalue⟩ := placed_value d
  have hlayOut : d.layOut .plain = layOutPositional false d.placed.1 d.placed.2 := rfl
  have hne : d.placed.1 ≠ [] := by
    intro hnil
    rw [hnil] at hvalue
    have hpos := value_pos hd
    rw [hvalue] at hpos
    simp [readDigits] at hpos
  rw [hlayOut] at hpoint ⊢
  rw [hvalue]
  generalize d.placed.1 = ds at *
  generalize d.placed.2 = place at *
  by_cases hsmall : place ≤ 0
  · have htext : (layOutPositional false ds place).toList =
        ['0'] ++ '.' :: (List.replicate (-place).toNat '0' ++ ds) := by
      simp [layOutPositional, hsmall, zeros]
    refine ⟨['0'], List.replicate (-place).toNat '0' ++ ds, htext, by simp, by simp [hne], ?_, ?_⟩
    · simp only [List.mem_append, List.mem_singleton, List.mem_replicate]
      rintro c (rfl | ⟨-, rfl⟩ | hc)
      · rfl
      · rfl
      · exact hisDigit c hc
    · have hread : readDigits (['0'] ++ (List.replicate (-place).toNat '0' ++ ds)) = readDigits ds := by
        have hzero := readDigits_zeros 1
        rw [readDigits_append, readDigits_append, readDigits_zeros, ← List.replicate_one, hzero]
        simp
      have hlength : ((List.replicate (-place).toNat '0' ++ ds).length : ℤ) = ds.length - place := by
        rw [List.length_append, List.length_replicate]
        omega
      rw [hread, ← zpow_natCast, hlength, div_eq_mul_inv, ← zpow_neg, neg_sub]
  by_cases hwhole : ds.length ≤ place.toNat
  · exfalso
    have htext : (layOutPositional false ds place).toList =
        ds ++ List.replicate (place.toNat - ds.length) '0' := by
      simp [layOutPositional, hsmall, hwhole, zeros]
    rw [htext, List.mem_append, List.mem_replicate] at hpoint
    rcases hpoint with hpoint | ⟨-, hpoint⟩
    · cases hisDigit _ hpoint
    · cases hpoint
  · have htext : (layOutPositional false ds place).toList =
        ds.take place.toNat ++ '.' :: ds.drop place.toNat := by
      simp [layOutPositional, hsmall, hwhole]
    refine ⟨ds.take place.toNat, ds.drop place.toNat, htext, ?_, ?_, ?_, ?_⟩
    · simp [hne]
      omega
    · simp
      omega
    · rwa [List.take_append_drop]
    · have hlength : ((ds.drop place.toNat).length : ℤ) = ds.length - place := by
        rw [List.length_drop]
        omega
      rw [List.take_append_drop, ← zpow_natCast, hlength, div_eq_mul_inv, ← zpow_neg, neg_sub]

end Layouts

end QuerySearch.Decimal

namespace QuerySearch.Binary64

open Decimal

theorem text_point {x : Binary64} (hfinite : x.isFinite = true) (hpoint : '.' ∈ (x.text .plain).toList) :
    ∃ whole fraction,
      (x.text .plain).toList = (if x.isNegative then ['-'] else []) ++ (whole ++ '.' :: fraction) ∧
      whole ≠ [] ∧ fraction ≠ [] ∧ (∀ c ∈ whole ++ fraction, c.isDigit = true) ∧
      ofDecimal x.isNegative whole fraction = x := by
  have hzero : x.isZero = false := by
    by_contra h
    cases hneg : x.isNegative <;> simp [text, hneg, Bool.not_eq_false _ ▸ h, Layout.plain] at hpoint
  have htext : (x.text .plain).toList =
      (if x.isNegative then ['-'] else []) ++ ((shortest x).layOut .plain).toList := by
    cases hneg : x.isNegative <;> simp [text, hneg, hzero]
  have hx := mantissa_pos hzero
  have hpoint' : '.' ∈ ((shortest x).layOut .plain).toList := by
    rw [htext, List.mem_append] at hpoint
    refine hpoint.resolve_left fun h => ?_
    cases hneg : x.isNegative <;> simp [hneg] at h
  obtain ⟨whole, fraction, hlayOut, hwhole, hfraction, hdigits, hvalue⟩ := layOut_point (shortest_pos hx) hpoint'
  refine ⟨whole, fraction, by rw [htext, hlayOut], hwhole, hfraction, hdigits, ?_⟩
  have hcontains : (Interval.around x).Contains
      ((readDigits (whole ++ fraction) : ℚ) / (withZeros 1 fraction.length : ℕ)) := by
    have hpow : ((withZeros 1 fraction.length : ℕ) : ℚ) = 10 ^ fraction.length := by
      rw [withZeros_eq, Nat.cast_one, one_mul]
    rw [hpow, hvalue]
    exact contains_shortest hx
  have hpos : 0 < readDigits (whole ++ fraction) := by
    by_contra hzero
    have hvalue_pos := value_pos (shortest_pos hx)
    have : readDigits (whole ++ fraction) = 0 := by omega
    simp [← hvalue, this] at hvalue_pos
  exact ofRatio_of_contains hfinite hx hpos (Nat.mul_pos (by decide) (Nat.pow_pos (by decide))) hcontains

end QuerySearch.Binary64
