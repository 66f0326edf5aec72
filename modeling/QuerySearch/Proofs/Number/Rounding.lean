import Mathlib.Algebra.Order.Field.Power
import Mathlib.Data.Rat.Cast.Order
import Mathlib.Tactic.FieldSimp
import Mathlib.Tactic.Linarith
import Mathlib.Tactic.NormNum
import Mathlib.Tactic.Positivity
import Mathlib.Tactic.Ring
import QuerySearch.Number.Decimal

/-! Rounding to double precision.  Every ratio in the interval of a finite number rounds to this
number. -/

namespace QuerySearch

theorem zpow_mul_toNat {b : ℚ} (hb : b ≠ 0) (e : ℤ) : b ^ e * b ^ (-e).toNat = b ^ e.toNat := by
  rw [← zpow_natCast, ← zpow_natCast, ← zpow_add₀ hb]
  congr 1
  omega

namespace Binary64

section Places

variable {n d : ℕ} {e : ℤ}

theorem scaled_div (n : ℕ) {d : ℕ} (hd : 0 < d) (e : ℤ) :
    ((scaled n d e).1 : ℚ) / (scaled n d e).2 = n / d / 2 ^ e ∧ 0 < (scaled n d e).2 := by
  have hpow := zpow_mul_toNat (b := 2) (by norm_num) e
  have hd' : (d : ℚ) ≠ 0 := by positivity
  have he : (2 : ℚ) ^ e ≠ 0 := by positivity
  refine ⟨?_, by simp only [scaled, Nat.shiftLeft_eq]; positivity⟩
  simp only [scaled, Nat.shiftLeft_eq]
  push_cast
  rw [← hpow]
  field_simp

theorem log2_brackets (hn : 0 < n) (hd : 0 < d) :
    (2 : ℚ) ^ ((n.log2 : ℤ) - d.log2 - 1) < (n : ℚ) / d ∧
      (n : ℚ) / d < 2 ^ ((n.log2 : ℤ) - d.log2 + 1) := by
  have hnLow : (2 : ℚ) ^ n.log2 ≤ n := by exact_mod_cast Nat.log2_self_le hn.ne'
  have hnHigh : (n : ℚ) < 2 ^ (n.log2 + 1) := by exact_mod_cast Nat.lt_log2_self
  have hdLow : (2 : ℚ) ^ d.log2 ≤ d := by exact_mod_cast Nat.log2_self_le hd.ne'
  have hdHigh : (d : ℚ) < 2 ^ (d.log2 + 1) := by exact_mod_cast Nat.lt_log2_self
  have hd' : (0 : ℚ) < d := by exact_mod_cast hd
  have hn' : (0 : ℚ) < n := by exact_mod_cast hn
  constructor
  · have hsplit : (2 : ℚ) ^ ((n.log2 : ℤ) - d.log2 - 1) = 2 ^ n.log2 / 2 ^ (d.log2 + 1) := by
      rw [sub_sub, zpow_sub₀ (by norm_num)]
      norm_cast
    rw [hsplit]
    calc (2 : ℚ) ^ n.log2 / 2 ^ (d.log2 + 1) ≤ n / 2 ^ (d.log2 + 1) := by gcongr
      _ < n / d := by gcongr
  · have hsplit : (2 : ℚ) ^ ((n.log2 : ℤ) - d.log2 + 1) = 2 ^ (n.log2 + 1) / 2 ^ d.log2 := by
      rw [sub_add_eq_add_sub, zpow_sub₀ (by norm_num)]
      norm_cast
    rw [hsplit]
    calc (n : ℚ) / d < 2 ^ (n.log2 + 1) / d := by gcongr
      _ ≤ 2 ^ (n.log2 + 1) / 2 ^ d.log2 := by gcongr

theorem lastPlace_spec (hn : 0 < n) (hd : 0 < d) : ∃ e : ℤ,
    (2 : ℚ) ^ (e + 52) ≤ (n : ℚ) / d ∧ (n : ℚ) / d < 2 ^ (e + 53) ∧ lastPlace n d = max (-1074) e := by
  obtain ⟨hlow, hhigh⟩ := log2_brackets hn hd
  set e : ℤ := (n.log2 : ℤ) - d.log2 - 52 with he
  obtain ⟨hdiv, hpos⟩ := scaled_div n hd e
  have hlt : (scaled n d e).1 < (scaled n d e).2 <<< 52 ↔ (n : ℚ) / d < 2 ^ (e + 52) := by
    have hpos' : (0 : ℚ) < (scaled n d e).2 := by exact_mod_cast hpos
    have hpow : (0 : ℚ) < 2 ^ e := by positivity
    rw [Nat.shiftLeft_eq, zpow_add₀ (by norm_num), mul_comm ((2 : ℚ) ^ e), ← div_lt_iff₀ hpow, ← hdiv,
      div_lt_iff₀ hpos', mul_comm]
    norm_cast
  have hlast : lastPlace n d =
      max (-1074) (if (scaled n d e).1 < (scaled n d e).2 <<< 52 then e - 1 else e) := rfl
  by_cases h : (n : ℚ) / d < 2 ^ (e + 52)
  · refine ⟨e - 1, ?_, ?_, by rw [hlast, if_pos (hlt.2 h)]⟩
    · have hplace : e - 1 + 52 = (n.log2 : ℤ) - d.log2 - 1 := by omega
      exact hplace ▸ hlow.le
    · have hplace : e - 1 + 53 = e + 52 := by omega
      exact hplace ▸ h
  · refine ⟨e, not_lt.1 h, ?_, by rw [hlast, if_neg (fun hl => h (hlt.1 hl))]⟩
    have hplace : e + 53 = (n.log2 : ℤ) - d.log2 + 1 := by omega
    exact hplace ▸ hhigh

theorem lastPlace_eq (hn : 0 < n) (hd : 0 < d) (he : -1074 ≤ e)
    (hlow : e = -1074 ∨ (2 : ℚ) ^ (e + 52) ≤ (n : ℚ) / d) (hhigh : (n : ℚ) / d < 2 ^ (e + 53)) :
    lastPlace n d = e := by
  obtain ⟨e', hlow', hhigh', hlast⟩ := lastPlace_spec hn hd
  have hle : e' + 52 < e + 53 := (zpow_lt_zpow_iff_right₀ (by norm_num)).1 (hlow'.trans_lt hhigh)
  rw [hlast]
  rcases hlow with rfl | hlow
  · omega
  · have hge : e + 52 < e' + 53 := (zpow_lt_zpow_iff_right₀ (by norm_num)).1 (hlow.trans_lt hhigh')
    omega

end Places

section Nearest

variable {n d k : ℕ} {e : ℤ} {v : ℚ}

def NearestEven (v : ℚ) (k : ℕ) : Prop :=
  if k % 2 = 0 then (k : ℚ) - 1 / 2 ≤ v ∧ v ≤ k + 1 / 2 else (k : ℚ) - 1 / 2 < v ∧ v < k + 1 / 2

theorem divNearestEven_eq (hd : 0 < d) (h : NearestEven ((n : ℚ) / d) k) : divNearestEven n d = k := by
  have hd' : (0 : ℚ) < d := by exact_mod_cast hd
  have hlow : ((k : ℚ) - 1 / 2 ≤ (n : ℚ) / d ↔ 2 * k * d ≤ 2 * n + d) ∧
      ((k : ℚ) - 1 / 2 < (n : ℚ) / d ↔ 2 * k * d < 2 * n + d) := by
    rw [le_div_iff₀ hd', lt_div_iff₀ hd', ← Nat.cast_le (α := ℚ), ← Nat.cast_lt (α := ℚ)]
    push_cast
    constructor <;> constructor <;> intro h <;> linarith
  have hhigh : ((n : ℚ) / d ≤ k + 1 / 2 ↔ 2 * n ≤ 2 * k * d + d) ∧
      ((n : ℚ) / d < k + 1 / 2 ↔ 2 * n < 2 * k * d + d) := by
    rw [div_le_iff₀ hd', div_lt_iff₀ hd', ← Nat.cast_le (α := ℚ), ← Nat.cast_lt (α := ℚ)]
    push_cast
    constructor <;> constructor <;> intro h <;> linarith
  rw [NearestEven, hlow.1, hlow.2, hhigh.1, hhigh.2] at h
  have hbounds : 2 * k * d ≤ 2 * n + d ∧ 2 * n ≤ 2 * k * d + d := by
    split at h
    · exact h
    · exact ⟨h.1.le, h.2.le⟩
  have hdiv := Nat.div_add_mod n d
  have hmod := Nat.mod_lt n hd
  rw [divNearestEven]
  generalize n / d = q at hdiv ⊢
  generalize n % d = r at hdiv hmod ⊢
  have hfloor : q ≤ k := by
    by_contra hlt
    have : d * (k + 1) ≤ d * q := Nat.mul_le_mul_left d (by omega)
    linarith
  have hceil : k ≤ q + 1 := by
    by_contra hlt
    have : d * (q + 2) ≤ d * k := Nat.mul_le_mul_left d (by omega)
    linarith
  have hodd : k % 2 = 1 → 2 * k * d < 2 * n + d ∧ 2 * n < 2 * k * d + d := by
    intro hk
    rwa [if_neg (by omega)] at h
  obtain rfl | rfl : k = q ∨ k = q + 1 := by omega
  · have hhalf : 2 * r ≤ d := by linarith
    have hstrict : k % 2 = 1 → 2 * r < d := fun hk => by linarith [hodd hk]
    split_ifs <;> omega
  · have hhalf : d ≤ 2 * r := by linarith
    have hstrict : (q + 1) % 2 = 1 → d < 2 * r := fun hk => by linarith [hodd hk]
    split_ifs <;> omega

theorem magnitudeBits_eq (hn : 0 < n) (hd : 0 < d) (he : lastPlace n d = e)
    (hk : NearestEven ((n : ℚ) / d / 2 ^ e) k) :
    magnitudeBits n d = min ((e + 1074).toNat <<< 52 + k) (0x7ff <<< 52) := by
  obtain ⟨hdiv, hpos⟩ := scaled_div n hd e
  rw [← hdiv] at hk
  rw [magnitudeBits, if_neg hn.ne', he, ← divNearestEven_eq hpos hk]

end Nearest

section Fields

variable (x : Binary64)

theorem bits_eq : x.bits.toNat =
    (if x.isNegative then 0x8000000000000000 else 0) + (x.exponentField <<< 52 + x.fractionField) := by
  have hlt := x.bits.toNat_lt
  rw [isNegative, exponentField, fractionField, Nat.testBit_eq_decide_div_mod_eq,
    Nat.shiftRight_eq_div_pow, Nat.shiftLeft_eq]
  by_cases h : x.bits.toNat / 2 ^ 63 % 2 = 1
  · rw [if_pos (decide_eq_true h)]
    omega
  · rw [if_neg (by simpa using h)]
    omega

theorem scale_mantissa_cases :
    (x.exponentField = 0 ∧ x.scale = -1074 ∧ x.mantissa = x.fractionField) ∨
    (x.exponentField ≠ 0 ∧ x.scale = (x.exponentField : ℤ) - 1075 ∧ x.mantissa = 2 ^ 52 + x.fractionField) := by
  by_cases h : x.exponentField = 0
  · exact .inl ⟨h, if_pos h, if_pos h⟩
  · exact .inr ⟨h, if_neg h, if_neg h⟩

theorem fractionField_lt : x.fractionField < 2 ^ 52 := Nat.mod_lt _ (by decide)

theorem fields_eq :
    x.exponentField <<< 52 + x.fractionField = (x.scale + 1074).toNat <<< 52 + x.mantissa := by
  rw [Nat.shiftLeft_eq, Nat.shiftLeft_eq]
  have := x.scale_mantissa_cases
  omega

theorem le_scale : -1074 ≤ x.scale := by
  have := x.scale_mantissa_cases
  omega

theorem mantissa_lt : x.mantissa < 2 ^ 53 := by
  have := x.scale_mantissa_cases
  have := x.fractionField_lt
  omega

theorem scale_eq_or_le_mantissa : x.scale = -1074 ∨ 2 ^ 52 ≤ x.mantissa := by
  have := x.scale_mantissa_cases
  omega

variable {x}

theorem mantissa_pos (h : x.isZero = false) : 0 < x.mantissa := by
  simp only [isZero, Bool.and_eq_false_iff, beq_eq_false_iff_ne] at h
  have := x.scale_mantissa_cases
  omega

theorem exponentField_lt (h : x.isFinite = true) : x.exponentField < 2047 := by
  have : x.exponentField < 2048 := Nat.mod_lt _ (by decide)
  simp only [isFinite, bne_iff_ne] at h
  omega

end Fields

end Binary64

namespace Decimal

def Interval.Contains (i : Interval) (v : ℚ) : Prop :=
  if i.closed then (i.lower : ℚ) / i.unit ≤ v ∧ v ≤ i.upper / i.unit
  else (i.lower : ℚ) / i.unit < v ∧ v < i.upper / i.unit

end Decimal

namespace Binary64

open Decimal

section Intervals

variable {x : Binary64} {v : ℚ}

def gapBelow (x : Binary64) : ℚ := if x.fractionField = 0 && 1 < x.exponentField then 1 / 4 else 1 / 2

theorem gapBelow_le (x : Binary64) : x.gapBelow ≤ 1 / 2 := by
  rw [gapBelow]
  split_ifs <;> norm_num

theorem gapBelow_pos (x : Binary64) : 0 < x.gapBelow := by
  rw [gapBelow]
  split_ifs <;> norm_num

theorem around_div (n : ℕ) (x : Binary64) :
    ((n <<< x.scale.toNat : ℕ) : ℚ) / (Interval.around x).unit = n / 4 * 2 ^ x.scale := by
  have h := (scaled_div n (d := 4) (by decide) (-x.scale)).1
  simpa [scaled, Interval.around] using h

theorem contains_around (hx : 0 < x.mantissa) : (Interval.around x).Contains v ↔
    if x.mantissa % 2 = 0 then x.mantissa - x.gapBelow ≤ v / 2 ^ x.scale ∧ v / 2 ^ x.scale ≤ x.mantissa + 1 / 2
    else x.mantissa - x.gapBelow < v / 2 ^ x.scale ∧ v / 2 ^ x.scale < x.mantissa + 1 / 2 := by
  have hpow : (0 : ℚ) < 2 ^ x.scale := by positivity
  have hlower : ((Interval.around x).lower : ℚ) / (Interval.around x).unit =
      (x.mantissa - x.gapBelow) * 2 ^ x.scale := by
    have h := around_div (4 * x.mantissa - if x.fractionField = 0 && 1 < x.exponentField then 1 else 2) x
    refine h.trans ?_
    rw [gapBelow, Nat.cast_sub (by split_ifs <;> omega)]
    split_ifs <;> push_cast <;> ring
  have hupper : ((Interval.around x).upper : ℚ) / (Interval.around x).unit =
      (x.mantissa + 1 / 2) * 2 ^ x.scale := by
    refine (around_div (4 * x.mantissa + 2) x).trans ?_
    push_cast
    ring
  have hclosed : (Interval.around x).closed = decide (x.mantissa % 2 = 0) := rfl
  rw [Interval.Contains, hlower, hupper, hclosed, le_div_iff₀ hpow, div_le_iff₀ hpow, lt_div_iff₀ hpow,
    div_lt_iff₀ hpow]
  simp only [decide_eq_true_eq]

theorem nearestEven_of_contains (hx : 0 < x.mantissa) (h : (Interval.around x).Contains v) :
    NearestEven (v / 2 ^ x.scale) x.mantissa := by
  have hgap := x.gapBelow_le
  rw [contains_around hx] at h
  rw [NearestEven]
  split_ifs at h ⊢
  · exact ⟨by linarith [h.1], h.2⟩
  · exact ⟨by linarith [h.1], h.2⟩

theorem mantissa_of_below (hx : 0 < x.mantissa) (h : (Interval.around x).Contains v)
    (hscale : x.scale ≠ -1074) (hv : v < 2 ^ (x.scale + 52)) :
    x.mantissa = 2 ^ 52 ∧ (2 : ℚ) ^ 52 - 1 / 4 ≤ v / 2 ^ x.scale ∧ v / 2 ^ x.scale < 2 ^ 52 := by
  have hpow : (0 : ℚ) < 2 ^ x.scale := by positivity
  have hle := x.scale_eq_or_le_mantissa.resolve_left hscale
  have hlt : v / 2 ^ x.scale < 2 ^ 52 := by
    rw [div_lt_iff₀ hpow, mul_comm, ← zpow_natCast, ← zpow_add₀ (by norm_num)]
    exact hv
  have hgap := x.gapBelow_le
  have hlow : x.mantissa - x.gapBelow ≤ v / 2 ^ x.scale := by
    rw [contains_around hx] at h
    split_ifs at h
    · exact h.1
    · exact h.1.le
  have hmantissa : x.mantissa = 2 ^ 52 := by
    have : (x.mantissa : ℚ) < (2 ^ 52 + 1 : ℕ) := by push_cast; linarith
    have := Nat.cast_lt.1 this
    omega
  have hquarter : x.gapBelow = 1 / 4 := by
    have := x.scale_mantissa_cases
    have hfraction : x.fractionField = 0 := by omega
    have hexponent : 1 < x.exponentField := by omega
    simp [gapBelow, hfraction, hexponent]
  refine ⟨hmantissa, ?_, hlt⟩
  rw [hmantissa, hquarter] at hlow
  exact_mod_cast hlow

/-- A ratio in the interval of a finite number rounds to its bits. -/
theorem magnitudeBits_of_contains {n d : ℕ} (hfinite : x.isFinite = true) (hx : 0 < x.mantissa)
    (hn : 0 < n) (hd : 0 < d) (h : (Interval.around x).Contains ((n : ℚ) / d)) :
    magnitudeBits n d = x.exponentField <<< 52 + x.fractionField := by
  have hexponent := exponentField_lt hfinite
  have hfraction := x.fractionField_lt
  have hbound : x.exponentField <<< 52 + x.fractionField ≤ 0x7ff <<< 52 := by
    rw [Nat.shiftLeft_eq, Nat.shiftLeft_eq]
    omega
  have hscale := x.le_scale
  have hpow : (0 : ℚ) < 2 ^ x.scale := by positivity
  have hnear := nearestEven_of_contains hx h
  by_cases hplace : x.scale = -1074 ∨ (2 : ℚ) ^ (x.scale + 52) ≤ (n : ℚ) / d
  · have hhigh : (n : ℚ) / d < 2 ^ (x.scale + 53) := by
      have hle : (n : ℚ) / d / 2 ^ x.scale ≤ x.mantissa + 1 / 2 := by
        rw [NearestEven] at hnear
        split_ifs at hnear
        · exact hnear.2
        · exact hnear.2.le
      have hlt : (x.mantissa : ℚ) + 1 ≤ 2 ^ 53 := by exact_mod_cast x.mantissa_lt
      rw [zpow_add₀ (by norm_num), mul_comm, ← div_lt_iff₀ hpow]
      norm_num at hlt ⊢
      linarith
    have hlast := lastPlace_eq hn hd hscale hplace hhigh
    rw [magnitudeBits_eq hn hd hlast hnear, ← fields_eq]
    exact Nat.min_eq_left hbound
  · obtain ⟨hne, hbelow⟩ := not_or.1 hplace
    obtain ⟨hmantissa, hlow, hlt⟩ := mantissa_of_below hx h hne (not_le.1 hbelow)
    -- The ratio is rounded at half the last place of the number, to twice its mantissa.
    have hhalf : (n : ℚ) / d / 2 ^ (x.scale - 1) = 2 * ((n : ℚ) / d / 2 ^ x.scale) := by
      rw [zpow_sub_one₀ (by norm_num)]
      field_simp
    have hhigh : (n : ℚ) / d < 2 ^ (x.scale - 1 + 53) := by
      have : x.scale - 1 + 53 = x.scale + 52 := by omega
      exact this ▸ not_le.1 hbelow
    have hfirst : (2 : ℚ) ^ (x.scale - 1 + 52) ≤ (n : ℚ) / d := by
      have : x.scale - 1 + 52 = 51 + x.scale := by omega
      rw [this, zpow_add₀ (by norm_num), ← le_div_iff₀ hpow]
      norm_num at hlow ⊢
      linarith
    have hlast : lastPlace n d = x.scale - 1 := lastPlace_eq hn hd (by omega) (.inr hfirst) hhigh
    have hnearest : NearestEven ((n : ℚ) / d / 2 ^ (x.scale - 1)) (2 ^ 53) := by
      rw [NearestEven, if_pos (by norm_num), hhalf]
      norm_num at hlow hlt ⊢
      constructor <;> linarith
    rw [magnitudeBits_eq hn hd hlast hnearest]
    have hbits : (x.scale - 1 + 1074).toNat <<< 52 + 2 ^ 53 = x.exponentField <<< 52 + x.fractionField := by
      rw [fields_eq, hmantissa, Nat.shiftLeft_eq, Nat.shiftLeft_eq]
      omega
    rw [hbits]
    exact Nat.min_eq_left hbound

theorem ofRatio_of_contains {n d : ℕ} (hfinite : x.isFinite = true) (hx : 0 < x.mantissa) (hn : 0 < n)
    (hd : 0 < d) (h : (Interval.around x).Contains ((n : ℚ) / d)) : ofRatio x.isNegative n d = x := by
  rw [ofRatio, magnitudeBits_of_contains hfinite hx hn hd h, ← bits_eq]
  simp

end Intervals

end Binary64

end QuerySearch
