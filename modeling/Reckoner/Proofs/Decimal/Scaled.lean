import Mathlib.Algebra.Order.Field.Power
import Mathlib.Tactic.Positivity
import Reckoner.Decimal.Scaled
import Reckoner.Proofs.Decimal.Numeral
import Reckoner.Proofs.Double.Value

/-!
# The values of scaled decimals

The double that a scaled decimal becomes depends on its value only, not on how the value is split
into a coefficient and an exponent.  The decisions about exponents far outside the range of doubles
agree with the rounding, so no value is treated specially.
-/

namespace Reckoner
namespace Scaled

open Double (IsRounding limit unitsPerOne unitsPerOne_pos unitsPerOne_ne_zero roundUnits ofRatio)

/-- The value of a scaled decimal. -/
def value (d : Scaled) : ℚ := d.coefficient * 10 ^ d.exponent

theorem ratio_den_pos (d : Scaled) : 0 < d.ratio.2 := by
  unfold ratio
  split
  · exact Nat.one_pos
  · exact tenPow_pos _

theorem cast_tenPow (k : Nat) : (tenPow k : ℚ) = 10 ^ k := by
  rw [tenPow_eq, Nat.cast_pow, Nat.cast_ofNat]

theorem ratio_eq (d : Scaled) : (d.ratio.1 : ℚ) / d.ratio.2 = d.value * unitsPerOne := by
  unfold ratio value
  split
  · rename_i h
    obtain ⟨k, hk⟩ := Int.eq_ofNat_of_zero_le h
    rw [hk, Int.toNat_natCast, Nat.cast_mul, Nat.cast_mul, cast_tenPow, Nat.cast_one, div_one,
      zpow_natCast]
  · rename_i h
    obtain ⟨k, hk⟩ := Int.exists_eq_neg_ofNat (le_of_lt (not_le.mp h))
    rw [hk, neg_neg, Int.toNat_natCast, Nat.cast_mul, cast_tenPow, zpow_neg, zpow_natCast]
    field_simp

theorem isRounding_ratio (d : Scaled) :
    IsRounding d.value (roundUnits d.ratio.1 d.ratio.2 / unitsPerOne) := by
  have h := Double.isRounding_roundUnits d.ratio.1 d.ratio_den_pos
  rwa [ratio_eq, mul_div_cancel_right₀ _ unitsPerOne_ne_zero] at h

theorem roundUnits_congr {d e : Scaled} (h : d.value = e.value) :
    roundUnits d.ratio.1 d.ratio.2 = roundUnits e.ratio.1 e.ratio.2 := by
  have hd := d.isRounding_ratio
  rw [h] at hd
  have heq := hd.unique e.isRounding_ratio
  rw [div_left_inj' unitsPerOne_ne_zero] at heq
  exact Nat.cast_injective heq

/-! ### Size -/

theorem value_lt (d : Scaled) : d.value < 10 ^ d.point := by
  have hlt := (Numeral.length_digits_le_iff
    (List.length_pos_iff.mpr (Numeral.digits_ne_nil d.coefficient))).mp (le_refl _)
  have hcast : (d.coefficient : ℚ) < 10 ^ (Numeral.digits d.coefficient).length := by
    exact_mod_cast hlt
  rw [value, point, add_comm, zpow_add₀ (by norm_num), zpow_natCast]
  exact mul_lt_mul_of_pos_right hcast (zpow_pos (by norm_num) _)

theorem le_value {d : Scaled} (h : d.coefficient ≠ 0) : 10 ^ (d.point - 1) ≤ d.value := by
  obtain ⟨k, hk⟩ := Nat.exists_eq_succ_of_ne_zero
    (List.length_pos_iff.mpr (Numeral.digits_ne_nil d.coefficient)).ne'
  have hle : 10 ^ k ≤ d.coefficient := by
    rcases Nat.eq_zero_or_pos k with rfl | hpos
    -- Zero has one digit as well, so a single digit says nothing about the size.
    · exact Nat.one_le_iff_ne_zero.mpr h
    · by_contra hlt
      have := (Numeral.length_digits_le_iff hpos).mpr (not_le.mp hlt)
      omega
  have hcast : (10 : ℚ) ^ k ≤ d.coefficient := by exact_mod_cast hle
  have hpoint : d.point - 1 = k + d.exponent := by
    rw [point, hk]
    push_cast
    ring
  rw [value, hpoint, zpow_add₀ (by norm_num), zpow_natCast]
  exact mul_le_mul_of_nonneg_right hcast (zpow_pos (by norm_num) _).le

/-! ### Rounding -/

theorem unitsLimit_le_of_limit_le {d : Scaled} (h : limit ≤ d.value) :
    Double.unitsLimit ≤ roundUnits d.ratio.1 d.ratio.2 := by
  have hle := (Double.isRounding_self Double.representable_limit).mono d.isRounding_ratio h
  rwa [← not_lt, Double.div_unitsPerOne_lt_iff, not_lt] at hle

theorem roundUnits_of_small {num den : Nat} (h : 2 * num < den) : roundUnits num den = 0 := by
  have hzero : num / den = 0 := Nat.div_eq_of_lt (by omega)
  have hmod : num % den = num := Nat.mod_eq_of_lt (by omega)
  simp [roundUnits, Double.roundShift, roundDiv, hzero, hmod, h]

theorem ratio_small_of_zero {d : Scaled} (h : d.coefficient = 0) : 2 * d.ratio.1 < d.ratio.2 := by
  have hnum : d.ratio.1 = 0 := by
    unfold ratio
    split <;> simp [h]
  rw [hnum]
  exact d.ratio_den_pos

theorem limit_le_of_point {d : Scaled} (h : d.coefficient ≠ 0) (hpoint : 309 < d.point) :
    limit ≤ d.value := by
  have hpow : limit ≤ 10 ^ 309 := by
    have hnat : twoPow 1024 ≤ tenPow 309 := by decide +kernel
    rw [limit, ← cast_tenPow, ← Nat.cast_ofNat, ← Nat.cast_pow, ← twoPow_eq]
    exact Nat.cast_le.mpr hnat
  calc limit ≤ 10 ^ (309 : ℤ) := by exact_mod_cast hpow
    _ ≤ 10 ^ (d.point - 1) := zpow_le_zpow_right₀ (by norm_num) (by omega)
    _ ≤ d.value := le_value h

theorem ratio_small_of_point {d : Scaled} (hpoint : d.point < -323) :
    2 * d.ratio.1 < d.ratio.2 := by
  have hpos : (0 : ℚ) < 10 ^ 324 := pow_pos (by norm_num) 324
  have hunits : 2 * (unitsPerOne : ℚ) < 10 ^ 324 := by
    have hnat : 2 * unitsPerOne < tenPow 324 := by decide +kernel
    rw [← cast_tenPow]
    exact_mod_cast hnat
  have hvalue : d.value < (10 ^ 324)⁻¹ := by
    calc d.value < 10 ^ d.point := value_lt d
      _ ≤ 10 ^ (-324 : ℤ) := zpow_le_zpow_right₀ (by norm_num) (by omega)
      _ = (10 ^ 324)⁻¹ := by rw [zpow_neg]; rfl
  have hratio : 2 * ((d.ratio.1 : ℚ) / d.ratio.2) < 1 := by
    calc 2 * ((d.ratio.1 : ℚ) / d.ratio.2) = d.value * (2 * unitsPerOne) := by rw [ratio_eq]; ring
      _ ≤ (10 ^ 324)⁻¹ * (2 * unitsPerOne) :=
          mul_le_mul_of_nonneg_right hvalue.le (mul_pos two_pos unitsPerOne_pos).le
      _ < (10 ^ 324)⁻¹ * 10 ^ 324 := mul_lt_mul_of_pos_left hunits (inv_pos.mpr hpos)
      _ = 1 := inv_mul_cancel₀ hpos.ne'
  have hden : (0 : ℚ) < d.ratio.2 := Nat.cast_pos.mpr d.ratio_den_pos
  rw [← mul_div_assoc, div_lt_one hden] at hratio
  exact_mod_cast hratio

/-- The exact rounding decides in every case. -/
theorem toDouble_eq (negative : Bool) (d : Scaled) :
    d.toDouble negative = ofRatio negative d.ratio.1 d.ratio.2 := by
  unfold toDouble
  split
  · rename_i hzero
    exact (Double.ofRatio_eq_finite Double.isMagnitude_zero
      (roundUnits_of_small (ratio_small_of_zero hzero))).symm
  rename_i hcoefficient
  split
  · rename_i hpoint
    have hle := unitsLimit_le_of_limit_le (limit_le_of_point hcoefficient hpoint)
    exact (Double.ofRatio_eq_infinite hle).symm
  split
  · rename_i hpoint
    exact (Double.ofRatio_eq_finite Double.isMagnitude_zero
      (roundUnits_of_small (ratio_small_of_point hpoint))).symm
  · rfl

theorem toDouble_congr (negative : Bool) {d e : Scaled} (h : d.value = e.value) :
    d.toDouble negative = e.toDouble negative := by
  rw [toDouble_eq, toDouble_eq]
  unfold ofRatio
  congr 1
  exact roundUnits_congr h

end Scaled
end Reckoner
