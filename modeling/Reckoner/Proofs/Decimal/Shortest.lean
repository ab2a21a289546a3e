import Reckoner.Decimal.Scaled
import Reckoner.Proofs.Decimal.Scaled

/-!
# The shortest decimal reads back

Whatever the search for few digits returns rounds to the magnitude it was made for.  That holds for
each of its candidates by construction, and for the exact expansion because a magnitude is its own
rounding.  That no shorter decimal reads back is not shown here.
-/

namespace Reckoner
namespace Shortest

open Double (IsShort IsMagnitude unitsPerOne unitsPerOne_ne_zero roundUnits)

theorem readsBack_iff {units : Nat} {d : Scaled} :
    readsBack units d = true ↔ roundUnits d.ratio.1 d.ratio.2 = units := beq_iff_eq

theorem roundDiv_eq_or (num den : Nat) :
    roundDiv num den = num / den ∨ roundDiv num den = num / den + 1 := by
  have hle := le_roundDiv num den
  have hge := roundDiv_le num den
  omega

theorem accepts_of_neighbour? {accepts : Scaled → Bool} {num den : Nat} {exponent : Int}
    {d : Scaled} (h : neighbour? accepts num den exponent = some d) : accepts d = true := by
  unfold neighbour? at h
  split at h
  · cases h
  · rename_i hbelow _
    exact Option.some.inj h ▸ hbelow
  · rename_i habove
    exact Option.some.inj h ▸ habove
  · rename_i hbelow habove
    rw [← Option.some.inj h]
    -- Both neighbours are accepted, and the rounded quotient is one of them.
    rcases roundDiv_eq_or num den with hround | hround
    · rwa [hround]
    · rwa [hround]

theorem value_fivePow {units k : Nat} {exponent : Int} (h : exponent = -k) :
    (⟨units * fivePow k, exponent⟩ : Scaled).value = units / twoPow k := by
  have hpow : (5 : ℚ) ^ k * 10 ^ (-(k : ℤ)) = (2 ^ k)⁻¹ := by
    rw [zpow_neg, zpow_natCast, ← div_eq_mul_inv, ← div_pow, ← inv_pow]
    norm_num
  have hcast : (fivePow k : ℚ) = 5 ^ k := by
    exact_mod_cast rfl
  rw [Scaled.value, h, twoPow_eq, Nat.cast_mul, mul_assoc, hcast, hpow, Nat.cast_pow,
    Nat.cast_ofNat, div_eq_mul_inv]

theorem value_exact (units : Nat) : (exact units).value = units / unitsPerOne := by
  rw [Double.unitsPerOne_eq]
  exact value_fivePow (by norm_num)

theorem readsBack_exact {units : Nat} (h : IsShort units) : readsBack units (exact units) = true := by
  rw [readsBack_iff]
  have hrounding := (exact units).isRounding_ratio
  rw [value_exact] at hrounding
  have heq := hrounding.eq_of_representable (Double.representable_of_isShort h)
  rw [div_left_inj' unitsPerOne_ne_zero] at heq
  exact Nat.cast_injective heq

theorem readsBack_decimal {units : Nat} (h : IsShort units) :
    readsBack units (decimal units) = true := by
  unfold decimal
  cases hfound : (List.range 17).findSome? fun i => onGrid? units (i + 1) with
  | none => exact readsBack_exact h
  | some d =>
      obtain ⟨i, -, hi⟩ := List.exists_of_findSome?_eq_some hfound
      exact accepts_of_neighbour? hi

theorem coefficient_decimal_ne_zero {units : Nat} (h : IsShort units) (hunits : units ≠ 0) :
    (decimal units).coefficient ≠ 0 := by
  intro hzero
  apply hunits
  rw [← readsBack_iff.mp (readsBack_decimal h)]
  exact Scaled.roundUnits_of_small (Scaled.ratio_small_of_zero hzero)

/-- Reading the shortest decimal gives the double it was made for. -/
theorem toDouble_decimal (negative : Bool) {units : Nat} (h : IsMagnitude units) :
    (decimal units).toDouble negative = .finite negative units h := by
  rw [Scaled.toDouble_eq]
  exact Double.ofRatio_eq_finite h (readsBack_iff.mp (readsBack_decimal h.short))

end Shortest
end Reckoner
