import Reckoner.Proofs.SquareRoot.Convergence
import Reckoner.Proofs.SquareRoot.Newton

/-!
# What closeness of two guesses means

The search compares two guesses in a row, not a guess with the root.  Still the root is as near to the
second guess as the first one is, up to rounding: a guess and the value divided by it lie on either
side of the root and equally far from their mean, and the mean is the next guess.

`tolerance` is the requested precision with the rounding of one step.  Nothing is said about a search
that ends because its budget is used up.
-/

namespace Reckoner
namespace SquareRoot

open Double

/-- A precision, widened by what the roundings of a step can do to a guess. -/
def tolerance (precision guess : ℚ) : ℚ := precision + 1 / 2 ^ 49 * (guess + precision)

theorem three_roundings :
    1 - 4 * roundoff ≤ (1 - roundoff) ^ 3 ∧ (1 + roundoff) ^ 3 ≤ 1 + 4 * roundoff := by
  norm_num [roundoff]

section

variable {value guess : Double} (hone : 1 ≤ value.toRat) (h : InRange value guess)

include hone h

/-- The value is the product of two numbers equally far from the mean, one of them the guess. -/
theorem value_eq : value.toRat =
    (mean value guess - |mean value guess - guess.toRat|) *
      (mean value guess + |mean value guess - guess.toRat|) := by
  have hguess := guess_pos hone h
  have hproduct : value.toRat = guess.toRat * (2 * mean value guess - guess.toRat) := by
    rw [mean]
    field_simp
    ring
  rw [mul_comm, ← sq_sub_sq, sq_abs, hproduct]
  ring

/-- Both of them are positive. -/
theorem abs_mean_sub_lt : |mean value guess - guess.toRat| < mean value guess := by
  have hguess := guess_pos hone h
  have hquotient : 0 < value.toRat / guess.toRat := div_pos (by linarith) hguess
  rw [abs_lt]
  constructor <;> unfold mean <;> linarith

/-- The smaller one is hardly below the next guess when that is close. -/
theorem sub_tolerance_le (hvalue : value.isFinite = true) {p : ℚ}
    (hclose : |(next value guess).toRat - guess.toRat| < p) :
    (next value guess).toRat - tolerance p (next value guess).toRat ≤
      (1 - roundoff) * (mean value guess - |mean value guess - guess.toRat|) := by
  have hmean := mean_pos hone h
  have hnext := within_next hone h hvalue
  have hlow := (mul_le_mul_of_nonneg_right three_roundings.1 hmean.le).trans hnext.lower
  have hhigh := hnext.upper.trans (mul_le_mul_of_nonneg_right three_roundings.2 hmean.le)
  have hgap : |mean value guess - guess.toRat| < 4 * roundoff * mean value guess + p := by
    obtain ⟨hleft, hright⟩ := abs_lt.mp hclose
    rw [abs_lt]
    constructor <;> linarith
  have hp : 0 < p := (abs_nonneg _).trans_lt hclose
  have hu : roundoff = 1 / 2 ^ 53 := rfl
  rw [hu] at hhigh hgap ⊢
  unfold tolerance
  linarith

/-- Below the next guess by more than the tolerance, squares are below the value. -/
theorem sq_sub_tolerance_le (hvalue : value.isFinite = true) {p : ℚ}
    (hclose : |(next value guess).toRat - guess.toRat| < p) :
    max 0 ((next value guess).toRat - tolerance p (next value guess).toRat) ^ 2 ≤
      (1 - roundoff) ^ 2 * value.toRat := by
  obtain ⟨small, hsmall⟩ : ∃ small, small =
    mean value guess - |mean value guess - guess.toRat| := ⟨_, rfl⟩
  have hpositive : 0 < small := hsmall ▸ sub_pos.mpr (abs_mean_sub_lt hone h)
  have hu : 0 ≤ 1 - roundoff := by norm_num [roundoff]
  have hbound := sub_tolerance_le hone h hvalue hclose
  rw [← hsmall] at hbound
  calc max 0 ((next value guess).toRat - tolerance p (next value guess).toRat) ^ 2
      ≤ ((1 - roundoff) * small) ^ 2 :=
        pow_le_pow_left₀ (le_max_left _ _) (max_le (mul_nonneg hu hpositive.le) hbound) 2
    _ = (1 - roundoff) ^ 2 * (small * small) := by ring
    _ ≤ (1 - roundoff) ^ 2 * value.toRat := by
        refine mul_le_mul_of_nonneg_left ?_ (by positivity)
        conv_rhs => rw [value_eq hone h, ← hsmall]
        refine mul_le_mul_of_nonneg_left ?_ hpositive.le
        linarith [abs_nonneg (mean value guess - guess.toRat)]

end

section

variable {n : Int} (hpos : 1 ≤ n) {value : Double} (hvalue : ofInt? n = .ok value)
  {precision : Double} (hprecision : precision.isFinite = true) {i : Nat}
  (hclose : CloseAfter value (.double precision) i)

include hpos hvalue hprecision hclose

/-- A guess that is close to the one before it is within the tolerance of the root. -/
theorem near_root_of_closeAfter :
    max 0 ((guessAt value (i + 1)).toRat -
        tolerance precision.toRat (guessAt value (i + 1)).toRat) ^ 2 ≤ n ∧
      n ≤ ((guessAt value (i + 1)).toRat +
        tolerance precision.toRat (guessAt value (i + 1)).toRat) ^ 2 := by
  obtain ⟨hfinite, hone⟩ := one_le_of_ofInt? hpos hvalue
  have hgap := (exceeds_iff_of_isFinite hprecision _).mp (exceeds_of_converged hclose)
  have hnonneg : (0 : ℚ) ≤ n := by exact_mod_cast (by omega : 0 ≤ n)
  have hguess := (guess_pos hone (inRange_guessAt hfinite hone (i + 1))).le
  have hp : 0 ≤ precision.toRat := (abs_nonneg _).trans hgap.le
  constructor
  · calc _ ≤ (1 - roundoff) ^ 2 * value.toRat :=
          sq_sub_tolerance_le hone (inRange_guessAt hfinite hone i) hfinite hgap
      _ ≤ (1 - roundoff) ^ 2 * ((1 + roundoff) ^ 1 * n) :=
          mul_le_mul_of_nonneg_left (within_of_ofInt? hpos hvalue).upper (by positivity)
      _ = ((1 - roundoff) ^ 2 * (1 + roundoff) ^ 1) * n := (mul_assoc _ _ _).symm
      _ ≤ n := mul_le_of_le_one_left hnonneg (by norm_num [roundoff])
  · calc (n : ℚ) ≤ n * ((1 - 1 / 2 ^ 50) * (1 + 1 / 2 ^ 49) ^ 2) :=
          le_mul_of_one_le_right hnonneg (by norm_num)
      _ = n * (1 - 1 / 2 ^ 50) * (1 + 1 / 2 ^ 49) ^ 2 := (mul_assoc _ _ _).symm
      _ ≤ (guessAt value (i + 1)).toRat ^ 2 * (1 + 1 / 2 ^ 49) ^ 2 :=
          mul_le_mul_of_nonneg_right (le_sq_guessAt hpos hvalue i) (by positivity)
      _ = ((guessAt value (i + 1)).toRat * (1 + 1 / 2 ^ 49)) ^ 2 := (mul_pow _ _ 2).symm
      _ ≤ _ := by
          refine pow_le_pow_left₀ (by positivity) ?_ 2
          unfold tolerance
          linarith

end

/-- When the search ends because two guesses are close, it returns the second one, and the root of
the number is within the tolerance of it. -/
theorem close_exit_is_near_root {n : Int} (hpos : 1 ≤ n) {precision : Double} {iterations : Int}
    (h : Admissible precision iterations) {v : Double}
    (hexit : searchExit n (.double precision) iterations = .ok (.close, v)) :
    root (.int n) (.double precision) iterations = .ok (.success (.double v)) ∧
      max 0 (v.toRat - tolerance precision.toRat v.toRat) ^ 2 ≤ n ∧
      n ≤ (v.toRat + tolerance precision.toRat v.toRat) ^ 2 := by
  refine ⟨by rw [root_eq_map (by omega) h.positive h.one_le, hexit, Except.map], ?_⟩
  cases hvalue : ofInt? n with
  | error fault =>
      rw [searchExit, hvalue] at hexit
      cases hexit
  | ok value =>
      rcases searchExit_cases hpos hvalue (.double precision) iterations with
        ⟨i, -, hclose, heq⟩ | heq
      · rw [hexit, Except.ok.injEq, Prod.mk.injEq] at heq
        rw [heq.2]
        exact near_root_of_closeAfter hpos hvalue h.isFinite hclose
      · rw [hexit, Except.ok.injEq, Prod.mk.injEq] at heq
        cases heq.1

/-- With the precision one, the search for the root of sixteen ends at its third guess. -/
theorem coarse_search_is_near_four :
    ∃ v, searchExit 16 (.double (ofInt 1)) 20 = .ok (.close, v) ∧
      root (.int 16) (.double (ofInt 1)) 20 = .ok (.success (.double v)) ∧
      max 0 (v.toRat - tolerance (ofInt 1).toRat v.toRat) ^ 2 ≤ (16 : ℤ) ∧
      ((16 : ℤ) : ℚ) ≤ (v.toRat + tolerance (ofInt 1).toRat v.toRat) ^ 2 := by
  have hexit : searchExit 16 (.double (ofInt 1)) 20 = .ok (.close, guessAt (ofInt 16) 2) := by
    decide +kernel
  exact ⟨_, hexit, close_exit_is_near_root (by decide)
    ⟨by decide +kernel, by decide +kernel, by decide⟩ hexit⟩

/-! ### Accuracy -/

/-- The square of the guess is within one hundredth of the number. -/
def Accurate (n : Int) (guess : Double) : Prop := |guess.toRat ^ 2 - n| ≤ 1 / 100 * n

/-- A guess after the first is never too small, so it is accurate when it is not too large. -/
theorem accurate_guessAt_iff {n : Int} (hpos : 1 ≤ n) {value : Double}
    (hvalue : ofInt? n = .ok value) (i : Nat) :
    Accurate n (guessAt value (i + 1)) ↔
      (guessAt value (i + 1)).toRat ^ 2 ≤ 101 / 100 * n := by
  have hlow := le_sq_guessAt hpos hvalue i
  have hone : (1 : ℚ) ≤ n := by exact_mod_cast hpos
  rw [Accurate, abs_le]
  exact ⟨fun h => by linarith [h.2], fun h => ⟨by linarith, by linarith⟩⟩

theorem rounds_thousandth : Rounds (1 / 1000) thousandth := by
  have hrounds := rounds_ofRatio false unitsPerOne (show 0 < 1000 by decide)
  rw [signed_false, Int.cast_natCast, div_right_comm, div_self unitsPerOne_ne_zero] at hrounds
  exact_mod_cast hrounds

theorem isFinite_thousandth : thousandth.isFinite = true := by
  have hone : Representable (1 : ℤ) := representable_intCast (by norm_num)
  refine (rounds_thousandth.mem_interval representable_zero hone ?_ ?_ ?_ ?_).1
  · norm_num
  · norm_num
  · exact neg_lt_zero.mpr limit_pos
  · exact (le_abs_self _).trans_lt (abs_intCast_lt_limit (by norm_num))

theorem toRat_thousandth_mem : 0 < thousandth.toRat ∧ thousandth.toRat ≤ 1 / 999 := by
  have hwithin := (rounds_thousandth.isRounding isFinite_thousandth).within
    (leastNormal_le.trans (by norm_num))
  exact ⟨lt_of_lt_of_le (by norm_num [roundoff]) hwithin.lower,
    hwithin.upper.trans (by norm_num [roundoff])⟩

/-- A guess that is close to the one before it is accurate, if the precision is the default one or
finer. -/
theorem accurate_of_closeAfter {n : Int} (hpos : 1 ≤ n) {value : Double}
    (hvalue : ofInt? n = .ok value) {precision : Double} (hprecision : precision.isFinite = true)
    (hfine : precision.toRat ≤ thousandth.toRat) {i : Nat}
    (hclose : CloseAfter value (.double precision) i) : Accurate n (guessAt value (i + 1)) := by
  obtain ⟨hfinite, hone⟩ := one_le_of_ofInt? hpos hvalue
  have hlow := (near_root_of_closeAfter hpos hvalue hprecision hclose).1
  have hguess := (half_le_lower hone).trans (inRange_guessAt hfinite hone (i + 1)).lower_le
  have hp := hfine.trans toRat_thousandth_mem.2
  rw [accurate_guessAt_iff hpos hvalue]
  generalize (guessAt value (i + 1)).toRat = v at hlow hguess ⊢
  -- A guess is at least one half, so the tolerance is a small part of it.
  have htolerance : tolerance precision.toRat v ≤ 21 / 10000 * v := by
    unfold tolerance
    linarith
  have hbelow : (9979 / 10000 * v) ^ 2 ≤ n :=
    (pow_le_pow_left₀ (by linarith) (le_max_of_le_right (by linarith)) 2).trans hlow
  rw [mul_pow] at hbelow
  linarith [sq_nonneg v]

end SquareRoot
end Reckoner
