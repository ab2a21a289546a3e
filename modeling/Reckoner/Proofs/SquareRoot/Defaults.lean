import Mathlib.Algebra.Order.Floor.Semifield
import Reckoner.Proofs.SquareRoot.Budget

/-!
# The default parameters

Twenty iterations are enough for small numbers only: an iteration halves a guess that is far too
large, and no more.  The largest number whose root is accurate with the default parameters is
`accurateLimit`; no larger one has an accurate root.

The two sides of the limit are shown by two sequences of whole numbers, one above the ratios of all
numbers up to the limit and one below the ratios of all numbers beyond it.  They count ratios in
parts of `2 ^ -64`, follow the steps of the search with more than its roundings, and are computed.
-/

namespace Reckoner
namespace SquareRoot

open Double

/-- The largest number whose root is accurate with the default parameters. -/
def accurateLimit : Nat := 489251278794

/-! ### Computed bounds on ratios -/

/-- How many parts make up the ratio one. -/
def parts : Nat := 2 ^ 64

/-- The roundings of a step are less than one in so many. -/
def fineness : Nat := 2 ^ 50

/-- At least what a step of the search makes of so many parts. -/
def stepUp (a : Nat) : Nat := (a + parts) ^ 2 * (fineness + 1) / (4 * a * fineness) + 1

/-- At most what a step of the search makes of so many parts. -/
def stepDown (a : Nat) : Nat := (a + parts) ^ 2 * (fineness - 1) / (4 * a * fineness)

/-- In parts, a bound on the ratios of the numbers up to the limit. -/
def ceiling (i : Nat) : Nat := stepUp^[i] (accurateLimit * parts / 4)

/-- In parts, a bound on the ratios of the numbers beyond the limit. -/
def floor (i : Nat) : Nat := stepDown^[i] ((accurateLimit + 1) * parts / 4)

theorem ceiling_succ (i : Nat) : ceiling (i + 1) = stepUp (ceiling i) :=
  Function.iterate_succ_apply' stepUp i _

theorem floor_succ (i : Nat) : floor (i + 1) = stepDown (floor i) :=
  Function.iterate_succ_apply' stepDown i _

theorem parts_pos : (0 : ℚ) < parts := by norm_num [parts]

theorem fineness_pos : (0 : ℚ) < fineness := by norm_num [fineness]

theorem slack_le : slack ≤ 1 / fineness := by norm_num [slack, roundoff, fineness]

theorem start_eq (m : Nat) : ((m * parts / 4 : Nat) / parts : ℚ) = m / 4 := by
  have hparts : parts = 4 * 2 ^ 62 := by decide
  rw [hparts, Nat.mul_left_comm, Nat.mul_div_cancel_left _ (by decide)]
  push_cast
  field_simp
  ring

theorem newton_parts {a : Nat} (ha : 0 < a) (factor : Nat) :
    (factor / fineness : ℚ) * newton (a / parts) =
      ((a + parts) ^ 2 * factor : Nat) / (4 * a * fineness : Nat) / parts := by
  have hpos : (0 : ℚ) < a := by exact_mod_cast ha
  have hparts := parts_pos
  have hfineness := fineness_pos
  rw [newton]
  push_cast
  field_simp

theorem le_stepUp {a : Nat} (ha : 0 < a) :
    (1 + 1 / fineness) * newton (a / parts) ≤ stepUp a / parts := by
  have hfactor : (1 + 1 / fineness : ℚ) = (fineness + 1 : Nat) / fineness := by
    push_cast
    rw [add_div, div_self fineness_pos.ne']
  rw [hfactor, newton_parts ha, stepUp, Nat.cast_add, Nat.cast_one,
    ← Nat.floor_div_eq_div (K := ℚ)]
  exact div_le_div_of_nonneg_right (Nat.lt_floor_add_one _).le parts_pos.le

theorem stepDown_le {a : Nat} (ha : 0 < a) :
    (stepDown a / parts : ℚ) ≤ (1 - 1 / fineness) * newton (a / parts) := by
  have hfactor : (1 - 1 / fineness : ℚ) = (fineness - 1 : Nat) / fineness := by
    rw [Nat.cast_sub (by decide), Nat.cast_one, sub_div, div_self fineness_pos.ne']
  rw [hfactor, newton_parts ha, stepDown]
  exact div_le_div_of_nonneg_right Nat.cast_div_le parts_pos.le

/-- A rounded step from below a number of parts stays below `stepUp`. -/
theorem step_le_stepUp {s : ℚ} (hs : 0 < s) {a : Nat} (ha : 0 < a) (hle : s ≤ a / parts)
    (hproduct : 1 ≤ s * (a / parts)) : (1 + slack) * newton s ≤ stepUp a / parts :=
  calc (1 + slack) * newton s
      ≤ (1 + 1 / fineness) * newton (a / parts) :=
        mul_le_mul (by linarith [slack_le]) (newton_mono hs hle hproduct)
          (zero_le_one.trans (one_le_newton hs)) (by positivity)
    _ ≤ stepUp a / parts := le_stepUp ha

/-- A rounded step from above a number of parts stays above `stepDown`. -/
theorem stepDown_le_step {s : ℚ} {a : Nat} (ha : parts ≤ a) (hle : a / parts ≤ s) :
    (stepDown a / parts : ℚ) ≤ (1 - slack) * newton s := by
  have hone : (1 : ℚ) ≤ a / parts := by
    rw [one_le_div parts_pos]
    exact_mod_cast ha
  calc (stepDown a / parts : ℚ)
      ≤ (1 - 1 / fineness) * newton (a / parts) := stepDown_le (lt_of_lt_of_le (by decide) ha)
    _ ≤ (1 - slack) * newton s :=
        mul_le_mul (by linarith [slack_le])
          (newton_mono (by linarith) hle (by nlinarith))
          (zero_le_one.trans (one_le_newton (by linarith))) (by norm_num [slack, roundoff])

/-- After the default number of steps, the numbers up to the limit are accurate. -/
theorem ceiling_le : 100 * ceiling 20 ≤ 101 * parts := by decide +kernel

/-- After no more than that number of steps, the numbers beyond the limit are not accurate, even if
the number itself was rounded. -/
theorem lt_floor : ∀ i ≤ 20, 101 * parts * 2 ^ 53 + 100 * floor i < 100 * floor i * 2 ^ 53 := by
  decide +kernel

section

variable {value : Double} (hvalue : value.isFinite = true) (hone : 1 ≤ value.toRat)

include hvalue hone

/-- The ratios of a number up to the limit stay below the ceiling, which stays on the far side of
one. -/
theorem ratio_le_ceiling (hle : value.toRat ≤ accurateLimit) (i : Nat) :
    ratio value (guessAt value i) ≤ ceiling i / parts ∧
      1 ≤ ratio value (guessAt value i) * (ceiling i / parts) := by
  induction i with
  | zero =>
      have hstart : (ceiling 0 / parts : ℚ) = accurateLimit / 4 := start_eq accurateLimit
      have hlarge : (4 : ℚ) ≤ accurateLimit / 4 := by norm_num [accurateLimit]
      rw [ratio_first hvalue hone, hstart]
      exact ⟨by linarith, by nlinarith⟩
  | succ i ih =>
      have hrange := inRange_guessAt hvalue hone i
      have hpos : 0 < ceiling i := by
        rw [Nat.pos_iff_ne_zero]
        intro hzero
        rw [hzero, Nat.cast_zero, zero_div, mul_zero] at ih
        linarith [ih.2]
      rw [ceiling_succ]
      constructor
      · exact (ratio_next_le hvalue hone hrange).trans
          (step_le_stepUp (ratio_pos hone hrange) hpos ih.1 ih.2)
      · -- The ratio can fall below one by its roundings; the ceiling rises above it by more.
        have hceiling : 1 + 1 / fineness ≤ (stepUp (ceiling i) / parts : ℚ) :=
          le_trans (le_mul_of_one_le_right (by positivity)
            (one_le_newton (div_pos (Nat.cast_pos.mpr hpos) parts_pos))) (le_stepUp hpos)
        calc (1 : ℚ) ≤ (1 - slack) * (1 + 1 / fineness) := by
              norm_num [slack, roundoff, fineness]
          _ ≤ ratio value (guessAt value (i + 1)) * (stepUp (ceiling i) / parts) :=
              mul_le_mul (one_sub_slack_le_ratio hvalue hone i) hceiling (by positivity)
                (ratio_pos hone (inRange_guessAt hvalue hone (i + 1))).le

/-- The ratios of a number beyond the limit stay above the floor for the default number of steps. -/
theorem floor_le_ratio (hle : (accurateLimit + 1 : Nat) ≤ value.toRat) {i : Nat} (hi : i ≤ 20) :
    (floor i / parts : ℚ) ≤ ratio value (guessAt value i) := by
  induction i with
  | zero =>
      have hstart : (floor 0 / parts : ℚ) = (accurateLimit + 1 : Nat) / 4 :=
        start_eq (accurateLimit + 1)
      rw [ratio_first hvalue hone, hstart]
      exact div_le_div_of_nonneg_right hle (by norm_num)
  | succ i ih =>
      have habove : parts ≤ floor i := by
        have := lt_floor i (by omega)
        omega
      rw [floor_succ]
      exact (stepDown_le_step habove (ih (by omega))).trans
        (le_ratio_next hvalue hone (inRange_guessAt hvalue hone i))

end

/-! ### Accuracy with the default parameters -/

theorem admissible_defaults : Admissible defaultPrecision defaultIterations :=
  ⟨isFinite_thousandth, zero_lt_iff.mpr (.inr ⟨isFinite_thousandth, toRat_thousandth_mem.1⟩),
    by decide⟩

section

variable {n : Int} (hpos : 1 ≤ n) {value : Double} (hvalue : ofInt? n = .ok value)

include hpos hvalue

/-- Up to the limit, the last guess that the default budget allows is accurate. -/
theorem accurate_last_guess (hle : n ≤ accurateLimit) : Accurate n (guessAt value 20) := by
  obtain ⟨hfinite, hone⟩ := one_le_of_ofInt? hpos hvalue
  have hlimit : value.toRat ≤ accurateLimit := by
    exact_mod_cast toRat_le_of_ofInt? (m := accurateLimit) (by decide) hle hvalue
  have hexact : value.toRat ≤ n := by
    refine toRat_le_of_ofInt? ?_ le_rfl hvalue
    rw [abs_of_nonneg (by omega)]
    exact hle.trans_lt (by decide)
  have hceiling : (ceiling 20 / parts : ℚ) ≤ 101 / 100 := by
    rw [div_le_div_iff₀ parts_pos (by norm_num)]
    exact_mod_cast (by linarith [ceiling_le] : ceiling 20 * 100 ≤ 101 * parts)
  have hratio := (ratio_le_ceiling hfinite hone hlimit 20).1.trans hceiling
  rw [accurate_guessAt_iff hpos hvalue 19]
  calc (guessAt value 20).toRat ^ 2
      = ratio value (guessAt value 20) * value.toRat := (ratio_mul_value hone).symm
    _ ≤ 101 / 100 * value.toRat := mul_le_mul_of_nonneg_right hratio (by linarith)
    _ ≤ 101 / 100 * n := by linarith

/-- Beyond the limit, no guess that the default budget allows is accurate. -/
theorem not_accurate_guess (hlt : accurateLimit < n) {i : Nat} (hi : i < 20) :
    ¬ Accurate n (guessAt value (i + 1)) := by
  obtain ⟨hfinite, hone⟩ := one_le_of_ofInt? hpos hvalue
  have hlimit : ((accurateLimit + 1 : Nat) : ℚ) ≤ value.toRat := by
    exact_mod_cast le_toRat_of_ofInt? (m := (accurateLimit + 1 : Nat)) (by decide)
      (by exact_mod_cast hlt) hvalue
  have hratio := floor_le_ratio hfinite hone hlimit (show i + 1 ≤ 20 by omega)
  have hfloor : 101 / 100 < (floor (i + 1) / parts * (1 - roundoff) ^ 1 : ℚ) := by
    have hcheck : (101 * parts * 2 ^ 53 + 100 * floor (i + 1) : ℚ) <
        100 * floor (i + 1) * 2 ^ 53 := by
      exact_mod_cast lt_floor (i + 1) (by omega)
    rw [roundoff, pow_one, div_mul_eq_mul_div, div_lt_div_iff₀ (by norm_num) parts_pos]
    linarith
  have hnonneg : (0 : ℚ) < n := by exact_mod_cast (by omega : 0 < n)
  rw [accurate_guessAt_iff hpos hvalue, not_le]
  calc (101 / 100 * n : ℚ) < floor (i + 1) / parts * (1 - roundoff) ^ 1 * n :=
        mul_lt_mul_of_pos_right hfloor hnonneg
    _ = floor (i + 1) / parts * ((1 - roundoff) ^ 1 * n) := mul_assoc _ _ _
    _ ≤ ratio value (guessAt value (i + 1)) * value.toRat :=
        mul_le_mul hratio (within_of_ofInt? hpos hvalue).lower
          (mul_nonneg (one_sub_roundoff_pow_mem 1).1.le hnonneg.le)
          (ratio_pos hone (inRange_guessAt hfinite hone (i + 1))).le
    _ = (guessAt value (i + 1)).toRat ^ 2 := ratio_mul_value hone

end

/-- With the default parameters, the root of a positive number is accurate exactly up to the
limit. -/
theorem default_root_accurate_iff {n : Int} (hpos : 1 ≤ n) {value : Double}
    (hvalue : ofInt? n = .ok value) :
    ∃ v, root (.int n) (.double defaultPrecision) defaultIterations =
        .ok (.success (.double v)) ∧
      v.isFinite = true ∧ (|v.toRat ^ 2 - n| ≤ 1 / 100 * n ↔ n ≤ accurateLimit) := by
  obtain ⟨hfinite, hone⟩ := one_le_of_ofInt? hpos hvalue
  obtain ⟨i, hi, hends, hroot⟩ := root_eq_guessAt hpos hvalue admissible_defaults.positive
    admissible_defaults.one_le
  refine ⟨_, hroot, (inRange_guessAt hfinite hone (i + 1)).isFinite, ?_⟩
  constructor
  · intro haccurate
    by_contra hlt
    exact not_accurate_guess hpos hvalue (not_le.mp hlt) hi haccurate
  · intro hle
    rcases hends with hclose | hlast
    · exact accurate_of_closeAfter hpos hvalue admissible_defaults.isFinite le_rfl hclose
    · rw [hlast]
      exact accurate_last_guess hpos hvalue hle

/-- The limit itself has an accurate root. -/
theorem accurateLimit_root_accurate :
    ∃ v, root (.int accurateLimit) (.double defaultPrecision) defaultIterations =
        .ok (.success (.double v)) ∧
      |v.toRat ^ 2 - ((accurateLimit : Int) : ℚ)| ≤ 1 / 100 * ((accurateLimit : Int) : ℚ) := by
  have hvalue : ofInt? accurateLimit = .ok (ofInt accurateLimit) :=
    ofInt?_eq_ok_iff.mpr ⟨by decide +kernel, rfl⟩
  obtain ⟨v, hroot, -, haccurate⟩ := default_root_accurate_iff (by decide) hvalue
  exact ⟨v, hroot, haccurate.mpr le_rfl⟩

/-- A number of nineteen places is a double, and its root is not accurate. -/
theorem quintillion_root_not_accurate :
    ∃ value v, ofInt? (10 ^ 18) = .ok value ∧
      root (.int (10 ^ 18)) (.double defaultPrecision) defaultIterations =
        .ok (.success (.double v)) ∧
      ¬ |v.toRat ^ 2 - ((10 ^ 18 : Int) : ℚ)| ≤ 1 / 100 * ((10 ^ 18 : Int) : ℚ) := by
  have hvalue : ofInt? (10 ^ 18) = .ok (ofInt (10 ^ 18)) :=
    ofInt?_eq_ok_iff.mpr ⟨by decide +kernel, rfl⟩
  obtain ⟨i, hi, -, hroot⟩ := root_eq_guessAt (by decide) hvalue admissible_defaults.positive
    admissible_defaults.one_le
  exact ⟨_, _, hvalue, hroot, not_accurate_guess (by decide) hvalue (by decide) hi⟩

end SquareRoot
end Reckoner
