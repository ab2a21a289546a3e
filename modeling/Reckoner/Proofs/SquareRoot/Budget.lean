import Mathlib.Algebra.Order.Ring.Pow
import Reckoner.Proofs.SquareRoot.Closeness

/-!
# Enough iterations

From one on, a step brings a ratio four times nearer to one, up to rounding.  A number below
`4 ^ (k + 1)` starts with a ratio below `4 ^ k`, so `k` steps bring it near one and a few more make
the guess accurate.  Ending early does no harm, because a guess that is close to the one before it is
accurate anyway.

The quadratic speed near the root is not needed, and the number of further steps is not the least
possible one.
-/

namespace Reckoner
namespace SquareRoot

open Double

/-- How much of the distance to one a step leaves of a ratio. -/
def contraction : ℚ := (1 + slack) / 4

theorem contraction_mem : 0 < contraction ∧ contraction ≤ 1 := by
  norm_num [contraction, slack, roundoff]

/-- A step from a ratio that is not below one by more than the roundings. -/
theorem newton_le_of_le {s e : ℚ} (hlow : 1 - slack ≤ s) (hhigh : s ≤ 1 + e) (he : 0 ≤ e) :
    newton s ≤ 1 + (e + slack) / 4 := by
  have hslack := slack_pos
  have hsmall : slack ≤ 1 / 2 := by norm_num [slack, roundoff]
  rcases le_total 1 s with hone | hone
  · linarith [newton_le hone]
  · have hs : 0 < s := by linarith
    have hsquare : (s - 1) ^ 2 / (4 * s) ≤ slack / 4 := by
      rw [div_le_div_iff₀ (by linarith) (by norm_num)]
      nlinarith
    rw [newton_eq hs]
    linarith

section

variable {value : Double} (hvalue : value.isFinite = true) (hone : 1 ≤ value.toRat)

include hvalue hone

theorem ratio_first : ratio value (guessAt value 0) = value.toRat / 4 := by
  rw [ratio, guessAt, (first_eq hvalue hone).2]
  field_simp
  norm_num

theorem one_sub_slack_le_ratio (i : Nat) : 1 - slack ≤ ratio value (guessAt value (i + 1)) := by
  have hrange := inRange_guessAt hvalue hone i
  refine le_trans ?_ (le_ratio_next hvalue hone hrange)
  exact le_mul_of_one_le_right (by norm_num [slack, roundoff])
    (one_le_newton (ratio_pos hone hrange))

/-- The first step leaves at most the ratio it starts from, or what is left from below one. -/
theorem ratio_second_le {k : Nat} (hle : value.toRat ≤ 4 ^ (k + 1)) :
    ratio value (guessAt value 1) ≤ 1 + 4 ^ k + 3 * slack := by
  have hrange := inRange_guessAt hvalue hone 0
  have hstep := ratio_next_le hvalue hone hrange
  have hpow : (1 : ℚ) ≤ 4 ^ k := one_le_pow₀ (by norm_num)
  rw [ratio_first hvalue hone] at hstep
  rw [pow_succ] at hle
  have hnewton : newton (value.toRat / 4) ≤ 1 + 9 / 16 * 4 ^ k := by
    rcases le_total 4 value.toRat with hfour | hfour
    · linarith [newton_le (s := value.toRat / 4) (by linarith)]
    · have hsquare : (value.toRat / 4 - 1) ^ 2 / (4 * (value.toRat / 4)) ≤ 9 / 16 := by
        rw [div_le_div_iff₀ (by linarith) (by norm_num)]
        nlinarith
      rw [newton_eq (by linarith)]
      linarith
  refine hstep.trans ?_
  have hslack : slack ≤ 1 / 16 := by norm_num [slack, roundoff]
  nlinarith [slack_pos]

/-- The distance of the ratios from one decays geometrically. -/
theorem ratio_guessAt_le {k : Nat} (hle : value.toRat ≤ 4 ^ (k + 1)) (i : Nat) :
    ratio value (guessAt value (i + 1)) ≤ 1 + (4 ^ k * contraction ^ i + 3 * slack) := by
  have hslack := slack_pos
  have hslack' : slack ≤ 1 := by norm_num [slack, roundoff]
  have hcontraction := contraction_mem.1
  induction i with
  | zero =>
      have := ratio_second_le hvalue hone hle
      rw [pow_zero, mul_one]
      linarith
  | succ i ih =>
      have hnonneg : 0 ≤ 4 ^ k * contraction ^ i + 3 * slack := by positivity
      have hnewton := newton_le_of_le (one_sub_slack_le_ratio hvalue hone i) ih hnonneg
      calc ratio value (guessAt value (i + 1 + 1))
          ≤ (1 + slack) * newton (ratio value (guessAt value (i + 1))) :=
            ratio_next_le hvalue hone (inRange_guessAt hvalue hone (i + 1))
        _ ≤ (1 + slack) * (1 + (4 ^ k * contraction ^ i + 3 * slack + slack) / 4) :=
            mul_le_mul_of_nonneg_left hnewton (by linarith)
        _ = 1 + 4 ^ k * contraction ^ (i + 1) + (2 + slack) * slack := by
            rw [pow_succ, contraction]
            ring
        _ ≤ 1 + (4 ^ k * contraction ^ (i + 1) + 3 * slack) := by nlinarith

end

/-- Not even a thousand steps add up their roundings to much. -/
theorem one_add_slack_pow_le {m : Nat} (hm : m ≤ 1024) : (1 + slack) ^ m ≤ 2 := by
  have hslack := slack_pos
  have hslack' : 1024 * slack ≤ 1 / 2 := by norm_num [slack, roundoff]
  have hcast : (m : ℚ) ≤ 1024 := by exact_mod_cast hm
  have hbernoulli : 1 - m * slack ≤ (1 - slack) ^ m := by
    have h := one_add_mul_le_pow (show -2 ≤ -slack by linarith) m
    rwa [mul_neg, ← sub_eq_add_neg, ← sub_eq_add_neg] at h
  have hproduct : (1 + slack) ^ m * (1 - slack) ^ m ≤ 1 := by
    rw [← mul_pow]
    exact pow_le_one₀ (by nlinarith) (by nlinarith)
  have hhalf : 1 / 2 ≤ (1 - slack) ^ m := by nlinarith
  have hpos : 0 < (1 + slack) ^ m := by positivity
  nlinarith

/-- Five steps beyond the `k`-th leave little of a distance of `4 ^ k`. -/
theorem contraction_pow_le {k i : Nat} (hk : k < 512) (hi : k + 5 ≤ i) :
    4 ^ k * contraction ^ i ≤ 1 / 512 := by
  have hcontraction := contraction_mem
  calc 4 ^ k * contraction ^ i ≤ 4 ^ k * contraction ^ (k + 5) :=
        mul_le_mul_of_nonneg_left (pow_le_pow_of_le_one hcontraction.1.le hcontraction.2 hi)
          (by positivity)
    _ = (1 + slack) ^ (k + 5) / 1024 := by
        rw [contraction, div_pow, pow_add 4 k 5]
        field_simp
        norm_num
    _ ≤ 2 / 1024 :=
        div_le_div_of_nonneg_right (one_add_slack_pow_le (by omega)) (by norm_num)
    _ = 1 / 512 := by norm_num

section

variable {k : Nat} {n : Int} (hlow : 4 ^ k ≤ n) {value : Double} (hvalue : ofInt? n = .ok value)

include hlow hvalue

/-- A number that is a double is below `4 ^ 512`. -/
theorem lt_of_four_pow_le : k < 512 := by
  have hlt := (isRounding_of_ofInt? hvalue).2.abs_lt_limit (abs_toRat_lt value)
  have hpow : (4 : ℚ) ^ k ≤ n := by exact_mod_cast hlow
  have hbound : (4 : ℚ) ^ k < 4 ^ 512 :=
    calc (4 : ℚ) ^ k ≤ |(n : ℚ)| := hpow.trans (le_abs_self _)
      _ < limit := hlt
      _ = 4 ^ 512 := by rw [limit, show (4 : ℚ) = 2 ^ 2 by norm_num, ← pow_mul]
  exact (pow_lt_pow_iff_right₀ (by norm_num)).mp hbound

/-- From the `k + 6`-th guess on, all guesses are accurate. -/
theorem accurate_guessAt (hhigh : n < 4 ^ (k + 1)) {i : Nat} (hi : k + 5 ≤ i) :
    Accurate n (guessAt value (i + 1)) := by
  have hpos : 1 ≤ n := le_trans (one_le_pow₀ (by norm_num)) hlow
  obtain ⟨hfinite, hone⟩ := one_le_of_ofInt? hpos hvalue
  have hrepresentable : Representable (4 ^ (k + 1)) := by
    rw [show (4 : ℚ) = 2 ^ 2 by norm_num, ← pow_mul]
    exact representable_two_pow _
  have hle : value.toRat ≤ 4 ^ (k + 1) :=
    (isRounding_of_ofInt? hvalue).2.mono (isRounding_self hrepresentable)
      (by exact_mod_cast hhigh.le)
  have hratio := ratio_guessAt_le hfinite hone hle i
  have hdecay := contraction_pow_le (lt_of_four_pow_le hlow hvalue) hi
  have hslack : slack ≤ 1 / 1000 := by norm_num [slack, roundoff]
  have hconvert := (within_of_ofInt? hpos hvalue).upper
  rw [accurate_guessAt_iff hpos hvalue]
  calc (guessAt value (i + 1)).toRat ^ 2
      = ratio value (guessAt value (i + 1)) * value.toRat := (ratio_mul_value hone).symm
    _ ≤ 1006 / 1000 * value.toRat := mul_le_mul_of_nonneg_right (by linarith) (by linarith)
    _ ≤ 1006 / 1000 * ((1 + roundoff) ^ 1 * n) := by linarith
    _ = 1006 / 1000 * (1 + roundoff) ^ 1 * n := (mul_assoc _ _ _).symm
    _ ≤ 101 / 100 * n := by
        refine mul_le_mul_of_nonneg_right (by norm_num [roundoff]) ?_
        exact_mod_cast (by omega : 0 ≤ n)

end

/-- With `k + 6` iterations and the default precision or a finer one, the root of a number from
`4 ^ k` up to `4 ^ (k + 1)` is accurate, whichever way the search ends. -/
theorem accurate_of_enough_iterations (k : Nat) {n : Int} (hlow : 4 ^ k ≤ n)
    (hhigh : n < 4 ^ (k + 1)) {value : Double} (hvalue : ofInt? n = .ok value)
    {precision : Double} (hfinite : precision.isFinite = true) (hpositive : 0 < precision.toRat)
    (hfine : precision.toRat ≤ thousandth.toRat) {iterations : Int}
    (hiterations : k + 6 ≤ iterations) :
    ∃ v, root (.int n) (.double precision) iterations = .ok (.success (.double v)) ∧
      v.isFinite = true ∧ |v.toRat ^ 2 - n| ≤ 1 / 100 * n := by
  have hpos : 1 ≤ n := le_trans (one_le_pow₀ (by norm_num)) hlow
  have hadmissible : Admissible precision iterations :=
    ⟨hfinite, zero_lt_iff.mpr (.inr ⟨hfinite, hpositive⟩), by omega⟩
  obtain ⟨hvalue', hone⟩ := one_le_of_ofInt? hpos hvalue
  obtain ⟨i, -, hends, hroot⟩ :=
    root_eq_guessAt hpos hvalue hadmissible.positive hadmissible.one_le
  refine ⟨_, hroot, (inRange_guessAt hvalue' hone (i + 1)).isFinite, ?_⟩
  rcases hends with hclose | hlast
  · exact accurate_of_closeAfter hpos hvalue hfinite hfine hclose
  · exact accurate_guessAt hlow hvalue hhigh (by omega)

/-- Hundreds of iterations for a number of three hundred places. -/
theorem long_search_accurate :
    (4 ^ 498 ≤ (10 ^ 300 : Int) ∧ (10 ^ 300 : Int) < 4 ^ 499) ∧
      ∃ v, root (.int (10 ^ 300)) (.double thousandth) 504 = .ok (.success (.double v)) ∧
        v.isFinite = true ∧
        |v.toRat ^ 2 - ((10 ^ 300 : Int) : ℚ)| ≤ 1 / 100 * ((10 ^ 300 : Int) : ℚ) := by
  have hlow : 4 ^ 498 ≤ (10 ^ 300 : Int) := by decide +kernel
  have hhigh : (10 ^ 300 : Int) < 4 ^ 499 := by decide +kernel
  have hvalue : ofInt? (10 ^ 300) = .ok (ofInt (10 ^ 300)) :=
    ofInt?_eq_ok_iff.mpr ⟨by decide +kernel, rfl⟩
  exact ⟨⟨hlow, hhigh⟩, accurate_of_enough_iterations 498 hlow hhigh hvalue (by decide +kernel)
    toRat_thousandth_mem.1 le_rfl (by decide)⟩

end SquareRoot
end Reckoner
