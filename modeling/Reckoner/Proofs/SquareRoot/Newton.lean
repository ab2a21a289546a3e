import Reckoner.Proofs.SquareRoot.Parameters

/-!
# One step of the search

A guess is measured by its square in parts of the value, its `ratio`; one is perfect.  An exact step
turns the ratio `s` into `newton s`, whatever the value is.  It never falls below one, which is the
inequality of the two means, and it keeps the order of ratios that are not on the wrong side of one.

The step of the search rounds three times.  Its ratio is off by `slack` of the exact one at most.
So no guess after the first is too small by more than that, and from four on the root is bounded
from below.
-/

namespace Reckoner
namespace SquareRoot

open Double

/-! ### Exact steps -/

/-- The mean of a guess and of the value divided by it. -/
def mean (value guess : Double) : ℚ := (guess.toRat + value.toRat / guess.toRat) / 2

/-- The square of a guess in parts of the value. -/
def ratio (value guess : Double) : ℚ := guess.toRat ^ 2 / value.toRat

/-- The ratio after an exact step. -/
def newton (s : ℚ) : ℚ := (s + 1) ^ 2 / (4 * s)

theorem newton_eq {s : ℚ} (hs : 0 < s) : newton s = 1 + (s - 1) ^ 2 / (4 * s) := by
  rw [newton]
  field_simp
  ring

theorem one_le_newton {s : ℚ} (hs : 0 < s) : 1 ≤ newton s := by
  rw [newton_eq hs]
  have : 0 ≤ (s - 1) ^ 2 / (4 * s) := by positivity
  linarith

/-- From one on, a step brings a ratio four times nearer to one at least. -/
theorem newton_le {s : ℚ} (hs : 1 ≤ s) : newton s ≤ 1 + (s - 1) / 4 := by
  have hpos : 0 < s := by linarith
  rw [newton_eq hpos, add_le_add_iff_left, div_le_div_iff₀ (by linarith) (by norm_num)]
  nlinarith

/-- Steps keep the order of two ratios whose product is at least one. -/
theorem newton_mono {s t : ℚ} (hs : 0 < s) (hle : s ≤ t) (hproduct : 1 ≤ s * t) :
    newton s ≤ newton t := by
  have ht : 0 < t := hs.trans_le hle
  have hdiff : newton t - newton s = (t - s) * (s * t - 1) / (4 * (s * t)) := by
    rw [newton, newton]
    field_simp
    ring
  have hnonneg : 0 ≤ (t - s) * (s * t - 1) / (4 * (s * t)) :=
    div_nonneg (mul_nonneg (by linarith) (by linarith)) (by positivity)
  linarith

/-! ### Rounded steps -/

section

variable {value guess : Double} (hone : 1 ≤ value.toRat) (h : InRange value guess)

include hone h

theorem guess_pos : 0 < guess.toRat := by linarith [half_le_lower hone, h.lower_le]

theorem mean_pos : 0 < mean value guess := by
  have hguess := guess_pos hone h
  have hquotient : 0 < value.toRat / guess.toRat := div_pos (by linarith) hguess
  unfold mean
  linarith

theorem ratio_pos : 0 < ratio value guess := div_pos (pow_pos (guess_pos hone h) 2) (by linarith)

omit h in
theorem ratio_mul_value : ratio value guess * value.toRat = guess.toRat ^ 2 :=
  div_mul_cancel₀ _ (by linarith)

theorem mean_sq_div : mean value guess ^ 2 / value.toRat = newton (ratio value guess) := by
  have hguess := guess_pos hone h
  have hpos : 0 < value.toRat := by linarith
  rw [mean, newton, ratio]
  field_simp
  norm_num

/-- The next guess is the mean, rounded three times. -/
theorem within_next (hvalue : value.isFinite = true) :
    Within 3 (mean value guess) (next value guess).toRat := by
  have hguess := guess_pos hone h
  have hlow := half_le_lower hone
  have hnormal := leastNormal_le
  obtain ⟨hquotient, ⟨hsum, hslow⟩, hnext⟩ := step_parts hvalue hone h
  -- Neither the quotient nor the sum nor its half is so small that the least unit matters.
  have hq := ((rounds_div hvalue h.isFinite hguess.ne').isRounding hquotient.isFinite).within
    (by linarith [(quotient_mem hone h).1])
  have hs := ((rounds_add h.isFinite hquotient.isFinite).isRounding hsum).within
    (by linarith [h.lower_le, hquotient.lower_le])
  have hn := ((rounds_half hsum).isRounding hnext.isFinite).within (by linarith)
  exact (((hq.add_left hguess.le).trans hs).div_right two_pos).trans hn

/-- The ratio of the next guess is that of an exact step, up to six roundings. -/
theorem within_ratio_next (hvalue : value.isFinite = true) :
    Within 6 (newton (ratio value guess)) (ratio value (next value guess)) := by
  have hsquare := (within_next hone h hvalue).sq (mean_pos hone h).le
  rw [← mean_sq_div hone h]
  exact hsquare.div_right (by linarith)

end

/-- What the roundings of a step do to a ratio at most. -/
def slack : ℚ := 7 * roundoff

theorem slack_pos : 0 < slack := mul_pos (by norm_num) roundoff_pos

theorem six_roundings : 1 - slack ≤ (1 - roundoff) ^ 6 ∧ (1 + roundoff) ^ 6 ≤ 1 + slack := by
  norm_num [slack, roundoff]

section

variable {value guess : Double} (hvalue : value.isFinite = true) (hone : 1 ≤ value.toRat)
  (h : InRange value guess)

include hvalue hone h

theorem ratio_next_le :
    ratio value (next value guess) ≤ (1 + slack) * newton (ratio value guess) := by
  have hpos := zero_le_one.trans (one_le_newton (ratio_pos hone h))
  exact (within_ratio_next hone h hvalue).upper.trans
    (mul_le_mul_of_nonneg_right six_roundings.2 hpos)

theorem le_ratio_next :
    (1 - slack) * newton (ratio value guess) ≤ ratio value (next value guess) := by
  have hpos := zero_le_one.trans (one_le_newton (ratio_pos hone h))
  exact (mul_le_mul_of_nonneg_right six_roundings.1 hpos).trans
    (within_ratio_next hone h hvalue).lower

end

/-! ### The root is not undershot -/

/-- An integer from one on becomes a double with one rounding. -/
theorem within_of_ofInt? {n : Int} (hpos : 1 ≤ n) {value : Double}
    (hvalue : ofInt? n = .ok value) : Within 1 n value.toRat := by
  have hone : (1 : ℚ) ≤ n := by exact_mod_cast hpos
  exact (isRounding_of_ofInt? hvalue).2.within (by linarith [leastNormal_le])

/-- No guess after the first is too small by more than the roundings of a step. -/
theorem le_sq_guessAt {n : Int} (hpos : 1 ≤ n) {value : Double} (hvalue : ofInt? n = .ok value)
    (i : Nat) : n * (1 - 1 / 2 ^ 50) ≤ (guessAt value (i + 1)).toRat ^ 2 := by
  obtain ⟨hfinite, hone⟩ := one_le_of_ofInt? hpos hvalue
  have hrange := inRange_guessAt hfinite hone i
  have hnonneg : (0 : ℚ) ≤ n := by exact_mod_cast (by omega : 0 ≤ n)
  have hsix := (one_sub_roundoff_pow_mem 6).1.le
  have hratio : (1 - roundoff) ^ 6 ≤ ratio value (guessAt value (i + 1)) :=
    le_trans (le_mul_of_one_le_right hsix (one_le_newton (ratio_pos hone hrange)))
      (within_ratio_next hone hrange hfinite).lower
  calc (n : ℚ) * (1 - 1 / 2 ^ 50)
      ≤ n * (1 - roundoff) ^ 7 :=
        mul_le_mul_of_nonneg_left (by norm_num [roundoff]) hnonneg
    _ = (1 - roundoff) ^ 6 * ((1 - roundoff) ^ 1 * n) := by ring
    _ ≤ (1 - roundoff) ^ 6 * value.toRat :=
        mul_le_mul_of_nonneg_left (within_of_ofInt? hpos hvalue).lower hsix
    _ ≤ ratio value (guessAt value (i + 1)) * value.toRat :=
        mul_le_mul_of_nonneg_right hratio (by linarith)
    _ = (guessAt value (i + 1)).toRat ^ 2 := ratio_mul_value hone

/-- From four on, every guess is finite and between two and half the number, and the root is such a
guess whose square does not fall below the number by more than one part in `2 ^ 50`. -/
theorem guesses_bounded_and_root_not_undershot {n : Int} (hfour : 4 ≤ n) {value : Double}
    (hvalue : ofInt? n = .ok value) {precision : Number} (hprecision : Positive precision)
    {iterations : Int} (hiterations : 1 ≤ iterations) :
    (∀ i, (guessAt value i).isFinite = true ∧ 2 ≤ (guessAt value i).toRat ∧
        (guessAt value i).toRat ≤ value.toRat / 2) ∧
      ∃ v, root (.int n) precision iterations = .ok (.success (.double v)) ∧
        v.isFinite = true ∧ 2 ≤ v.toRat ∧ v.toRat ≤ value.toRat / 2 ∧
        n * (1 - 1 / 2 ^ 50) ≤ v.toRat ^ 2 := by
  obtain ⟨hfinite, hone⟩ := one_le_of_ofInt? (by omega) hvalue
  have hvalue' : 4 ≤ value.toRat := by
    exact_mod_cast le_toRat_of_ofInt? (m := 4) (by norm_num) hfour hvalue
  have hbounded (i : Nat) : (guessAt value i).isFinite = true ∧ 2 ≤ (guessAt value i).toRat ∧
      (guessAt value i).toRat ≤ value.toRat / 2 := by
    obtain ⟨hguess, hlow, hhigh⟩ := inRange_guessAt hfinite hone i
    rw [lower_of_four_le hvalue'] at hlow
    rw [upper_of_four_le hvalue'] at hhigh
    exact ⟨hguess, hlow, hhigh⟩
  refine ⟨hbounded, ?_⟩
  obtain ⟨i, -, -, hroot⟩ := root_eq_guessAt (by omega) hvalue hprecision hiterations
  obtain ⟨hguess, hlow, hhigh⟩ := hbounded (i + 1)
  exact ⟨_, hroot, hguess, hlow, hhigh, le_sq_guessAt (by omega) hvalue i⟩

/-- One iteration from a number near the end of the range, with a whole precision. -/
theorem huge_root_not_undershot :
    ∃ value v, ofInt? (10 ^ 308) = .ok value ∧
      root (.int (10 ^ 308)) (.int 3) 1 = .ok (.success (.double v)) ∧
      2 ≤ v.toRat ∧ v.toRat ≤ value.toRat / 2 ∧
      ((10 ^ 308 : ℤ) : ℚ) * (1 - 1 / 2 ^ 50) ≤ v.toRat ^ 2 := by
  have hvalue : ofInt? (10 ^ 308) = .ok (ofInt (10 ^ 308)) :=
    ofInt?_eq_ok_iff.mpr ⟨by decide +kernel, rfl⟩
  have hprecision : Positive (.int 3) := ⟨by decide +kernel, by decide +kernel⟩
  obtain ⟨-, v, hroot, -, hlow, hhigh, hsquare⟩ :=
    guesses_bounded_and_root_not_undershot (by decide +kernel) hvalue hprecision (le_refl 1)
  exact ⟨_, v, hvalue, hroot, hlow, hhigh, hsquare⟩

end SquareRoot
end Reckoner
