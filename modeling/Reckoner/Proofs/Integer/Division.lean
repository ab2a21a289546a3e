import Reckoner.Integer
import Reckoner.Proofs.Double.Finite
import Reckoner.Proofs.Fault

/-!
# Quotients of integers

A quotient is an error outcome for a zero divisor, a fault when its rounding reaches `2 ^ 1024`, and
otherwise a finite double whose value is the rounding.

The last section says the same without roundings: the magnitude of the exact quotient decides whether
there is a result, and the result is the only nearest double with the right sign of zero.
-/

namespace Reckoner
namespace Integer

open Double

/-- The exact quotient of two integers, correctly rounded, stays below `2 ^ 1024`. -/
def QuotientBelow (a b : Int) : Prop := ∃ r, IsRounding ((a : ℚ) / b) r ∧ |r| < limit

theorem quotient?_of_below {a b : Int} (hb : b ≠ 0) (h : QuotientBelow a b) :
    ∃ x, quotient? a b = .ok x ∧ x.isFinite = true ∧ IsRounding ((a : ℚ) / b) x.toRat := by
  obtain ⟨r, hr, hlt⟩ := h
  have hrounds := rounds_quotient a hb
  have hfinite := (hrounds.isFinite_iff hr).mpr hlt
  exact ⟨_, orFault_of_isFinite hfinite, hfinite, by rwa [hrounds.toRat_eq hr hlt]⟩

theorem quotient?_of_not_below {a b : Int} (hb : b ≠ 0) (h : ¬ QuotientBelow a b) :
    quotient? a b = .error .quotientTooLarge := by
  have hrounds := rounds_quotient a hb
  obtain ⟨r, hr⟩ := exists_isRounding ((a : ℚ) / b)
  rcases hrounds.finite_or_infinite with hfinite | ⟨negative, heq⟩
  · exact absurd ⟨r, hr, (hrounds.isFinite_iff hr).mp hfinite⟩ h
  · rw [quotient?, heq, orFault]

theorem divide_zero (a : Int) : divide a 0 = .ok (.failure .divisionByZero) := rfl

theorem divide_of_below {a b : Int} (hb : b ≠ 0) (h : QuotientBelow a b) :
    ∃ x, divide a b = .ok (.success (.double x)) ∧ x.isFinite = true ∧
      IsRounding ((a : ℚ) / b) x.toRat := by
  obtain ⟨x, hx, hfinite, hrounding⟩ := quotient?_of_below hb h
  exact ⟨x, by rw [divide, if_neg hb, hx, Except.map], hfinite, hrounding⟩

theorem divide_of_not_below {a b : Int} (hb : b ≠ 0) (h : ¬ QuotientBelow a b) :
    divide a b = .error .quotientTooLarge := by
  rw [divide, if_neg hb, quotient?_of_not_below hb h, Except.map]

/-! ### Nearest doubles -/

theorem quotientBelow_iff {a b : Int} :
    QuotientBelow a b ↔ |(a : ℚ) / b| < overflowBound := by
  constructor
  · rintro ⟨r, hr, hlt⟩
    exact hr.abs_lt_limit_iff.mp hlt
  · intro hlt
    obtain ⟨r, hr⟩ := exists_isRounding ((a : ℚ) / b)
    exact ⟨r, hr, hr.abs_lt_limit_iff.mpr hlt⟩

/-- Below the bound a quotient is the nearest double, and a zero is negative when exactly one operand
is. -/
theorem divide_isNearestSigned {a b : Int} (hb : b ≠ 0) (h : |(a : ℚ) / b| < overflowBound) :
    ∃ x, divide a b = .ok (.success (.double x)) ∧
      IsNearestSigned (decide (a < 0) != decide (b < 0)) (a / b) x := by
  obtain ⟨x, hx, hfinite, hrounding⟩ := quotient?_of_below hb (quotientBelow_iff.mpr h)
  refine ⟨x, by rw [divide, if_neg hb, hx, Except.map], hrounding.isNearest hfinite, ?_⟩
  obtain rfl := eq_of_orFault_eq_ok hx
  exact ofRatio_of_isZero

/-- A quotient is an error with a zero exactly if the divisor is zero.  Otherwise it overflows exactly
if the exact quotient is not below the bound, and below the bound it is the one double that is nearest,
has the even significand in a tie, and has the sign of the operands if it is zero. -/
theorem divide_is_nearest_double (a b : Int) :
    (ending (divide a b) = .failure .divisionByZero (.double (.zero false)) ↔ b = 0) ∧
      (b ≠ 0 →
        (ending (divide a b) = .fault .overflow ↔ overflowBound ≤ |(a : ℚ) / b|) ∧
        (|(a : ℚ) / b| < overflowBound →
          ∃ x, ending (divide a b) = .success (.double x) ∧
            ∀ y, IsNearestSigned (decide (a < 0) != decide (b < 0)) (a / b) y ↔ y = x)) := by
  by_cases hb : b = 0
  · subst hb
    rw [divide_zero]
    exact ⟨by simp, fun hne => absurd rfl hne⟩
  · rcases lt_or_ge |(a : ℚ) / b| overflowBound with hlt | hge
    · obtain ⟨x, hdivide, hnearest⟩ := divide_isNearestSigned hb hlt
      rw [hdivide, ending_success]
      refine ⟨by simp [hb], fun _ => ⟨by simp [hlt], fun _ => ⟨x, rfl, fun y => ⟨?_, ?_⟩⟩⟩⟩
      · exact fun hy => hy.unique hnearest
      · rintro rfl
        exact hnearest
    · rw [divide_of_not_below hb (mt quotientBelow_iff.mp (not_lt.mpr hge)), ending_error]
      refine ⟨by simp [hb], fun _ => ⟨?_, fun hlt => absurd hlt (not_lt.mpr hge)⟩⟩
      exact ⟨fun _ => hge, fun _ => rfl⟩

/-- Zero over a negative integer is the negative zero, and the limit itself overflows. -/
theorem divide_zero_by_neg_and_limit_by_one :
    ending (divide 0 (-5)) = .success (.double (.zero true)) ∧
      ending (divide (2 ^ 1024) 1) = .fault .overflow := by
  constructor
  · have hbelow : |((0 : ℤ) : ℚ) / ((-5 : ℤ) : ℚ)| < overflowBound := by
      simpa using overflowBound_pos
    have hrounding : IsRounding (((0 : ℤ) : ℚ) / ((-5 : ℤ) : ℚ)) (zero true).toRat := by
      simpa using isRounding_self (representable_toRat (zero true))
    have hnearest : IsNearestSigned true (((0 : ℤ) : ℚ) / ((-5 : ℤ) : ℚ)) (zero true) :=
      ⟨hrounding.isNearest rfl, fun _ => rfl⟩
    obtain ⟨x, hx, hunique⟩ := ((divide_is_nearest_double 0 (-5)).2 (by decide)).2 hbelow
    rw [hx, (hunique _).mp hnearest]
  · refine ((divide_is_nearest_double (2 ^ 1024) 1).2 one_ne_zero).1.mpr ?_
    rw [Int.cast_one, div_one, Int.cast_pow, Int.cast_ofNat, abs_of_nonneg (by positivity),
      overflowBound]
    exact sub_le_self _ (by positivity)

end Integer
end Reckoner
