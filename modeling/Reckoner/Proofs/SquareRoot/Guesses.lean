import Reckoner.Proofs.Double.Value
import Reckoner.SquareRoot

/-!
# The guesses of the square-root search

Two and half the value multiply to the value.  Every guess lies between these two, whichever of them
is the smaller one: dividing the value by a guess swaps the bounds, and the mean of a guess and such a
quotient lies between them again.  Both bounds are doubles, so rounding does not leave the interval.

Hence, for values from one on, no guess is zero or infinite, whatever the precision and the budget
are.  Smaller values are not covered: half of a small value need not be a double.
-/

namespace Reckoner
namespace SquareRoot

open Double

/-- The smaller one of two and half the value. -/
def lower (value : Double) : ℚ := min 2 (value.toRat / 2)

/-- The larger one of two and half the value. -/
def upper (value : Double) : ℚ := max 2 (value.toRat / 2)

/-- A finite guess between two and half the value. -/
structure InRange (value guess : Double) : Prop where
  isFinite : guess.isFinite = true
  lower_le : lower value ≤ guess.toRat
  le_upper : guess.toRat ≤ upper value

/-- The guesses of the search in their order, as if it never ended: half the value, and then the mean
of each guess and the value divided by it. -/
def guessAt (value : Double) : Nat → Double
  | 0 => value.div two
  | i + 1 =>
    let guess := guessAt value i
    (guess.add (value.div guess)).div two

theorem isFinite_two : two.isFinite = true :=
  ((rounds_ofInt 2).eq_of_representable (representable_intCast (by norm_num))
    (abs_intCast_lt_limit (by norm_num))).1

theorem toRat_two : two.toRat = 2 :=
  ((rounds_ofInt 2).eq_of_representable (representable_intCast (by norm_num))
    (abs_intCast_lt_limit (by norm_num))).2

theorem rounds_half {x : Double} (h : x.isFinite = true) : Rounds (x.toRat / 2) (x.div two) := by
  have hdiv := rounds_div h isFinite_two (by rw [toRat_two]; norm_num)
  rwa [toRat_two] at hdiv

theorem lower_mul_upper (value : Double) : lower value * upper value = value.toRat := by
  rw [lower, upper, min_mul_max]
  ring

theorem lower_of_four_le {value : Double} (h : 4 ≤ value.toRat) : lower value = 2 :=
  min_eq_left (by linarith)

theorem upper_of_four_le {value : Double} (h : 4 ≤ value.toRat) : upper value = value.toRat / 2 :=
  max_eq_right (by linarith)

section

variable {value : Double} (hone : 1 ≤ value.toRat)

include hone

theorem half_le_lower : 1 / 2 ≤ lower value := le_min (by norm_num) (by linarith)

theorem representable_half : Representable (value.toRat / 2) :=
  (representable_toRat value).half (by rw [abs_of_nonneg (by linarith)]; exact hone)

/-- The bounds are doubles. -/
theorem representable_bounds : Representable (lower value) ∧ Representable (upper value) := by
  have htwo : Representable 2 := by exact_mod_cast representable_intCast (n := 2) (by norm_num)
  constructor
  · rcases min_choice 2 (value.toRat / 2) with h | h <;> rw [lower, h]
    exacts [htwo, representable_half hone]
  · rcases max_choice 2 (value.toRat / 2) with h | h <;> rw [upper, h]
    exacts [htwo, representable_half hone]

end

/-- Twice the bounds are doubles as well. -/
theorem representable_twice_bounds (value : Double) :
    Representable (2 * lower value) ∧ Representable (2 * upper value) := by
  have hfour : Representable (2 * 2) := by
    norm_num
    exact_mod_cast representable_intCast (n := 4) (by norm_num)
  have hvalue : Representable (2 * (value.toRat / 2)) := by
    rw [mul_div_cancel₀ _ two_ne_zero]
    exact representable_toRat value
  constructor
  · rcases min_choice 2 (value.toRat / 2) with h | h <;> rw [lower, h]
    exacts [hfour, hvalue]
  · rcases max_choice 2 (value.toRat / 2) with h | h <;> rw [upper, h]
    exacts [hfour, hvalue]

theorem twice_upper_lt (value : Double) : 2 * upper value < limit := by
  have hfour : (4 : ℚ) < limit := by
    have h := abs_intCast_lt_limit (n := 4) (by norm_num)
    rwa [abs_of_nonneg (by norm_num)] at h
  have hvalue := (abs_lt.mp (abs_toRat_lt value)).2
  rcases max_choice 2 (value.toRat / 2) with h | h <;> rw [upper, h] <;> linarith

variable {value guess : Double} (hvalue : value.isFinite = true) (hone : 1 ≤ value.toRat)

include hvalue hone

/-- The first guess is exactly half the value. -/
theorem first_eq : (value.div two).isFinite = true ∧ (value.div two).toRat = value.toRat / 2 := by
  refine (rounds_half hvalue).eq_of_representable (representable_half hone) ?_
  have hlt := (abs_lt.mp (abs_toRat_lt value)).2
  rw [abs_of_nonneg (by linarith)]
  linarith

theorem inRange_first : InRange value (value.div two) := by
  obtain ⟨hfinite, heq⟩ := first_eq hvalue hone
  refine ⟨hfinite, ?_, ?_⟩ <;> rw [heq]
  exacts [min_le_right _ _, le_max_right _ _]

omit hvalue in
/-- Dividing the value by a guess in the range swaps the bounds. -/
theorem quotient_mem (h : InRange value guess) :
    lower value ≤ value.toRat / guess.toRat ∧ value.toRat / guess.toRat ≤ upper value := by
  have hlow := half_le_lower hone
  have hpos : 0 < guess.toRat := by linarith [h.lower_le]
  constructor
  · rw [le_div_iff₀ hpos, ← lower_mul_upper value]
    exact mul_le_mul_of_nonneg_left h.le_upper (by linarith)
  · rw [div_le_iff₀ hpos, ← lower_mul_upper value, mul_comm]
    exact mul_le_mul_of_nonneg_left h.lower_le (by linarith [h.le_upper])

/-- The parts of a step from a guess in the range: the quotient, the sum and its half. -/
theorem step_parts (h : InRange value guess) :
    InRange value (value.div guess) ∧
      ((guess.add (value.div guess)).isFinite = true ∧
        2 * lower value ≤ (guess.add (value.div guess)).toRat) ∧
      InRange value (next value guess) := by
  have hlow := half_le_lower hone
  have hpos : 0 < guess.toRat := by linarith [h.lower_le]
  have hupper := hpos.trans_le h.le_upper
  have hmax := twice_upper_lt value
  have hmin := limit_pos
  obtain ⟨hlower, hupper'⟩ := representable_bounds hone
  obtain ⟨htwice, htwice'⟩ := representable_twice_bounds value
  obtain ⟨hswap, hswap'⟩ := quotient_mem hone h
  obtain ⟨hquotient, hqlow, hqhigh⟩ := (rounds_div hvalue h.isFinite hpos.ne').mem_interval hlower
    hupper' hswap hswap' (by linarith) (by linarith)
  obtain ⟨hsum, hslow, hshigh⟩ := (rounds_add h.isFinite hquotient).mem_interval htwice htwice'
    (by linarith [h.lower_le]) (by linarith [h.le_upper]) (by linarith) hmax
  obtain ⟨hnext, hnlow, hnhigh⟩ := (rounds_half hsum).mem_interval hlower hupper'
    (by linarith) (by linarith) (by linarith) (by linarith)
  exact ⟨⟨hquotient, hqlow, hqhigh⟩, ⟨hsum, hslow⟩, hnext, hnlow, hnhigh⟩

/-- One step keeps a guess in the range. -/
theorem inRange_next (h : InRange value guess) : InRange value (next value guess) :=
  (step_parts hvalue hone h).2.2

/-- All guesses are in the range. -/
theorem inRange_guessAt (i : Nat) : InRange value (guessAt value i) := by
  induction i with
  | zero => exact inRange_first hvalue hone
  | succ i ih => exact inRange_next hvalue hone ih

omit hvalue in
theorem isZero_of_inRange (h : InRange value guess) : guess.isZero = false := by
  obtain ⟨negative, units, hunits, rfl⟩ := exists_of_isFinite h.isFinite
  simp only [isZero, beq_eq_false_iff_ne]
  rintro rfl
  have hlow := (half_le_lower hone).trans h.lower_le
  rw [show Double.finite negative 0 hunits = .zero negative from rfl, toRat_zero] at hlow
  norm_num at hlow

end SquareRoot
end Reckoner
