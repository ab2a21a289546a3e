import Reckoner.Proofs.Number
import Reckoner.Proofs.SquareRoot.Parameters

/-!
# How the search for a root ends

Every call ends in one of six ways, and the arguments alone decide which.  The precision is checked
first, then the budget, then the sign of the number, then whether the number becomes a double; what is
left fails for one number only.

That number is the least positive double: its half is rounded to zero, and the first step divides by
it.  From every other positive double on no guess is zero.  The invariant is that a guess is above zero
or not-a-number.  A step keeps it, since the sum of a guess and of the quotient is at least two least
units, even where the quotient is rounded to zero or to an infinity.

How near the result is to the root is not a matter of this module.
-/

namespace Reckoner
namespace SquareRoot

open Double

/-! ### Guesses that are not zero -/

/-- Above zero, or not-a-number. -/
def Viable (x : Double) : Prop := x = .nan ∨ (zero false).lt x = true

theorem viable_nan : Viable .nan := .inl rfl

theorem viable_infinite : Viable (.infinite false) := .inr (Double.zero_lt_iff.mpr (.inl rfl))

theorem viable_of_pos {x : Double} (hx : x.isFinite = true) (h : 0 < x.toRat) : Viable x :=
  .inr (Double.zero_lt_iff.mpr (.inr ⟨hx, h⟩))

theorem Viable.cases {x : Double} (h : Viable x) :
    x = .nan ∨ x = .infinite false ∨ x.isFinite = true ∧ 0 < x.toRat := by
  rw [Viable, Double.zero_lt_iff] at h
  exact h

theorem Viable.isZero {x : Double} (h : Viable x) : x.isZero = false := by
  obtain rfl | rfl | ⟨hx, hpos⟩ := h.cases
  · rfl
  · rfl
  · rw [Bool.eq_false_iff, Ne, isZero_iff hx]
    exact hpos.ne'

theorem infinite_div_two : (infinite false).div two = .infinite false := by
  obtain ⟨units, isMagnitude, heq, -⟩ := exists_of_toRat_pos (x := two) (by rw [toRat_two]; norm_num)
  rw [heq]
  rfl

/-- Half of two least units or more is not zero. -/
theorem viable_half {x : Double}
    (h : x = .infinite false ∨ x.isFinite = true ∧ 2 * least ≤ x.toRat) : Viable (x.div two) := by
  obtain rfl | ⟨hx, hle⟩ := h
  · rw [infinite_div_two]
    exact viable_infinite
  · obtain heq | ⟨hhalf, hle⟩ := (rounds_half hx).infinite_or_le representable_least
      least_pos.le (by linarith)
    · rw [heq]
      exact viable_infinite
    · exact viable_of_pos hhalf (least_pos.trans_le hle)

section Step

variable {value guess : Double}

/-- The sum of a positive guess and of the quotient is at least two least units. -/
theorem two_mul_least_le_sum (hvalue : value.isFinite = true) (hpos : 0 < value.toRat)
    (hguess : guess.isFinite = true) (hguess_pos : 0 < guess.toRat) :
    guess.add (value.div guess) = .infinite false ∨
      (guess.add (value.div guess)).isFinite = true ∧
        2 * least ≤ (guess.add (value.div guess)).toRat := by
  have hrounds := rounds_div hvalue hguess hguess_pos.ne'
  have hquotient : value.div guess = .infinite false ∨
      (value.div guess).isFinite = true ∧
        2 * least ≤ guess.toRat + (value.div guess).toRat := by
    rcases eq_least_or_two_mul_least_le hguess_pos with hleast | hlarge
    · -- The least guess divides every value to one at least.
      have hone : 1 ≤ value.toRat / guess.toRat := by
        rw [one_le_div hguess_pos, hleast]
        rcases eq_least_or_two_mul_least_le hpos with h | h <;> linarith [least_pos]
      have hle := least_lt_one.le.trans hone
      obtain h | ⟨hfinite, h⟩ :=
        hrounds.infinite_or_le representable_least least_pos.le hle
      · exact .inl h
      · exact .inr ⟨hfinite, by linarith⟩
    · -- A larger guess makes up for a quotient that is rounded to zero.
      obtain h | ⟨hfinite, h⟩ :=
        hrounds.infinite_or_le representable_zero le_rfl (div_pos hpos hguess_pos).le
      · exact .inl h
      · exact .inr ⟨hfinite, by linarith⟩
  obtain h | ⟨hfinite, hle⟩ := hquotient
  · obtain ⟨units, isMagnitude, rfl, -⟩ := exists_of_toRat_pos hguess_pos
    rw [h]
    exact .inl rfl
  · exact (rounds_add hguess hfinite).infinite_or_le representable_two_mul_least
      (by linarith [least_pos]) hle

/-- A step keeps a guess above zero, or not-a-number. -/
theorem viable_next (hvalue : Viable value) (hguess : Viable guess) : Viable (next value guess) := by
  rw [next]
  obtain rfl | rfl | ⟨hfinite, hpos⟩ := hguess.cases
  · exact viable_nan
  · -- The quotient is not-a-number or zero, so that the sum is not-a-number or infinite.
    obtain rfl | rfl | ⟨hvalue, -⟩ := hvalue.cases
    · exact viable_nan
    · exact viable_nan
    · obtain ⟨s, m, hm, rfl⟩ := exists_of_isFinite hvalue
      exact viable_half (.inl rfl)
  · obtain rfl | rfl | ⟨hvalue, hvalue_pos⟩ := hvalue.cases
    · obtain ⟨units, isMagnitude, rfl, -⟩ := exists_of_toRat_pos hpos
      exact viable_nan
    · obtain ⟨units, isMagnitude, rfl, -⟩ := exists_of_toRat_pos hpos
      exact viable_half (.inl rfl)
    · exact viable_half (two_mul_least_le_sum hvalue hvalue_pos hfinite hpos)

/-- No guess after a viable one is zero. -/
theorem viable_guessAt (hvalue : Viable value) (hfirst : Viable (value.div two)) (i : Nat) :
    Viable (guessAt value i) := by
  induction i with
  | zero => exact hfirst
  | succ i ih => exact viable_next hvalue ih

/-- A search whose first guess is viable has a result. -/
theorem exists_refine_eq_ok (hvalue : Viable value) (hfirst : Viable (value.div two))
    (precision : Number) (budget : Nat) :
    ∃ result, refine value precision budget (value.div two) = .ok result := by
  have hne (i : Nat) := (viable_guessAt hvalue hfirst i).isZero
  rw [refine_eq_map, ← guessAt]
  rcases refineExit_guessAt hne precision budget 0 with ⟨j, -, -, -, heq⟩ | ⟨-, heq⟩
  · exact ⟨_, by rw [heq, Except.map]⟩
  · exact ⟨_, by rw [heq, Except.map]⟩

/-- The first guess is viable unless the value is the least positive double. -/
theorem viable_first (hvalue : Viable value) (hne : value.toRat ≠ least) :
    Viable (value.div two) := by
  obtain rfl | rfl | ⟨hfinite, hpos⟩ := hvalue.cases
  · exact viable_nan
  · exact viable_half (.inl rfl)
  · exact viable_half (.inr ⟨hfinite, (eq_least_or_two_mul_least_le hpos).resolve_left hne⟩)

theorem isZero_first (h : value.toRat = least) : (value.div two).isZero = true := by
  obtain ⟨units, isMagnitude, rfl, -⟩ := exists_of_toRat_pos (h ▸ least_pos)
  have hrounds := rounds_half (x := .finite false units isMagnitude) rfl
  rw [h] at hrounds
  have hlt : |(0 : ℚ)| < limit := by simpa using limit_pos
  rw [isZero_iff ((hrounds.isFinite_iff isRounding_half_least).mpr hlt),
    hrounds.toRat_eq isRounding_half_least hlt]

end Step

/-! ### Numbers -/

/-- The least positive double, as a number. -/
def IsLeastDouble (number : Number) : Prop := ∃ x, number = .double x ∧ x.toRat = least

section

variable {number precision : Number} {iterations : Int}

theorem acceptedRoot_of_negative (h : number.Negative) :
    acceptedRoot number precision iterations = .ok (.failure .negativeSquareRoot) :=
  if_pos ((Number.lt_zero_iff number).mpr h)

theorem acceptedRoot_of_tooLarge (hneg : ¬ number.Negative) (h : number.TooLarge) :
    acceptedRoot number precision iterations = .error .integerTooLarge := by
  have hzero : ¬ number.eq (.int 0) = true := by
    rw [Number.eq_zero_iff]
    rintro ⟨-, hvalue⟩
    cases number with
    | double x => cases h
    | int n =>
        rw [Number.toRat] at hvalue
        rw [Number.TooLarge, hvalue, abs_zero] at h
        exact absurd overflowBound_pos (not_lt.mpr h)
  rw [acceptedRoot, if_neg (mt (Number.lt_zero_iff number).mp hneg), if_neg hzero,
    Number.toDouble_of_tooLarge h, error_bind]

/-- A number that is neither below zero nor zero becomes a double above zero, or not-a-number; it
becomes the least one only if it is the least one. -/
theorem viable_of_toDouble (hneg : ¬ number.Negative) (hzero : ¬ number.eq (.int 0) = true)
    {value : Double} (h : number.toDouble = .ok value) :
    Viable value ∧ (value.toRat = least → IsLeastDouble number) := by
  rw [Number.eq_zero_iff, not_and] at hzero
  rw [Number.Negative, not_or, not_lt] at hneg
  cases number with
  | int n =>
      have hpos : 0 < (n : ℚ) := lt_of_le_of_ne hneg.1 (Ne.symm (hzero trivial))
      have hone : 1 ≤ n := by exact_mod_cast hpos
      obtain ⟨hfinite, hle⟩ := one_le_of_ofInt? hone h
      exact ⟨viable_of_pos hfinite (by linarith), fun heq => by linarith [least_lt_one]⟩
  | double x =>
      cases h
      refine ⟨?_, fun heq => ⟨value, rfl, heq⟩⟩
      cases value with
      | nan => exact viable_nan
      | infinite negative =>
          cases negative with
          | false => exact viable_infinite
          | true => exact absurd rfl hneg.2
      | finite negative units isMagnitude =>
          exact viable_of_pos rfl (lt_of_le_of_ne hneg.1 (Ne.symm (hzero rfl)))

theorem acceptedRoot_of_isLeastDouble (hone : 1 ≤ iterations) (h : IsLeastDouble number) :
    acceptedRoot number precision iterations = .error .zeroDivisor := by
  obtain ⟨x, rfl, hx⟩ := h
  have hpos : 0 < (Number.double x).toRat := by
    rw [Number.toRat, hx]
    exact least_pos
  have hneg := Number.not_negative_of_pos hpos
  have hzero : ¬ (Number.double x).eq (.int 0) = true := by
    rw [Number.eq_zero_iff]
    exact fun hvalue => hpos.ne' hvalue.2
  obtain ⟨budget, hbudget⟩ : ∃ budget, iterations.toNat = budget + 1 :=
    ⟨iterations.toNat - 1, by omega⟩
  rw [acceptedRoot, if_neg (mt (Number.lt_zero_iff _).mp hneg), if_neg hzero, Number.toDouble,
    ok_bind, hbudget, refine, if_pos (isZero_first hx), error_bind]

theorem exists_acceptedRoot_eq_success (hneg : ¬ number.Negative) (hfits : ¬ number.TooLarge)
    (hleast : ¬ IsLeastDouble number) :
    ∃ x, acceptedRoot number precision iterations = .ok (.success (.double x)) := by
  rw [acceptedRoot, if_neg (mt (Number.lt_zero_iff number).mp hneg)]
  split
  · exact ⟨.zero false, rfl⟩
  · rename_i hzero
    obtain ⟨value, hvalue, -⟩ := Number.exists_toDouble_of_not_tooLarge hfits
    obtain ⟨hviable, hne⟩ := viable_of_toDouble hneg hzero hvalue
    obtain ⟨x, hx⟩ := exists_refine_eq_ok hviable (viable_first hviable (mt hne hleast)) precision
      iterations.toNat
    exact ⟨x, by rw [hvalue, ok_bind, hx, ok_bind]⟩

end

/-- With accepted parameters the number decides between four endings. -/
theorem acceptedRoot_cases (number precision : Number) {iterations : Int} (hone : 1 ≤ iterations) :
    number.Negative ∧
        acceptedRoot number precision iterations = .ok (.failure .negativeSquareRoot) ∨
      ¬ number.Negative ∧ number.TooLarge ∧
        acceptedRoot number precision iterations = .error .integerTooLarge ∨
      ¬ number.Negative ∧ ¬ number.TooLarge ∧ IsLeastDouble number ∧
        acceptedRoot number precision iterations = .error .zeroDivisor ∨
      ¬ number.Negative ∧ ¬ number.TooLarge ∧ ¬ IsLeastDouble number ∧
        ∃ x, acceptedRoot number precision iterations = .ok (.success (.double x)) := by
  by_cases hneg : number.Negative
  · exact .inl ⟨hneg, acceptedRoot_of_negative hneg⟩
  · by_cases hlarge : number.TooLarge
    · exact .inr (.inl ⟨hneg, hlarge, acceptedRoot_of_tooLarge hneg hlarge⟩)
    · by_cases hleast : IsLeastDouble number
      · exact .inr (.inr (.inl ⟨hneg, hlarge, hleast, acceptedRoot_of_isLeastDouble hone hleast⟩))
      · exact .inr (.inr (.inr
          ⟨hneg, hlarge, hleast, exists_acceptedRoot_eq_success hneg hlarge hleast⟩))

/-! ### The whole call -/

theorem requirePositive_eq_integerTooLarge_iff (parameter : String) (x : Number) :
    requirePositive parameter x = .error .integerTooLarge ↔ x.TooLarge := by
  constructor
  · intro herror
    by_contra hfits
    rcases requirePositive_cases parameter hfits with hpositive | ⟨fault, hfault, hc⟩
    · rw [hpositive.checked] at herror
      cases herror
    · rw [herror] at hfault
      cases hfault
      cases hc
  · intro h
    rw [requirePositive, Number.isFinite?, Number.toDouble_of_tooLarge h, Except.map, error_bind]

section

variable (number : Number) {precision : Number} {iterations : Int}

theorem ending_root_of_tooLarge_precision (h : precision.TooLarge) :
    ending (root number precision iterations) = .fault .overflow := by
  rw [root, (requirePositive_eq_integerTooLarge_iff "precision" precision).mpr h, error_bind,
    ending_error]
  rfl

theorem ending_root_of_refused (hfits : ¬ precision.TooLarge)
    (h : ¬ precision.IsFinite ∨ precision.toRat ≤ 0 ∨ iterations < 1) :
    ending (root number precision iterations) = .fault .value := by
  apply Refuses.ending
  refine refuses_root_of_not_positive hfits ?_ number
  rw [positive_iff hfits]
  rintro ⟨⟨hfinite, hpos⟩, hone⟩
  rcases h with h | h | h
  · exact h hfinite
  · exact absurd hpos (not_lt.mpr h)
  · omega

end

/-- The arguments decide how a call ends.  It overflows if the precision is an integer beyond the
doubles; otherwise it is refused exactly if the precision is not finite or not above zero or the budget
is below one; otherwise it fails with a zero exactly if the number is below zero; otherwise it overflows
exactly if the number is an integer beyond the doubles; otherwise it divides by zero exactly if the
number is the least positive double; and otherwise it succeeds. -/
theorem root_ending_decided_by_arguments (number precision : Number) (iterations : Int) :
    (requirePositive "precision" precision = .error .integerTooLarge ↔ precision.TooLarge) ∧
    (precision.TooLarge → ending (root number precision iterations) = .fault .overflow) ∧
    (¬ precision.TooLarge →
      (ending (root number precision iterations) = .fault .value ↔
        ¬ precision.IsFinite ∨ precision.toRat ≤ 0 ∨ iterations < 1) ∧
      (¬ (¬ precision.IsFinite ∨ precision.toRat ≤ 0 ∨ iterations < 1) →
        (ending (root number precision iterations) =
            .failure .negativeSquareRoot (.double (.zero false)) ↔ number.Negative) ∧
        (¬ number.Negative →
          (ending (root number precision iterations) = .fault .overflow ↔ number.TooLarge) ∧
          (¬ number.TooLarge →
            (ending (root number precision iterations) = .fault .zeroDivision ↔ IsLeastDouble number) ∧
            (¬ IsLeastDouble number →
              ∃ x, ending (root number precision iterations) = .success (.double x)))))) := by
  refine ⟨requirePositive_eq_integerTooLarge_iff "precision" precision,
    ending_root_of_tooLarge_precision number, fun hfits => ?_⟩
  by_cases hrefused : ¬ precision.IsFinite ∨ precision.toRat ≤ 0 ∨ iterations < 1
  · exact ⟨iff_of_true (ending_root_of_refused number hfits hrefused) hrefused,
      fun haccepted => absurd hrefused haccepted⟩
  · have haccepted := hrefused
    rw [not_or, not_or, not_not, not_le, not_lt] at haccepted
    obtain ⟨hfinite, hpos, hone⟩ := haccepted
    -- In each case the ending is known, and it is none of the other ones.
    rw [root_of_positive ((positive_iff hfits).mpr ⟨hfinite, hpos⟩) hone]
    rcases acceptedRoot_cases number precision hone with ⟨hneg, heq⟩ | ⟨hneg, hlarge, heq⟩ |
      ⟨hneg, hlarge, hleast, heq⟩ | ⟨hneg, hlarge, hleast, x, heq⟩
    · simp [heq, hrefused, hneg]
    · simp [heq, hrefused, hneg, hlarge, Fault.category]
    · simp [heq, hrefused, hneg, hlarge, hleast, Fault.category]
    · simp [heq, hrefused, hneg, hlarge, hleast]

/-- The search divides by zero for the least positive double, and not for the next one. -/
theorem least_root_divides_by_zero_and_next_does_not :
    ending (root (.double (ofBits 1)) (.double (ofBits 1)) 20) = .fault .zeroDivision ∧
      ∃ x, ending (root (.double (ofBits 2)) (.double (ofBits 1)) 20) = .success (.double x) := by
  have hone : (ofBits 1).toRat = least := by
    rw [least_eq, show ofBits 1 = .finite false 1 (isMagnitude_fraction (by decide)) from rfl, toRat,
      signed_false, Nat.cast_one, Int.cast_one]
  have htwo : (ofBits 2).toRat = 2 * least := by
    rw [least_eq, mul_one_div,
      show ofBits 2 = .finite false 2 (isMagnitude_fraction (by decide)) from rfl, toRat,
      signed_false, Nat.cast_ofNat, Int.cast_ofNat]
  have hpos := least_pos
  have haccepted : ¬ (¬ (Number.double (ofBits 1)).IsFinite ∨ (Number.double (ofBits 1)).toRat ≤ 0 ∨
      (20 : Int) < 1) := by
    rw [Number.toRat, hone]
    rintro (hinfinite | hle | hfew)
    · exact hinfinite rfl
    · exact absurd hpos (not_lt.mpr hle)
    · omega
  have hdecided (number : Number) :=
    ((root_ending_decided_by_arguments number (.double (ofBits 1)) 20).2.2 id).2 haccepted
  have hnext : ¬ IsLeastDouble (.double (ofBits 2)) := by
    rintro ⟨x, heq, hx⟩
    cases heq
    linarith
  refine ⟨(((hdecided _).2 ?_).2 id).1.mpr ⟨_, rfl, hone⟩, (((hdecided _).2 ?_).2 id).2 hnext⟩
  · exact Number.not_negative_of_pos (by rwa [Number.toRat, hone])
  · exact Number.not_negative_of_pos (by rw [Number.toRat, htwo]; linarith)

end SquareRoot
end Reckoner
