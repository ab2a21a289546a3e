import Reckoner.Proofs.Double.Finite
import Reckoner.Proofs.Double.Relative
import Reckoner.Proofs.Fault

/-!
# Values of numbers

An integer is its own value, and a finite double has the value that it has as a double.  Finite numbers
are compared by value, whatever their kinds: nothing is rounded on the way.

The numbers that do not become doubles are the integers whose magnitude reaches `overflowBound`.
-/

namespace Reckoner
namespace Number

open Double (unitsPerOne overflowBound unitsPerOne_pos unitsPerOne_ne_zero)

/-- The value of a finite number.  The others have none, and zero stands for it. -/
def toRat : Number → ℚ
  | int n => n
  | double x => x.toRat

/-- Neither an infinity nor not-a-number. -/
def IsFinite : Number → Prop
  | int _ => True
  | double x => x.isFinite = true

/-- An integer beyond every finite double. -/
def TooLarge : Number → Prop
  | int n => overflowBound ≤ |(n : ℚ)|
  | double _ => False

/-- Below zero. -/
def Negative (x : Number) : Prop := x.toRat < 0 ∨ x = .double (.infinite true)

/-! ### Comparisons -/

theorem isFinite_int (n : Int) : (int n).IsFinite := trivial

theorem exists_units_of_isFinite {x : Number} (h : x.IsFinite) :
    ∃ n : ℤ, x.exact = .units n ∧ x.toRat = n / unitsPerOne := by
  cases x with
  | int n =>
      refine ⟨n * unitsPerOne, rfl, ?_⟩
      rw [Int.cast_mul, Int.cast_natCast, mul_div_cancel_right₀ _ unitsPerOne_ne_zero, toRat]
  | double x =>
      obtain ⟨negative, units, hunits, rfl⟩ := Double.exists_of_isFinite h
      exact ⟨signed negative units, rfl, rfl⟩

section

variable {x y : Number} (hx : x.IsFinite) (hy : y.IsFinite)

include hx hy

theorem lt_iff_toRat_lt : x.lt y = true ↔ x.toRat < y.toRat := by
  obtain ⟨m, hm, hxm⟩ := exists_units_of_isFinite hx
  obtain ⟨n, hn, hyn⟩ := exists_units_of_isFinite hy
  rw [lt, hm, hn, hxm, hyn, Exact.lt, decide_eq_true_eq,
    div_lt_div_iff_of_pos_right unitsPerOne_pos, Int.cast_lt]

theorem eq_iff_toRat_eq : x.eq y = true ↔ x.toRat = y.toRat := by
  obtain ⟨m, hm, hxm⟩ := exists_units_of_isFinite hx
  obtain ⟨n, hn, hyn⟩ := exists_units_of_isFinite hy
  rw [eq, hm, hn, hxm, hyn, div_left_inj' unitsPerOne_ne_zero, Int.cast_inj]
  simp [Exact.eq]

end

theorem not_isFinite_iff {x : Number} :
    ¬ x.IsFinite ↔ x = .double .nan ∨ ∃ negative, x = .double (.infinite negative) := by
  cases x with
  | int n => simp [IsFinite]
  | double x => cases x <;> simp [IsFinite, Double.isFinite]

theorem lt_zero_iff (x : Number) : x.lt (.int 0) = true ↔ x.Negative := by
  by_cases hx : x.IsFinite
  · rw [lt_iff_toRat_lt hx (isFinite_int 0), Negative, or_iff_left]
    · simp [toRat]
    · rintro rfl
      cases hx
  · obtain rfl | ⟨negative, rfl⟩ := not_isFinite_iff.mp hx
    · simp [Negative, toRat, Double.toRat, lt, exact, Double.exact, Exact.lt]
    · simp [Negative, toRat, Double.toRat, lt, exact, Double.exact, Exact.lt]

theorem not_negative_of_pos {x : Number} (h : 0 < x.toRat) : ¬ x.Negative := by
  rintro (hlt | rfl)
  · exact lt_asymm hlt h
  · exact lt_irrefl _ h

theorem eq_zero_iff (x : Number) : x.eq (.int 0) = true ↔ x.IsFinite ∧ x.toRat = 0 := by
  by_cases hx : x.IsFinite
  · rw [eq_iff_toRat_eq hx (isFinite_int 0)]
    simp [toRat, hx]
  · obtain rfl | ⟨negative, rfl⟩ := not_isFinite_iff.mp hx
    · simp [eq, exact, Double.exact, Exact.eq, hx]
    · simp [eq, exact, Double.exact, Exact.eq, hx]

/-- Below a finite number is below every larger one. -/
theorem lt_of_lt_of_toRat_le {x y z : Number} (hy : y.IsFinite) (hz : z.IsFinite)
    (h : x.lt y = true) (hle : y.toRat ≤ z.toRat) : x.lt z = true := by
  obtain ⟨m, hm, hym⟩ := exists_units_of_isFinite hy
  obtain ⟨n, hn, hzn⟩ := exists_units_of_isFinite hz
  rw [hym, hzn, div_le_div_iff_of_pos_right Double.unitsPerOne_pos, Int.cast_le] at hle
  rw [lt, hm] at h
  rw [lt, hn]
  -- Only the exact value of `x` matters; if it is an infinity, both comparisons are the same.
  cases hx : x.exact with
  | undefined => rw [hx] at h; cases h
  | infinite negative => rw [hx] at h; exact h
  | units k =>
      rw [hx, Exact.lt, decide_eq_true_eq] at h
      rw [Exact.lt, decide_eq_true_eq]
      exact h.trans_le hle

/-! ### Conversions -/

theorem toDouble_of_tooLarge {x : Number} (h : x.TooLarge) :
    x.toDouble = .error .integerTooLarge := by
  cases x with
  | double x => cases h
  | int n =>
      obtain ⟨r, hr⟩ := Double.exists_isRounding (n : ℚ)
      have hnot : ¬ (Double.ofInt n).isFinite = true := by
        rw [(Double.rounds_ofInt n).isFinite_iff hr, hr.abs_lt_limit_iff]
        exact not_lt.mpr h
      obtain hfinite | ⟨negative, hinfinite⟩ := (Double.rounds_ofInt n).finite_or_infinite
      · exact absurd hfinite hnot
      · rw [toDouble, Double.ofInt?, hinfinite, Double.orFault]

/-- Every other number becomes a double that is finite exactly if the number is. -/
theorem exists_toDouble_of_not_tooLarge {x : Number} (h : ¬ x.TooLarge) :
    ∃ y, x.toDouble = .ok y ∧ (y.isFinite = true ↔ x.IsFinite) := by
  cases x with
  | double x => exact ⟨x, rfl, Iff.rfl⟩
  | int n =>
      obtain ⟨r, hr⟩ := Double.exists_isRounding (n : ℚ)
      have hfinite : (Double.ofInt n).isFinite = true := by
        rw [(Double.rounds_ofInt n).isFinite_iff hr, hr.abs_lt_limit_iff]
        exact not_le.mp h
      exact ⟨Double.ofInt n, Double.orFault_of_isFinite hfinite, by simp [IsFinite, hfinite]⟩

/-- A fault that shows a number refuses a value, also when the number is too long to be shown. -/
theorem refuses_refuse {α : Type} (x : Number) {fault : String → Fault}
    (h : ∀ shown, (fault shown).category = .value) : Refuses (x.refuse fault : Except Fault α) := by
  cases x with
  | double x => exact ⟨fault (layout.text x), rfl, h _⟩
  | int n =>
      by_cases hfits : Numeral.Fits n
      · exact ⟨fault (Numeral.ofInt n), by rw [refuse, text, Numeral.show?_of_fits hfits, Except.bind],
          h _⟩
      · exact ⟨.numeralTooLong, by rw [refuse, text, Numeral.show?_of_not_fits hfits, Except.bind],
          rfl⟩

end Number
end Reckoner
