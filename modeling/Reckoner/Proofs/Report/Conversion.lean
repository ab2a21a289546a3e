import Reckoner.Proofs.Integer.Division
import Reckoner.Proofs.Report.Outcome

/-!
# Integers that are converted and integers that are divided by one

An integer becomes a double in two ways: it is converted, or it is divided by one.  Both ways round
the same exact number, and each is shown to give the nearest double with the sign of the integer; since
there is only one such double, they agree, ties and carries included.  They also overflow for the same
integers, though with different faults, so a converted integer is reported as its quotient by one is.
-/

namespace Reckoner

open Double (ofInt? overflowBound IsNearestSigned)
open Integer (divide)

/-- An integer below the bound is converted to the nearest double with its sign. -/
theorem Double.ofInt?_isNearestSigned {n : Int} (h : |(n : ℚ)| < overflowBound) :
    ∃ x, ofInt? n = .ok x ∧ IsNearestSigned (decide (n < 0)) n x := by
  obtain ⟨x, hx, -⟩ := Number.exists_toDouble_of_not_tooLarge (x := .int n) (not_le.mpr h)
  obtain ⟨hfinite, hrounding⟩ := isRounding_of_ofInt? hx
  refine ⟨x, hx, hrounding.isNearest hfinite, ?_⟩
  obtain rfl := eq_of_orFault_eq_ok hx
  exact ofRatio_of_isZero

/-- An integer below the bound is divided by one to the nearest double with its sign. -/
theorem Integer.divide_one_isNearestSigned {n : Int} (h : |(n : ℚ)| < overflowBound) :
    ∃ x, divide n 1 = .ok (.success (.double x)) ∧ IsNearestSigned (decide (n < 0)) n x := by
  have hquotient : (n : ℚ) / ((1 : ℤ) : ℚ) = n := by rw [Int.cast_one, div_one]
  obtain ⟨x, hx, hnearest⟩ := divide_isNearestSigned one_ne_zero (hquotient.symm ▸ h)
  rw [hquotient] at hnearest
  have hsign : (decide (n < 0) != decide ((1 : ℤ) < 0)) = decide (n < 0) := Bool.xor_false _
  exact ⟨x, hx, hsign ▸ hnearest⟩

theorem Integer.divide_one_of_bound_le {n : Int} (h : overflowBound ≤ |(n : ℚ)|) :
    divide n 1 = .error .quotientTooLarge := by
  refine divide_of_not_below one_ne_zero ?_
  rw [quotientBelow_iff, Int.cast_one, div_one]
  exact not_lt.mpr h

namespace Report

open Settings (Display)
open Transcript

/-- Reports the quotient of an integer by one. -/
def quotientByOne (display : Display) (label : String) (n : Int) : Transcript Unit := do
  let quotient ← divide n 1
  outcome display label quotient

section

variable (display : Display) (label : String) {n : Int}

theorem not_completes_doubleResult (h : overflowBound ≤ |(n : ℚ)|) :
    ¬ (doubleResult display label (.int n)).Completes := by
  rw [doubleResult, Number.toDouble_of_tooLarge (x := .int n) h, lift_bind_completes]
  rintro ⟨x, hx, -⟩
  cases hx

theorem not_completes_quotientByOne (h : overflowBound ≤ |(n : ℚ)|) :
    ¬ (quotientByOne display label n).Completes := by
  rw [quotientByOne, Integer.divide_one_of_bound_le h, lift_bind_completes]
  rintro ⟨quotient, hquotient, -⟩
  cases hquotient

theorem doubleResult_eq_write {x : Double} (h : ofInt? n = .ok x) (hfinite : x.isFinite = true) :
    doubleResult display label (.int n) =
      write (labelled display label (shown display.style x)) := by
  rw [doubleResult, Number.toDouble, h, lift_ok_bind,
    result_of_format_eq_ok display label (format_double display.style hfinite)]

theorem quotientByOne_eq_write {x : Double} (h : divide n 1 = .ok (.success (.double x)))
    (hfinite : x.isFinite = true) :
    quotientByOne display label n = write (labelled display label (shown display.style x)) := by
  rw [quotientByOne, h, lift_ok_bind, outcome, recover_of_success rfl, pure_bind_eq]
  exact result_of_format_eq_ok display label (format_double display.style hfinite)

end

/-- From the bound on, an integer neither becomes a double nor has a quotient by one, both because of
an overflow, and neither is reported.  Below the bound both are the same double, the one nearest to the
integer, and both are reported as the same line, whatever the display and the label are. -/
theorem converted_and_divided_by_one_alike (n : Int) :
    (overflowBound ≤ |(n : ℚ)| ∧
      (∃ fault other, (Number.int n).toDouble = .error fault ∧ divide n 1 = .error other ∧
        fault.category = .overflow ∧ other.category = .overflow) ∧
      ∀ display label, ¬ (doubleResult display label (.int n)).Completes ∧
        ¬ (quotientByOne display label n).Completes) ∨
    (|(n : ℚ)| < overflowBound ∧
      ∃ x, (Number.int n).toDouble = .ok x ∧ divide n 1 = .ok (.success (.double x)) ∧
        (∀ y, IsNearestSigned (decide (n < 0)) n y ↔ y = x) ∧
        ∀ display label, ∃ line, doubleResult display label (.int n) = write line ∧
          quotientByOne display label n = write line) := by
  rcases le_or_gt overflowBound |(n : ℚ)| with hge | hlt
  · refine .inl ⟨hge, ⟨.integerTooLarge, .quotientTooLarge, ?_, ?_, rfl, rfl⟩, ?_⟩
    · exact Number.toDouble_of_tooLarge (x := .int n) hge
    · exact Integer.divide_one_of_bound_le hge
    · exact fun display label => ⟨not_completes_doubleResult display label hge,
        not_completes_quotientByOne display label hge⟩
  · obtain ⟨x, hx, hnearest⟩ := Double.ofInt?_isNearestSigned hlt
    obtain ⟨y, hy, hnearest'⟩ := Integer.divide_one_isNearestSigned hlt
    obtain rfl := hnearest.unique hnearest'
    refine .inr ⟨hlt, x, hx, hy, fun z => ⟨fun hz => hz.unique hnearest, ?_⟩, ?_⟩
    · rintro rfl
      exact hnearest
    · exact fun display label => ⟨_, doubleResult_eq_write display label hx hnearest.isFinite,
        quotientByOne_eq_write display label hy hnearest.isFinite⟩

end Report
end Reckoner
