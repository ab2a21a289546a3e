import Reckoner.Proofs.Demonstration.Completion
import Reckoner.Proofs.Double.Half

/-!
# The sum of a product and a half

The last section adds an exact product and a half whose fraction is dropped.  The half is a double before
its fraction is dropped, so it is rounded first, and the sum that is shown need not be the exact one.  It
is exact for every number up to `2 ^ 53 + 2` and for no larger one but those of `Double.KeepsHalf`.
-/

namespace Reckoner
namespace Demonstration

open Settings (Calculator Display Inputs)
open Transcript
open Double (IsRounding KeepsHalf limit towardZero)

/-- The line that shows the sum. -/
def sumText (a b c sum : Int) : String :=
  "(" ++ Numeral.ofInt a ++ " * " ++ Numeral.ofInt b ++ ") + (" ++ Numeral.ofInt c ++ " / 2) = " ++
    Numeral.ofInt sum

/-- The line that shows the stand-in for the area of a circle. -/
def areaText (radius : Int) : String :=
  "Approximate area of circle (r=" ++ Numeral.ofInt radius ++ "): " ++
    Numeral.ofInt (Integer.circleArea radius)

theorem not_mem_sumText (a b c sum : Int) : '\x1b' ∉ (sumText a b c sum).toList := by
  have hnumeral (n : Int) := (Numeral.inert_ofInt n).not_mem
  simp only [sumText, String.toList_append, List.mem_append, not_or]
  exact ⟨⟨⟨⟨⟨⟨⟨by decide, hnumeral a⟩, by decide⟩, hnumeral b⟩, by decide⟩, hnumeral c⟩, by decide⟩,
    hnumeral sum⟩

theorem not_mem_areaText (radius : Int) : '\x1b' ∉ (areaText radius).toList := by
  have hnumeral (n : Int) := (Numeral.inert_ofInt n).not_mem
  unfold areaText
  simp only [String.toList_append, List.mem_append, not_or]
  exact ⟨⟨⟨by decide, hnumeral _⟩, by decide⟩, hnumeral _⟩

/-- The lines of the section, with any sum. -/
def combinedLines (inputs : Inputs) (sum : Int) : List String :=
  ["Complex Calculations:\n",
    sumText inputs.a inputs.b inputs.c sum ++ "\n",
    areaText inputs.radius ++ "\n",
    "\n"]

/-- A section that completes has shown the sum with the rounded half. -/
theorem combined_texts {settings : Calculator} {display : Display}
    (h : (combined settings display).Completes) :
    ∃ r, IsRounding ((settings.inputs.c : ℚ) / 2) r ∧
      (combined settings display).texts = combinedLines settings.inputs
        (settings.inputs.a * settings.inputs.b + towardZero r) := by
  obtain ⟨r, hr, hlt, ha, hb, hsum, hradius, harea⟩ := (combined_completes_iff settings display).mp h
  refine ⟨r, hr, ?_⟩
  rw [← circleArea_eq] at harea
  rw [combined, log, texts_log_bind, Report.line_eq (by decide), texts_write_bind, halving_eq hr hlt,
    Numeral.show?_of_fits ha, lift_ok_bind, Numeral.show?_of_fits hb, lift_ok_bind,
    Numeral.show?_of_fits (fits_of_half_below hr hlt), lift_ok_bind, Numeral.show?_of_fits hsum,
    lift_ok_bind, ← sumText, Report.line_eq (not_mem_sumText _ _ _ _), texts_write_bind,
    Numeral.show?_of_fits hradius, lift_ok_bind, Numeral.show?_of_fits harea, lift_ok_bind]
  change _ :: _ :: (Report.line (areaText settings.inputs.radius) >>= _).texts = _
  rw [Report.line_eq (not_mem_areaText _), texts_write_bind, Report.blank,
    Report.line_eq (by decide), texts_write]
  rfl

/-- The sum that is shown has the whole part of the rounded half in it.  It is the exact sum exactly if
rounding the half keeps its whole part, which is so for every number up to `2 ^ 53 + 2`. -/
theorem shown_sum_exact_iff_half_kept (settings : Calculator) (display : Display)
    (h : (combined settings display).Completes) :
    ∃ shown : Int,
      (combined settings display).texts = combinedLines settings.inputs shown ∧
      (∃ r, IsRounding ((settings.inputs.c : ℚ) / 2) r ∧
        shown = settings.inputs.a * settings.inputs.b + towardZero r) ∧
      (shown = settings.inputs.a * settings.inputs.b + towardZero ((settings.inputs.c : ℚ) / 2) ↔
        KeepsHalf settings.inputs.c.natAbs) ∧
      (settings.inputs.c.natAbs ≤ 2 ^ 53 + 2 →
        shown = settings.inputs.a * settings.inputs.b + towardZero ((settings.inputs.c : ℚ) / 2)) := by
  obtain ⟨r, hr, htexts⟩ := combined_texts h
  have hexact := hr.towardZero_half_int_eq_iff
  refine ⟨_, htexts, ⟨r, hr, rfl⟩, ?_, fun hle => ?_⟩
  · rw [add_right_inj, hexact]
  · rw [hexact.mpr (Double.keepsHalf_of_le hle)]

/-- The default settings with another number to halve. -/
def halved (n : ℕ) : Calculator := { inputs := { Inputs.standard with c := n } }

theorem combined_halved_completes {n : ℕ} (hle : 2 ^ 53 ≤ n) (hlt : n < 2 ^ 54) (display : Display) :
    (combined (halved n) display).Completes := by
  obtain ⟨r, hr⟩ := Double.exists_isRounding ((n : ℚ) / 2)
  obtain ⟨m, rfl, hm⟩ : ∃ m : ℕ, r = m ∧ m ≤ 2 ^ 53 :=
    ⟨_, hr.eq_of_half_lt hle hlt, by split <;> omega⟩
  have hlimit : |(m : ℚ)| < limit := by
    have hm : (m : ℚ) ≤ 2 ^ 53 := by exact_mod_cast hm
    rw [abs_of_nonneg (by positivity)]
    exact lt_of_le_of_lt hm (pow_lt_pow_right₀ one_lt_two (by decide))
  have hsum : Numeral.Fits (12 * 8 + towardZero m) := by
    rw [Double.towardZero_natCast]
    exact Numeral.fits_of_lt_pow (k := 17) (by decide) (by omega)
  have hothers : ∀ k ∈ [12, 8, 5, 42 * 5 ^ 2], Numeral.Fits k := by
    intro k hk
    fin_cases hk <;> exact Numeral.fits_of_lt (by decide)
  exact (combined_completes_iff _ _).mpr ⟨m, hr, hlimit, hothers 12 (by decide), hothers 8 (by decide),
    hsum, hothers 5 (by decide), hothers (42 * 5 ^ 2) (by decide)⟩

/-- The half of this odd number is a tie that goes down, and the sum that is shown is exact. -/
theorem odd_half_rounded_down :
    (combined (halved 9007199254740993) {}).Completes ∧
      (combined (halved 9007199254740993) {}).texts =
        ["Complex Calculations:\n",
          "(12 * 8) + (9007199254740993 / 2) = 4503599627370592\n",
          "Approximate area of circle (r=5): 1050\n",
          "\n"] := by
  have hcompletes : (combined (halved 9007199254740993) {}).Completes :=
    combined_halved_completes (by decide) (by decide) {}
  obtain ⟨shown, htexts, -, -, hexact⟩ := shown_sum_exact_iff_half_kept _ _ hcompletes
  have hhalf := Double.towardZero_half_natCast 9007199254740993
  refine ⟨hcompletes, ?_⟩
  rw [htexts, hexact (by decide), halved, Int.cast_natCast, hhalf]
  decide +kernel

/-- The half of this odd number is a tie that goes up: the fraction is not dropped, and the sum that is
shown is one too large. -/
theorem odd_half_rounded_up :
    (combined (halved 9007199254740995) {}).Completes ∧
      (combined (halved 9007199254740995) {}).texts =
        ["Complex Calculations:\n",
          "(12 * 8) + (9007199254740995 / 2) = 4503599627370594\n",
          "Approximate area of circle (r=5): 1050\n",
          "\n"] ∧
      12 * 8 + towardZero ((9007199254740995 : ℚ) / 2) = 4503599627370593 := by
  have hcompletes : (combined (halved 9007199254740995) {}).Completes :=
    combined_halved_completes (by decide) (by decide) {}
  obtain ⟨r, hr, htexts⟩ := combined_texts hcompletes
  have hhalf := Double.towardZero_half_natCast 9007199254740995
  refine ⟨hcompletes, ?_, ?_⟩
  · rw [htexts, hr.eq_of_half_lt (n := 9007199254740995) (by decide) (by decide),
      Double.towardZero_natCast]
    decide +kernel
  · rw [Nat.cast_ofNat] at hhalf
    rw [hhalf]
    rfl

end Demonstration
end Reckoner
