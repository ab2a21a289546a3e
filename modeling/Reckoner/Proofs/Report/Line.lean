import Reckoner.Proofs.Decimal.Fixed
import Reckoner.Proofs.Report.Transcript
import Reckoner.Report.Line

/-!
# Reported lines and what they show

A result is written as its label, the separator without its control sequences, and the displayed
number; neither the label nor the number is touched.  An integer is displayed when it has few enough
digits, a finite double always: its whole part has at most 309 of them.  `Shows` says which text shows
a finite double in a style, without saying how to compute it.
-/

namespace Reckoner
namespace Report

open Settings (Display)
open Transcript

/-- The line of a result. -/
def resultLine (separator label shown : String) : String :=
  label ++ ControlSequence.stripText separator ++ shown ++ "\n"

/-- What a text must be to show a finite double: with six places, the decimal text nearest to it; and
truncated, the decimal text of its whole part. -/
def Shows (style : Style) (x : Double) (text : String) : Prop :=
  match style with
  | .fixed => ∃ whole fraction, Fixed.IsText 6 x.signBit |x.toRat| text whole fraction
  | .truncated => ∃ ds, Numeral.IsText (Double.towardZero x.toRat) text ds

/-- The text by which the program shows a finite double. -/
def shown (style : Style) (x : Double) : String :=
  match style with
  | .fixed => Fixed.text Style.places x
  | .truncated => Numeral.ofInt (Double.towardZero x.toRat)

/-- A finite double is shown by its one text in each style. -/
theorem shows_iff (style : Style) {x : Double} (h : x.isFinite = true) (text : String) :
    Shows style x text ↔ text = shown style x := by
  cases style with
  | fixed =>
      constructor
      · rintro ⟨whole, fraction, htext⟩
        exact htext.eq_text (by decide) h
      · rintro rfl
        exact Fixed.exists_isText (by decide) h
  | truncated =>
      constructor
      · rintro ⟨ds, htext⟩
        exact htext.eq_ofInt
      · rintro rfl
        exact ⟨_, Numeral.isText_ofInt _⟩

theorem twoPow_le_tenPow {k : Nat} (h : k ≤ Numeral.digitLimit) :
    (2 : ℚ) ^ k ≤ (tenPow Numeral.digitLimit : Nat) := by
  have hpow : (2 : ℚ) ^ k ≤ 10 ^ k := pow_le_pow_left₀ two_pos.le (by norm_num) k
  have hmore : (10 : ℚ) ^ k ≤ 10 ^ Numeral.digitLimit := pow_le_pow_right₀ (by norm_num) h
  rw [tenPow_eq, Nat.cast_pow, Nat.cast_ofNat]
  exact hpow.trans hmore

theorem fits_towardZero (x : Double) : Numeral.Fits (Double.towardZero x.toRat) := by
  have h := (Double.natAbs_towardZero_lt x).trans_le (twoPow_le_tenPow (by decide))
  exact Nat.cast_lt.mp h

theorem format_double (style : Style) {x : Double} (h : x.isFinite = true) :
    style.format (.double x) = .ok (shown style x) := by
  cases style with
  | fixed => rfl
  | truncated =>
      rw [Style.format, Double.truncate_eq h, Except.bind, Numeral.show?_of_fits (fits_towardZero x),
        shown]

theorem format_of_shows {style : Style} {x : Double} {text : String} (h : x.isFinite = true)
    (hshows : Shows style x text) : style.format (.double x) = .ok text := by
  rw [format_double style h, (shows_iff style h text).mp hshows]

theorem inert_shown (style : Style) {x : Double} (h : x.isFinite = true) :
    ControlSequence.Inert (shown style x).toList := by
  cases style with
  | fixed => exact Fixed.inert_text Style.places h
  | truncated => exact Numeral.inert_ofInt _

theorem line_eq {text : String} (h : '\x1b' ∉ text.toList) : line text = write (text ++ "\n") := by
  rw [line, ControlSequence.stripText_of_not_mem h]

section Lines

variable (display : Display) (label : String)

/-- The line of a displayed number, whatever its label and its text. -/
def labelled (shown : String) : String :=
  ControlSequence.stripText (label ++ display.separator ++ shown) ++ "\n"

theorem result_of_format_eq_ok {value : Number} {shown : String}
    (h : display.style.format value = .ok shown) :
    result display label value = write (labelled display label shown) := by
  rw [result, resultText, h, Except.map, lift_ok_bind, line, labelled]

theorem result_of_format_eq_error {value : Number} {fault : Fault}
    (h : display.style.format value = .error fault) :
    result display label value = ⟨[], .error fault⟩ := by
  rw [result, resultText, h]
  rfl

end Lines

section Results

variable (display : Display) {label : String} (hlabel : '\x1b' ∉ label.toList)

include hlabel

/-- A displayed number without control characters is written as it is. -/
theorem result_eq_write {value : Number} {text : String}
    (hformat : display.style.format value = .ok text)
    (htext : ControlSequence.Inert text.toList) :
    result display label value = write (resultLine display.separator label text) := by
  rw [result_of_format_eq_ok display label hformat, labelled, resultLine,
    ControlSequence.stripText_label_number hlabel htext]

theorem result_int {n : Int} (h : Numeral.Fits n) :
    result display label (.int n) =
      write (resultLine display.separator label (Numeral.ofInt n)) :=
  result_eq_write display hlabel (Numeral.show?_of_fits h) (Numeral.inert_ofInt n)

/-- An integer is written exactly when it has few enough digits. -/
theorem result_int_bind_completes {n : Int} {β : Type} {f : Unit → Transcript β} :
    (result display label (.int n) >>= f).Completes ↔ Numeral.Fits n ∧ (f ()).Completes := by
  by_cases h : Numeral.Fits n
  · rw [result_int display hlabel h, write_bind_completes]
    exact ⟨fun hf => ⟨h, hf⟩, fun hf => hf.2⟩
  · have hformat : display.style.format (.int n) = .error .numeralTooLong :=
      Numeral.show?_of_not_fits h
    rw [completes_bind, result_of_format_eq_error display label hformat]
    constructor
    · rintro ⟨u, hu, -⟩
      cases hu
    · exact fun hf => absurd hf.1 h

theorem outcome_success {x : Double} (h : x.isFinite = true) :
    outcome display label (.success (.double x)) =
      write (resultLine display.separator label (shown display.style x)) :=
  result_eq_write display hlabel (format_double display.style h) (inert_shown display.style h)

/-- A failed outcome is logged and reported, and its zero is displayed. -/
theorem outcome_failure (kind : ErrorKind) :
    outcome display label (.failure kind) =
      (do
        Transcript.log .warning .report (recoveryMessage kind sentinel)
        line kind.message
        write (resultLine display.separator label (shown display.style (.zero false)))) := by
  rw [← result_eq_write display hlabel (format_double display.style rfl)
    (inert_shown display.style rfl)]
  rfl

end Results
end Report
end Reckoner
