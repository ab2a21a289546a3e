import Reckoner.Proofs.Number
import Reckoner.Proofs.Report.Line

/-!
# Reported outcomes

Reporting an outcome is all or nothing.  The message of an error is written before the value is
converted and displayed, and neither step can fail after that: the value of a failed outcome is a zero
of one of three kinds.  The value of a result may be beyond every double, or have no whole part; then
nothing is written at all.

Which fault ends the reporting of such a value is left open here.
-/

namespace Reckoner

namespace Number

/-- The numbers that are equal to zero, each with its text in the log and with its sign. -/
inductive IsZero : Number → String → Bool → Prop where
  | int : IsZero (.int 0) "0" false
  | double (negative : Bool) :
      IsZero (.double (.zero negative)) (Numeral.sign negative ++ "0.0") negative

theorem exists_isZero_of_eq_sentinel {value : Number} (h : value.eq sentinel = true) :
    ∃ text negative, IsZero value text negative := by
  have hsentinel : sentinel.exact = (int 0).exact := by decide +kernel
  rw [Number.eq, hsentinel] at h
  obtain ⟨hfinite, hzero⟩ := (eq_zero_iff value).mp h
  cases value with
  | int n =>
      obtain rfl : n = 0 := Int.cast_eq_zero.mp hzero
      exact ⟨_, _, .int⟩
  | double x =>
      obtain ⟨negative, rfl⟩ := Double.exists_eq_zero hfinite hzero
      exact ⟨_, _, .double negative⟩

variable {value : Number} {text : String} {negative : Bool}

theorem IsZero.text_eq (h : IsZero value text negative) : value.text = .ok text := by
  cases h with
  | int => exact Numeral.show?_of_fits (Numeral.fits_of_lt (by decide))
  | double negative => rfl

theorem IsZero.toDouble_eq (h : IsZero value text negative) :
    value.toDouble = .ok (.zero negative) := by
  cases h with
  | int => decide +kernel
  | double negative => rfl

end Number

/-- No outcome is left out: each can be put together from its value and its error. -/
theorem Outcome.make_parts (outcome : Outcome) : make outcome.value outcome.error = .ok outcome :=
  dif_pos outcome.zero_of_error

namespace Report

open Settings (Display)
open Transcript

/-- The displayed text of a zero. -/
def zeroText (style : Style) (negative : Bool) : String :=
  match style with
  | .fixed => Numeral.sign negative ++ "0.000000"
  | .truncated => "0"

theorem format_zero (style : Style) (negative : Bool) :
    style.format (.double (.zero negative)) = .ok (zeroText style negative) := by
  cases style <;> cases negative <;> decide +kernel

/-- The values whose display fails. -/
def Undisplayable (style : Style) (value : Number) : Prop :=
  value.TooLarge ∨ style = .truncated ∧ ¬ value.IsFinite

section Values

variable (display : Display) (label : String)

theorem exists_format_double {style : Style} {x : Double}
    (h : ¬ (style = .truncated ∧ ¬ x.isFinite = true)) :
    ∃ shown, style.format (.double x) = .ok shown := by
  cases style with
  | fixed => exact ⟨_, rfl⟩
  | truncated => exact ⟨_, format_double .truncated (by simpa using h)⟩

theorem doubleResult_of_displayable {value : Number} (h : ¬ Undisplayable display.style value) :
    ∃ x shown, value.toDouble = .ok x ∧ display.style.format (.double x) = .ok shown ∧
      doubleResult display label value = write (labelled display label shown) := by
  rw [Undisplayable, not_or] at h
  obtain ⟨x, hx, hfinite⟩ := Number.exists_toDouble_of_not_tooLarge h.1
  rw [← hfinite] at h
  obtain ⟨shown, hshown⟩ := exists_format_double h.2
  refine ⟨x, shown, hx, hshown, ?_⟩
  rw [doubleResult, hx, lift_ok_bind, result_of_format_eq_ok display label hshown]

theorem doubleResult_of_undisplayable {value : Number} (h : Undisplayable display.style value) :
    ∃ fault, doubleResult display label value = ⟨[], .error fault⟩ := by
  rcases h with hlarge | ⟨hstyle, hinfinite⟩
  · refine ⟨.integerTooLarge, ?_⟩
    rw [doubleResult, Number.toDouble_of_tooLarge hlarge]
    rfl
  · obtain rfl | ⟨negative, rfl⟩ := Number.not_isFinite_iff.mp hinfinite
    · exact ⟨_, result_of_format_eq_error display label (by rw [hstyle]; rfl)⟩
    · exact ⟨_, result_of_format_eq_error display label (by rw [hstyle]; rfl)⟩

theorem doubleResult_zero {value : Number} {text : String} {negative : Bool}
    (h : value.IsZero text negative) :
    doubleResult display label value =
      write (labelled display label (zeroText display.style negative)) := by
  rw [doubleResult, h.toDouble_eq, lift_ok_bind,
    result_of_format_eq_ok display label (format_zero display.style negative)]

end Values

theorem not_mem_message (kind : ErrorKind) : '\x1b' ∉ kind.message.toList := by
  cases kind <;> decide

theorem recover_of_success {outcome : Outcome} (h : outcome.error = none) :
    recover outcome = pure outcome.value := by
  rw [recover, h]

theorem recover_of_error {outcome : Outcome} {kind : ErrorKind} {text : String} {negative : Bool}
    (herror : outcome.error = some kind) (h : outcome.value.IsZero text negative) :
    recover outcome =
      ⟨[.logged ⟨.warning, .report,
          some ("Recovered domain error " ++ kind.code ++ ", using sentinel " ++ text)⟩,
        .wrote (kind.message ++ "\n")], .ok outcome.value⟩ := by
  rw [recover, herror]
  dsimp only
  rw [recoveryMessage, h.text_eq, line_eq (not_mem_message kind)]
  rfl

/-- Reporting is all or nothing.  An outcome that failed is logged once, and its message is written and
then its label with a zero.  For a result nothing is logged, and the label is written with the displayed
value, unless the value is beyond every double or has no whole part where one is asked for; then nothing
is written.  The outcomes are exactly those that can be put together from a value and an error. -/
theorem outcome_reported_wholly_or_not (display : Display) (label : String) (outcome : Outcome) :
    Outcome.make outcome.value outcome.error = .ok outcome ∧
      match outcome.error with
      | some kind => ∃ text negative, outcome.value.IsZero text negative ∧
          Report.outcome display label outcome =
            ⟨[.logged ⟨.warning, .report,
                some ("Recovered domain error " ++ kind.code ++ ", using sentinel " ++ text)⟩,
              .wrote (kind.message ++ "\n"),
              .wrote (labelled display label (zeroText display.style negative))], .ok ()⟩
      | none =>
          (¬ Undisplayable display.style outcome.value ∧
            ∃ x shown, outcome.value.toDouble = .ok x ∧
              display.style.format (.double x) = .ok shown ∧
              Report.outcome display label outcome =
                ⟨[.wrote (labelled display label shown)], .ok ()⟩) ∨
          (Undisplayable display.style outcome.value ∧
            ∃ fault, Report.outcome display label outcome = ⟨[], .error fault⟩) := by
  refine ⟨outcome.make_parts, ?_⟩
  split
  · rename_i kind herror
    have hzero := outcome.zero_of_error (herror ▸ Option.some_ne_none kind)
    obtain ⟨text, negative, h⟩ := Number.exists_isZero_of_eq_sentinel hzero
    refine ⟨text, negative, h, ?_⟩
    rw [Report.outcome, recover_of_error herror h, bind_of_ok rfl, doubleResult_zero display label h]
    rfl
  · rename_i herror
    rw [Report.outcome, recover_of_success herror, pure_bind_eq]
    by_cases h : Undisplayable display.style outcome.value
    · exact .inr ⟨h, doubleResult_of_undisplayable display label h⟩
    · exact .inl ⟨h, doubleResult_of_displayable display label h⟩

end Report
end Reckoner
