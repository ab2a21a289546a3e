import Mathlib.Data.List.Basic
import Reckoner.Outcome
import Reckoner.Proofs.Double.Bits
import Reckoner.Proofs.Json.Literal
import Reckoner.Proofs.Number

/-!
# Descriptions tell outcomes apart

The description of an outcome names its value and its error.  The text of a value determines the value:
digits are read back as the number that was written, an integer as an integer and a double as a double,
and only the three doubles without digits are spelled with the letter `n`.  No text of a value holds a
comma, so the description shows where the value ends.

Equality of descriptions is therefore finer than equality of outcomes: the zeros of the three kinds are
equal and are described differently.  On the other hand not-a-number is described like not-a-number and
is not equal to itself.

Integers that are too long to be shown have no description.
-/

namespace Reckoner
namespace Number

open Parts (IsNumberChar Numeric)

/-- Few enough digits to be shown. -/
def Showable : Number → Prop
  | int n => Numeral.Fits n
  | double _ => True

/-- The text of a number, however long. -/
def spelled : Number → String
  | int n => Numeral.ofInt n
  | double x => layout.text x

theorem text_of_showable {x : Number} (h : x.Showable) : x.text = .ok x.spelled := by
  cases x with
  | int n => exact Numeral.show?_of_fits h
  | double x => rfl

/-! ### Characters -/

/-- Finite numbers are spelled with a sign and digits. -/
theorem exists_spelled_eq {x : Number} (h : x.IsFinite) :
    ∃ negative body, x.spelled.toList = (Numeral.sign negative).toList ++ body ∧ Numeric body := by
  cases x with
  | int n =>
      exact ⟨_, _, Numeral.toList_ofInt n, Parts.numeric_of_digits (Numeral.digits_ne_nil _)
        fun c hc => Numeral.isDigit_of_mem_digits hc⟩
  | double x =>
      obtain ⟨negative, units, hunits, rfl⟩ := Double.exists_of_isFinite h
      obtain ⟨q, hq, -⟩ := Layout.exists_isNumber_body
        (show layout.positionalBelow ≤ Numeral.digitLimit by decide) hunits
      exact ⟨negative, _, Layout.toList_text_finite _ _ hunits, hq.numeric⟩

theorem isNumberChar_of_mem_spelled {x : Number} (h : x.IsFinite) {c : Char}
    (hc : c ∈ x.spelled.toList) : IsNumberChar c := by
  obtain ⟨negative, body, heq, hbody⟩ := exists_spelled_eq h
  rw [heq] at hc
  exact hbody.isNumberChar_of_mem_sign_append negative hc

/-- The letter `n` is in the names of the numbers that are not finite, and in no other text. -/
theorem mem_spelled_iff (x : Number) : 'n' ∈ x.spelled.toList ↔ ¬ x.IsFinite := by
  constructor
  · intro hmem hfinite
    exact absurd (isNumberChar_of_mem_spelled hfinite hmem) (by simp [IsNumberChar])
  · intro hfinite
    obtain rfl | ⟨negative, rfl⟩ := not_isFinite_iff.mp hfinite
    · decide
    · cases negative <;> decide

theorem comma_not_mem_spelled (x : Number) : ',' ∉ x.spelled.toList := by
  by_cases hfinite : x.IsFinite
  · intro hmem
    exact absurd (isNumberChar_of_mem_spelled hfinite hmem) (by simp [IsNumberChar])
  · obtain rfl | ⟨negative, rfl⟩ := not_isFinite_iff.mp hfinite
    · decide
    · cases negative <;> decide

/-! ### Reading back -/

/-- A number as a datum of its kind. -/
def toData : Number → Data
  | int n => .int n
  | double x => .double x

theorem toData_injective {x y : Number} (h : x.toData = y.toData) : x = y := by
  cases x with
  | int m =>
      cases y with
      | int n => rw [Data.int.inj h]
      | double y => cases h
  | double x =>
      cases y with
      | int n => cases h
      | double y => rw [Data.double.inj h]

theorem literal?_spelled {x : Number} (h : x.Showable) (hfinite : x.IsFinite) :
    Json.literal? x.spelled.toList = some x.toData := by
  cases x with
  | int n => exact Json.literal?_int h
  | double x => exact Json.literal?_double (by decide) hfinite

theorem infinite_of_spelled_eq :
    ∀ s t, (double (.infinite s)).spelled = (double (.infinite t)).spelled → s = t := by
  decide

theorem spelled_nan_ne : ∀ s, (double .nan).spelled ≠ (double (.infinite s)).spelled := by
  decide

/-- Numbers that are shown by the same text are the same. -/
theorem eq_of_spelled_eq {x y : Number} (hx : x.Showable) (hy : y.Showable)
    (h : x.spelled = y.spelled) : x = y := by
  have hkind : x.IsFinite ↔ y.IsFinite := by
    rw [← not_iff_not, ← mem_spelled_iff, ← mem_spelled_iff, h]
  by_cases hfinite : x.IsFinite
  · have hread := literal?_spelled hx hfinite
    rw [h, literal?_spelled hy (hkind.mp hfinite)] at hread
    exact (toData_injective (Option.some.inj hread)).symm
  · -- Texts without digits are not read back, but there are three of them only.
    obtain rfl | ⟨s, rfl⟩ := not_isFinite_iff.mp hfinite <;>
      obtain rfl | ⟨t, rfl⟩ := not_isFinite_iff.mp (hkind.not.mp hfinite)
    · rfl
    · exact absurd h (spelled_nan_ne t)
    · exact absurd h.symm (spelled_nan_ne s)
    · rw [infinite_of_spelled_eq s t h]

/-! ### Bits -/

/-- The same integer, doubles that are encoded by one and the same word only, or not-a-number twice. -/
def SameBits : Number → Number → Prop
  | int m, int n => m = n
  | double x, double y =>
      (x = .nan ∧ y = .nan) ∨
        ∃ word, ∀ w, (Double.ofBits w = x ↔ w = word) ∧ (Double.ofBits w = y ↔ w = word)
  | _, _ => False

theorem sameBits_iff (x y : Number) : x.SameBits y ↔ x = y := by
  cases x with
  | int m =>
      cases y with
      | int n => simp [SameBits]
      | double y => simp [SameBits]
  | double x =>
      cases y with
      | int n => simp [SameBits]
      | double y =>
          rw [SameBits, double.injEq]
          constructor
          · rintro (⟨rfl, rfl⟩ | ⟨word, hword⟩)
            · rfl
            · exact ((hword word).1.mpr rfl).symm.trans ((hword word).2.mpr rfl)
          · rintro rfl
            by_cases hx : x = .nan
            · exact .inl ⟨hx, hx⟩
            · exact .inr ⟨x.toBits, fun w => ⟨Double.ofBits_eq_iff hx w, Double.ofBits_eq_iff hx w⟩⟩

end Number

namespace Outcome

/-- What a description says of the error. -/
def errorText (error : Option ErrorKind) : String :=
  (error.map ErrorKind.description).getD "None"

theorem errorText_injective {e f : Option ErrorKind} (h : errorText e = errorText f) : e = f := by
  match e, f with
  | none, none => rfl
  | none, some kind => cases kind <;> exact absurd h (by decide)
  | some kind, none => cases kind <;> exact absurd h (by decide)
  | some .divisionByZero, some .divisionByZero => rfl
  | some .divisionByZero, some .negativeSquareRoot => exact absurd h (by decide)
  | some .negativeSquareRoot, some .divisionByZero => exact absurd h (by decide)
  | some .negativeSquareRoot, some .negativeSquareRoot => rfl

theorem comma_not_mem_errorText (error : Option ErrorKind) : ',' ∉ (errorText error).toList := by
  match error with
  | none => decide
  | some .divisionByZero => decide
  | some .negativeSquareRoot => decide

/-- The description of a value and an error by their texts. -/
def describe (value error : String) : String :=
  "CalcOutcome(value=" ++ value ++ ", error=" ++ error ++ ")"

theorem description_of_showable {outcome : Outcome} (h : outcome.value.Showable) :
    outcome.description = .ok (describe outcome.value.spelled (errorText outcome.error)) := by
  rw [description, Number.text_of_showable h]
  rfl

/-- The only comma of a text separates its parts. -/
theorem append_separated_eq_iff {opening separator closing first first' second second' : String}
    {gap : List Char} (hseparator : separator.toList = ',' :: gap)
    (hopening : ',' ∉ opening.toList) (hfirst : ',' ∉ first.toList) (hgap : ',' ∉ gap)
    (hsecond : ',' ∉ second.toList) (hclosing : ',' ∉ closing.toList) :
    opening ++ first ++ separator ++ second ++ closing =
        opening ++ first' ++ separator ++ second' ++ closing ↔
      first = first' ∧ second = second' := by
  have hparts (v w : String) : (opening ++ v ++ separator ++ w ++ closing).toList =
      (opening.toList ++ v.toList) ++ ',' :: (gap ++ (w.toList ++ closing.toList)) := by
    simp [hseparator]
  have hbefore : ',' ∉ opening.toList ++ first.toList := by simp [hopening, hfirst]
  have hafter : ',' ∉ gap ++ (second.toList ++ closing.toList) := by simp [hgap, hsecond, hclosing]
  rw [← String.toList_inj, hparts, hparts, List.append_cons_inj_of_notMem hbefore hafter,
    List.append_right_inj, List.append_right_inj, List.append_left_inj, String.toList_inj,
    String.toList_inj, and_iff_right rfl]

theorem describe_eq_iff {value value' error error' : String} (hvalue : ',' ∉ value.toList)
    (herror : ',' ∉ error.toList) :
    describe value error = describe value' error' ↔ value = value' ∧ error = error' :=
  append_separated_eq_iff (show ", error=".toList = ',' :: " error=".toList by decide) (by decide)
    hvalue (by decide) herror (by decide)

/-- Every outcome whose value is a double or an integer within the digit limit has a description, and two of
these are the same exactly if the errors are the same and the values are of one kind and agree bit for bit,
all kinds of not-a-number counting as one. -/
theorem described_alike_iff_same_error_and_bits {x y : Outcome} (hx : x.value.Showable)
    (hy : y.value.Showable) :
    ∃ s t, x.description = .ok s ∧ y.description = .ok t ∧
      (s = t ↔ x.error = y.error ∧ x.value.SameBits y.value) := by
  refine ⟨_, _, description_of_showable hx, description_of_showable hy, ?_⟩
  rw [describe_eq_iff (Number.comma_not_mem_spelled _) (comma_not_mem_errorText _),
    Number.sameBits_iff]
  constructor
  · rintro ⟨hvalue, herror⟩
    exact ⟨errorText_injective herror, Number.eq_of_spelled_eq hx hy hvalue⟩
  · rintro ⟨herror, hvalue⟩
    rw [herror, hvalue]
    exact ⟨rfl, rfl⟩

/-- The two zeros of doubles are told apart, and so are a zero and the integer; two words of not-a-number
are not. -/
theorem zeros_described_apart_and_nan_alike :
    (∃ s t, (success (.double (.zero false))).description = .ok s ∧
      (success (.double (.zero true))).description = .ok t ∧ s ≠ t) ∧
    (∃ s t, (success (.int 0)).description = .ok s ∧
      (success (.double (.zero false))).description = .ok t ∧ s ≠ t) ∧
    ∃ s t, (success (.double (.ofBits 0x7ff8000000000000))).description = .ok s ∧
      (success (.double (.ofBits 0xfff0000000000001))).description = .ok t ∧ s = t := by
  refine ⟨?_, ?_, ?_⟩
  · obtain ⟨s, t, hs, ht, hiff⟩ := described_alike_iff_same_error_and_bits
      (x := success (.double (.zero false))) (y := success (.double (.zero true))) trivial trivial
    refine ⟨s, t, hs, ht, fun h => ?_⟩
    exact absurd ((Number.sameBits_iff _ _).mp (hiff.mp h).2) (by decide)
  · obtain ⟨s, t, hs, ht, hiff⟩ := described_alike_iff_same_error_and_bits
      (x := success (.int 0)) (y := success (.double (.zero false))) (tenPow_pos _) trivial
    exact ⟨s, t, hs, ht, fun h => (hiff.mp h).2⟩
  · obtain ⟨s, t, hs, ht, hiff⟩ := described_alike_iff_same_error_and_bits
      (x := success (.double (.ofBits 0x7ff8000000000000)))
      (y := success (.double (.ofBits 0xfff0000000000001))) trivial trivial
    exact ⟨s, t, hs, ht, hiff.mpr ⟨rfl, .inl ⟨by decide, by decide⟩⟩⟩

end Outcome
end Reckoner
