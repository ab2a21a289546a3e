import Reckoner.Style
import Reckoner.Proofs.Decimal.Numeral
import Reckoner.Proofs.Double.Finite

/-!
# Texts with a fixed number of places

`IsText` says what the text of a number with a given number of places is, without saying how to
compute it: a minus or nothing, digits without superfluous zeros, a point, that many digits, and no
other decimal with that many places is nearer to the number; of two equally near ones the text shows
the one whose last digit is even.  A number has one such text, and a finite double is shown as the one
of its magnitude, with the sign of its encoding.

Infinities and not-a-number are not covered; they have no places.
-/

namespace Reckoner
namespace Fixed

/-! ### The nearest number of steps -/

/-- No whole number of steps of the last place is nearer to `q` than `n`, and `n` is even if another
one is as near. -/
structure IsNearestSteps (places : ℕ) (q : ℚ) (n : ℕ) : Prop where
  nearest : ∀ k : ℤ, |q - n / 10 ^ places| ≤ |q - k / 10 ^ places|
  even_of_tie : ∀ k : ℤ, k ≠ n → |q - k / 10 ^ places| = |q - n / 10 ^ places| → Even n

theorem isNearestSteps_steps (places units : ℕ) :
    IsNearestSteps places (units / Double.unitsPerOne) (steps places units) := by
  have hscale : (0 : ℚ) < 10 ^ places := by positivity
  have hdistance (z : ℚ) : |(units / Double.unitsPerOne : ℚ) - z / 10 ^ places| =
      |((units * tenPow places : ℕ) : ℚ) / Double.unitsPerOne - z| / 10 ^ places := by
    rw [← abs_of_pos hscale, ← abs_div, abs_of_pos hscale, sub_div, tenPow_eq, Nat.cast_mul,
      Nat.cast_pow, Nat.cast_ofNat, mul_div_right_comm, mul_div_cancel_right₀ _ hscale.ne']
  have herror := abs_div_sub_roundDiv_le (units * tenPow places) Double.zero_lt_unitsPerOne
  rw [← Int.cast_natCast (roundDiv _ _)] at herror
  constructor
  · intro k
    rw [hdistance, hdistance, ← Int.cast_natCast (steps _ _)]
    by_cases hk : k = (steps places units : ℤ)
    · rw [hk]
    · exact div_le_div_of_nonneg_right (nearest_of_abs_sub_le_half herror hk).1 hscale.le
  · intro k hk htie
    rw [hdistance, hdistance, div_left_inj' hscale.ne', ← Int.cast_natCast (steps _ _)] at htie
    exact even_roundDiv_of_half Double.zero_lt_unitsPerOne
      ((nearest_of_abs_sub_le_half herror hk).2 htie)

/-- Of two nearest numbers of steps neither is larger: both would be even, and a number between them
would be nearer. -/
theorem IsNearestSteps.le {places m n : ℕ} {q : ℚ} (hm : IsNearestSteps places q m)
    (hn : IsNearestSteps places q n) : n ≤ m := by
  by_contra hlt
  rw [not_le] at hlt
  have htie : |q - n / 10 ^ places| = |q - m / 10 ^ places| :=
    le_antisymm (hn.nearest m) (hm.nearest n)
  obtain ⟨i, rfl⟩ := hm.even_of_tie n (by omega) htie
  obtain ⟨j, rfl⟩ := hn.even_of_tie ((i + i : ℕ) : ℤ) (by omega) htie.symm
  have hscale : (0 : ℚ) < 10 ^ places := by positivity
  have hmiddle : ((i + i : ℕ) / 10 ^ places : ℚ) < ((i + j : ℕ) : ℤ) / 10 ^ places ∧
      (((i + j : ℕ) : ℤ) / 10 ^ places : ℚ) < (j + j : ℕ) / 10 ^ places := by
    rw [div_lt_div_iff_of_pos_right hscale, div_lt_div_iff_of_pos_right hscale]
    exact_mod_cast (by omega : i + i < i + j ∧ i + j < j + j)
  exact absurd (hm.nearest ((i + j : ℕ) : ℤ))
    (not_le.mpr (Double.abs_sub_lt_of_tie htie hmiddle.1 hmiddle.2))

theorem IsNearestSteps.unique {places m n : ℕ} {q : ℚ} (hm : IsNearestSteps places q m)
    (hn : IsNearestSteps places q n) : m = n :=
  le_antisymm (hn.le hm) (hm.le hn)

/-! ### Digits around a point -/

/-- The number that digits before and after a point denote. -/
def decimal (whole fraction : List Char) : ℚ :=
  Numeral.value whole + Numeral.value fraction / 10 ^ fraction.length

theorem decimal_eq (whole fraction : List Char) :
    decimal whole fraction = Numeral.value (whole ++ fraction) / 10 ^ fraction.length := by
  rw [decimal, Numeral.value_append, Nat.cast_add, Nat.cast_mul, Nat.cast_pow, Nat.cast_ofNat,
    add_div, mul_div_cancel_right₀ _ (by positivity)]

/-- The last digit is even. -/
def EndsEven (ds : List Char) : Prop := ∃ c ∈ ds.getLast?, Even (Numeral.value [c])

theorem endsEven_iff (whole : List Char) {fraction : List Char} (hne : fraction ≠ []) :
    EndsEven fraction ↔ Even (Numeral.value (whole ++ fraction)) := by
  obtain ⟨front, c, rfl⟩ := (List.eq_nil_or_concat fraction).resolve_left hne
  have hten : Even 10 := by decide
  simp [EndsEven, ← List.append_assoc, Numeral.value_append _ [c], Nat.even_add, hten]

/-- A text with the given number of places for a number of magnitude `q`. -/
structure IsText (places : ℕ) (negative : Bool) (q : ℚ) (text : String)
    (whole fraction : List Char) : Prop where
  toList_eq : text.toList = (if negative then ['-'] else []) ++ whole ++ '.' :: fraction
  isWhole : Numeral.isWhole whole = true
  isDigit : ∀ c ∈ fraction, c.isDigit = true
  length_eq : fraction.length = places
  nearest : ∀ k : ℤ, |q - decimal whole fraction| ≤ |q - k / 10 ^ places|
  endsEven_of_tie : ∀ k : ℤ, (k / 10 ^ places : ℚ) ≠ decimal whole fraction →
    |q - k / 10 ^ places| = |q - decimal whole fraction| → EndsEven fraction

section Texts

variable {places : ℕ} (hplaces : 0 < places) {negative : Bool} {q : ℚ}

include hplaces

/-- A number of steps is written as digits around a point that denote it. -/
theorem exists_ofSteps_eq (n : ℕ) :
    ∃ whole fraction, ofSteps places n = whole ++ '.' :: fraction ∧ Numeral.isWhole whole = true ∧
      (∀ c ∈ fraction, c.isDigit = true) ∧ fraction.length = places ∧
      Numeral.value (whole ++ fraction) = n := by
  have hmod : n % tenPow places < 10 ^ places := Nat.mod_lt n (tenPow_pos places)
  have hlength := Numeral.length_padLeft ((Numeral.length_digits_le_iff hplaces).mpr hmod)
  refine ⟨_, _, rfl, Numeral.isWhole_digits _, fun c hc => Numeral.isDigit_of_mem_padLeft hc,
    hlength, ?_⟩
  rw [Numeral.value_append, hlength, Layout.padLeft, Numeral.value_replicate_append,
    Numeral.value_digits, Numeral.value_digits]
  exact Nat.div_add_mod' n (tenPow places)

theorem isText_ofSteps {n : ℕ} (h : IsNearestSteps places q n) :
    ∃ whole fraction, IsText places negative q
      (Numeral.sign negative ++ String.ofList (ofSteps places n)) whole fraction := by
  obtain ⟨whole, fraction, htext, hwhole, hdigit, hlength, hvalue⟩ := exists_ofSteps_eq hplaces n
  have hne : fraction ≠ [] := by
    rw [← List.length_pos_iff, hlength]
    exact hplaces
  have hdecimal : decimal whole fraction = n / 10 ^ places := by rw [decimal_eq, hvalue, hlength]
  refine ⟨whole, fraction, ?_, hwhole, hdigit, hlength, ?_, ?_⟩
  · cases negative <;> simp [Numeral.sign, htext]
  · rw [hdecimal]
    exact h.nearest
  · intro k hk htie
    rw [hdecimal] at hk htie
    rw [endsEven_iff whole hne, hvalue]
    refine h.even_of_tie k ?_ htie
    rintro rfl
    exact hk (by rw [Int.cast_natCast])

variable {text : String} {whole fraction : List Char}

theorem IsText.isNearestSteps (h : IsText places negative q text whole fraction) :
    IsNearestSteps places q (Numeral.value (whole ++ fraction)) := by
  have hne : fraction ≠ [] := by
    rw [← List.length_pos_iff, h.length_eq]
    exact hplaces
  have hdecimal := decimal_eq whole fraction
  rw [h.length_eq] at hdecimal
  constructor
  · intro k
    rw [← hdecimal]
    exact h.nearest k
  · intro k hk htie
    rw [← hdecimal] at htie
    rw [← endsEven_iff whole hne]
    refine h.endsEven_of_tie k ?_ htie
    rw [hdecimal, ne_eq, div_left_inj' (by positivity), ← Int.cast_natCast, Int.cast_inj]
    exact hk

/-- A text is determined by the number of steps that its digits denote. -/
theorem IsText.eq_ofSteps (h : IsText places negative q text whole fraction) :
    text = Numeral.sign negative ++
      String.ofList (ofSteps places (Numeral.value (whole ++ fraction))) := by
  obtain ⟨htext, hwhole, hdigit, rfl, -, -⟩ := h
  have hlt := Numeral.value_lt hdigit
  have hsteps : ofSteps fraction.length (Numeral.value (whole ++ fraction)) =
      whole ++ '.' :: fraction := by
    rw [ofSteps, tenPow_eq, Numeral.value_append, Nat.mul_add_mod_of_lt hlt, Nat.add_comm,
      Nat.add_mul_div_right _ _ (by positivity), Nat.div_eq_of_lt hlt, Nat.zero_add,
      Numeral.digits_value hwhole,
      Numeral.padLeft_digits_value (List.length_pos_iff.mp hplaces) hdigit]
  rw [← String.toList_inj, htext, hsteps]
  cases negative <;> simp [Numeral.sign]

end Texts

section Doubles

variable {places : ℕ} (hplaces : 0 < places) {x : Double} (hx : x.isFinite = true)

include hplaces hx

theorem exists_isText :
    ∃ whole fraction, IsText places x.signBit |x.toRat| (text places x) whole fraction := by
  obtain ⟨negative, units, isMagnitude, rfl⟩ := Double.exists_of_isFinite hx
  rw [Double.signBit_finite, Double.toRat, Double.abs_signed_div]
  exact isText_ofSteps hplaces (isNearestSteps_steps places units)

theorem IsText.eq_text {t : String} {whole fraction : List Char}
    (h : IsText places x.signBit |x.toRat| t whole fraction) : t = text places x := by
  obtain ⟨negative, units, isMagnitude, rfl⟩ := Double.exists_of_isFinite hx
  rw [Double.signBit_finite, Double.toRat, Double.abs_signed_div] at h
  rw [h.eq_ofSteps hplaces,
    (h.isNearestSteps hplaces).unique (isNearestSteps_steps places units), text]

end Doubles

/-- A finite double has exactly one text with six places: the sign is the first bit of its encoding,
and the digits are those of a decimal with six places that is nearest to its magnitude, the one with
the even last digit in a tie. -/
theorem format_fixed_eq_iff {x : Double} (hx : x.isFinite = true) (text : String) :
    Style.fixed.format (.double x) = .ok text ↔
      ∃ whole fraction, IsText 6 x.signBit |x.toRat| text whole fraction := by
  constructor
  · intro h
    rw [← Except.ok.inj h]
    exact exists_isText (by decide) hx
  · rintro ⟨whole, fraction, h⟩
    rw [h.eq_text (by decide) hx]
    rfl

/-- The seventh place is a lone five, so the sixth stays even. -/
theorem format_fixed_of_tie :
    let x := Double.ofBits 0xbf80000000000000
    x.isFinite = true ∧ x.toRat = -0.0078125 ∧
      ∃ whole fraction, IsText 6 x.signBit |x.toRat| "-0.007812" whole fraction := by
  have hfinite : (Double.ofBits 0xbf80000000000000).isFinite = true := by decide +kernel
  refine ⟨hfinite, by decide +kernel, (format_fixed_eq_iff hfinite "-0.007812").mp ?_⟩
  decide +kernel

end Fixed
end Reckoner
