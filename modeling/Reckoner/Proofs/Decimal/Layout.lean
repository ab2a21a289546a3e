import Mathlib.Data.List.TakeWhile
import Reckoner.Decimal.Layout
import Reckoner.Decimal.Reading
import Reckoner.Proofs.Decimal.Shortest

/-!
# Texts of doubles and their parts

However the digits of a double are laid out, cutting the text into its parts gives digits without
superfluous zeros, and the parts denote the decimal that was laid out.  A positional text must not be
longer than a shown integer may be; no layout in use comes near that.
-/

namespace Reckoner
namespace Parts

/-- Decimal digits only. -/
def Digits (ds : List Char) : Prop := ∀ c ∈ ds, c.isDigit = true

/-- The characters of which numbers are made. -/
def IsNumberChar (c : Char) : Prop := c.isDigit = true ∨ c ∈ ['.', 'e', 'E', '+', '-']

/-- Begins with a digit and holds only the characters of numbers. -/
structure Numeric (text : List Char) : Prop where
  head_isDigit : ∃ c, text.head? = some c ∧ c.isDigit = true
  chars : ∀ c ∈ text, IsNumberChar c

/-- The parts of a number with a fraction or an exponent that every reader accepts, and the value
that they denote. -/
structure Denotes (parts : Parts) (q : ℚ) : Prop where
  isShort : Numeral.isShort parts.whole = true
  isDigits_fraction : (parts.fraction?.map Numeral.isDigits).getD true = true
  marked : parts.fraction? = none → parts.exponent? ≠ none
  value_eq : ∃ e, parts.exponent = some e ∧
    (scaled parts.whole (parts.fraction?.getD []) e).value = q

/-- The text of such a number. -/
structure IsNumber (text : List Char) (q : ℚ) : Prop where
  numeric : Numeric text
  denotes : (ofText text).Denotes q

/-! ### Cutting -/

theorem after?_append {p : Char → Bool} {s rest : List Char} {c : Char}
    (hs : ∀ d ∈ s, p d = false) (hc : p c = true) : after? p (s ++ c :: rest) = some rest := by
  rw [after?, List.dropWhile_append_of_pos (by simpa using hs),
    List.dropWhile_cons_of_neg (by simp [hc])]

theorem after?_eq_none {p : Char → Bool} {s : List Char} (hs : ∀ d ∈ s, p d = false) :
    after? p s = none := by
  rw [after?, List.dropWhile_eq_nil_iff.mpr (by simpa using hs)]

/-- Without an exponent mark the whole text is the mantissa. -/
theorem ofText_mantissa {m : List Char} (hm : ∀ c ∈ m, isExponentMark c = false) :
    ofText m = ⟨m.takeWhile (· != '.'), after? (· == '.') m, none⟩ := by
  have hall : m.takeWhile (!isExponentMark ·) = m :=
    List.takeWhile_eq_self_iff.mpr (by simpa using hm)
  rw [ofText, after?_eq_none hm, hall]

/-- What follows the first exponent mark is the exponent. -/
theorem ofText_mantissa_mark {m x : List Char} {mark : Char} (hmark : isExponentMark mark = true)
    (hm : ∀ c ∈ m, isExponentMark c = false) :
    ofText (m ++ mark :: x) = ⟨m.takeWhile (· != '.'), after? (· == '.') m, some x⟩ := by
  rw [ofText, after?_append hm hmark, List.takeWhile_append_of_pos (by simpa using hm),
    List.takeWhile_cons_of_neg (by simp [hmark]), List.append_nil]

theorem isExponentMark_of_isDigit {c : Char} (h : c.isDigit = true) : isExponentMark c = false := by
  rw [isExponentMark, Bool.or_eq_false_iff, beq_eq_false_iff_ne, beq_eq_false_iff_ne]
  constructor
  · rintro rfl
    exact absurd h (by decide)
  · rintro rfl
    exact absurd h (by decide)

theorem ne_point_of_isDigit {c : Char} (h : c.isDigit = true) : c ≠ '.' := by
  rintro rfl
  exact absurd h (by decide)

section OfText

variable {w f x : List Char} {mark : Char} (hmark : isExponentMark mark = true)

theorem takeWhile_point (hw : Digits w) : (w ++ '.' :: f).takeWhile (· != '.') = w := by
  rw [List.takeWhile_append_of_pos fun c hc => by simpa using ne_point_of_isDigit (hw c hc)]
  simp

theorem after?_point (hw : Digits w) : after? (· == '.') (w ++ '.' :: f) = some f :=
  after?_append (fun c hc => by simpa using ne_point_of_isDigit (hw c hc)) rfl

theorem isExponentMark_of_mem_mantissa (hw : Digits w) (hf : Digits f) :
    ∀ c ∈ w ++ '.' :: f, isExponentMark c = false := by
  intro c hc
  rcases List.mem_append.mp hc with hc | hc
  · exact isExponentMark_of_isDigit (hw c hc)
  · rcases List.mem_cons.mp hc with rfl | hc
    · rfl
    · exact isExponentMark_of_isDigit (hf c hc)

theorem ofText_point (hw : Digits w) (hf : Digits f) :
    ofText (w ++ '.' :: f) = ⟨w, some f, none⟩ := by
  rw [ofText_mantissa (isExponentMark_of_mem_mantissa hw hf), takeWhile_point hw, after?_point hw]

include hmark in
theorem ofText_point_mark (hw : Digits w) (hf : Digits f) :
    ofText (w ++ '.' :: f ++ mark :: x) = ⟨w, some f, some x⟩ := by
  rw [ofText_mantissa_mark hmark (isExponentMark_of_mem_mantissa hw hf), takeWhile_point hw,
    after?_point hw]

include hmark in
theorem ofText_mark (hw : Digits w) : ofText (w ++ mark :: x) = ⟨w, none, some x⟩ := by
  have hpoint : ∀ c ∈ w, (c == '.') = false := by
    intro c hc
    simpa using ne_point_of_isDigit (hw c hc)
  rw [ofText_mantissa_mark hmark fun c hc => isExponentMark_of_isDigit (hw c hc),
    after?_eq_none hpoint,
    List.takeWhile_eq_self_iff.mpr fun c hc => by simpa using ne_point_of_isDigit (hw c hc)]

theorem ofText_digits (hw : Digits w) : ofText w = ⟨w, none, none⟩ := by
  have hpoint : ∀ c ∈ w, (c == '.') = false := by
    intro c hc
    simpa using ne_point_of_isDigit (hw c hc)
  rw [ofText_mantissa fun c hc => isExponentMark_of_isDigit (hw c hc), after?_eq_none hpoint,
    List.takeWhile_eq_self_iff.mpr fun c hc => by simpa using ne_point_of_isDigit (hw c hc)]

end OfText

/-! ### Numbers by their parts -/

theorem digits_of_all {ds : List Char} (h : ds.all Char.isDigit = true) : Digits ds :=
  List.all_eq_true.mp h

theorem digits_replicate (k : Nat) : Digits (List.replicate k '0') := by
  intro c hc
  rw [List.eq_of_mem_replicate hc]
  rfl

theorem Digits.append {s t : List Char} (hs : Digits s) (ht : Digits t) : Digits (s ++ t) := by
  intro c hc
  rcases List.mem_append.mp hc with h | h
  · exact hs c h
  · exact ht c h

theorem isDigits_iff {ds : List Char} : Numeral.isDigits ds = true ↔ ds ≠ [] ∧ Digits ds := by
  simp [Numeral.isDigits, Digits]

theorem digits_of_isShort {ds : List Char} (h : Numeral.isShort ds = true) : Digits ds := by
  rw [Numeral.isShort, Bool.and_eq_true] at h
  exact (isDigits_iff.mp (Numeral.isDigits_of_isWhole h.1)).2

theorem numeric_of_digits {ds : List Char} (hne : ds ≠ []) (h : Digits ds) : Numeric ds := by
  obtain ⟨c, tail, rfl⟩ := List.exists_cons_of_ne_nil hne
  exact ⟨⟨c, rfl, h c List.mem_cons_self⟩, fun d hd => .inl (h d hd)⟩

theorem Numeric.append_cons {s t : List Char} {c : Char} (hs : Numeric s)
    (hc : c ∈ ['.', 'e', 'E', '+', '-']) (ht : ∀ d ∈ t, IsNumberChar d) : Numeric (s ++ c :: t) := by
  obtain ⟨first, hhead, hdigit⟩ := hs.head_isDigit
  refine ⟨⟨first, by rw [List.head?_append, hhead, Option.some_or], hdigit⟩, fun d hd => ?_⟩
  rcases List.mem_append.mp hd with hd | hd
  · exact hs.chars d hd
  · rcases List.mem_cons.mp hd with rfl | hd
    · exact .inr hc
    · exact ht d hd

theorem Numeric.isNumberChar_of_mem_sign_append {body : List Char} (h : Numeric body)
    (negative : Bool) {c : Char} (hc : c ∈ (Numeral.sign negative).toList ++ body) :
    IsNumberChar c := by
  rcases List.mem_append.mp hc with hc | hc
  · cases negative with
    | true =>
        obtain rfl : c = '-' := by simpa [Numeral.sign] using hc
        exact .inr (by decide)
    | false => cases hc
  · exact h.chars c hc

theorem numeric_of_isShort {w : List Char} (hw : Numeral.isShort w = true) : Numeric w := by
  refine numeric_of_digits ?_ (digits_of_isShort hw)
  rintro rfl
  exact absurd hw (by decide)

section IsNumber

variable {w f x : List Char} {q : ℚ} (hw : Numeral.isShort w = true)

include hw

theorem isNumber_point (hf : Digits f) (hne : f ≠ [])
    (hq : Numeral.value (w ++ f) * 10 ^ (-(f.length : ℤ)) = q) : IsNumber (w ++ '.' :: f) q := by
  refine ⟨(numeric_of_isShort hw).append_cons (by decide) fun c hc => .inl (hf c hc), ?_⟩
  rw [ofText_point (digits_of_isShort hw) hf]
  refine ⟨hw, isDigits_iff.mpr ⟨hne, hf⟩, nofun, 0, rfl, ?_⟩
  simpa [scaled, Scaled.value] using hq

theorem isNumber_point_mark (hf : Digits f) (hne : f ≠ []) (hchars : ∀ c ∈ x, IsNumberChar c)
    {e : Int} (hx : exponentOf? x = some e)
    (hq : Numeral.value (w ++ f) * 10 ^ (e - f.length) = q) :
    IsNumber (w ++ '.' :: f ++ 'e' :: x) q := by
  have hmantissa : Numeric (w ++ '.' :: f) :=
    (numeric_of_isShort hw).append_cons (by decide) fun c hc => .inl (hf c hc)
  refine ⟨hmantissa.append_cons (by decide) hchars, ?_⟩
  rw [ofText_point_mark rfl (digits_of_isShort hw) hf]
  exact ⟨hw, isDigits_iff.mpr ⟨hne, hf⟩, nofun, e, hx, hq⟩

theorem isNumber_mark (hchars : ∀ c ∈ x, IsNumberChar c) {e : Int} (hx : exponentOf? x = some e)
    (hq : Numeral.value w * 10 ^ e = q) : IsNumber (w ++ 'e' :: x) q := by
  refine ⟨(numeric_of_isShort hw).append_cons (by decide) hchars, ?_⟩
  rw [ofText_mark rfl (digits_of_isShort hw)]
  refine ⟨hw, rfl, nofun, e, hx, ?_⟩
  simpa [scaled, Scaled.value] using hq

end IsNumber

end Parts

namespace Layout

open Parts (Digits)

/-! ### Significant digits -/

/-- Digits that are not empty and do not begin with a zero. -/
structure Significant (ds : List Char) : Prop where
  ne_nil : ds ≠ []
  head_ne : ds.head? ≠ some '0'
  digits : Digits ds

theorem exists_eq_dropTrailingZeros_append (ds : List Char) :
    ∃ k, ds = dropTrailingZeros ds ++ List.replicate k '0' := by
  have hzeros : (ds.reverse.takeWhile (· == '0')) =
      List.replicate (ds.reverse.takeWhile (· == '0')).length '0' := by
    rw [List.eq_replicate_length]
    intro c hc
    simpa using List.mem_takeWhile_imp hc
  refine ⟨(ds.reverse.takeWhile (· == '0')).length, ?_⟩
  have hsplit := congrArg List.reverse
    (List.takeWhile_append_dropWhile (p := (· == '0')) (l := ds.reverse))
  rw [List.reverse_append, List.reverse_reverse, hzeros, List.reverse_replicate] at hsplit
  exact hsplit.symm

theorem significant_dropTrailingZeros {n : Nat} (h : n ≠ 0) :
    Significant (dropTrailingZeros (Numeral.digits n)) := by
  obtain ⟨k, hk⟩ := exists_eq_dropTrailingZeros_append (Numeral.digits n)
  have hhead := Numeral.head?_digits (Nat.pos_of_ne_zero h)
  have hne : dropTrailingZeros (Numeral.digits n) ≠ [] := by
    -- With nothing left the digits would be zeros only, and begin with one.
    intro hnil
    rw [hnil, List.nil_append] at hk
    cases k with
    | zero => exact Numeral.digits_ne_nil n hk
    | succ k => exact hhead (by rw [hk]; rfl)
  refine ⟨hne, ?_, ?_⟩
  · rw [hk, List.head?_append_of_ne_nil _ hne] at hhead
    exact hhead
  · intro c hc
    have hmem : c ∈ Numeral.digits n := by
      rw [hk]
      exact List.mem_append_left _ hc
    exact Numeral.isDigit_of_mem_digits hmem

/-- Zeros at the end of the digits count as powers of ten. -/
theorem value_dropTrailingZeros (d : Scaled) :
    (Numeral.value (dropTrailingZeros (Numeral.digits d.coefficient)) : ℚ) *
      10 ^ (d.point - (dropTrailingZeros (Numeral.digits d.coefficient)).length) = d.value := by
  obtain ⟨k, hk⟩ := exists_eq_dropTrailingZeros_append (Numeral.digits d.coefficient)
  have hvalue := congrArg Numeral.value hk
  rw [Numeral.value_digits, Numeral.value_append, Numeral.value_replicate_zero, Nat.add_zero,
    List.length_replicate] at hvalue
  have hlength := congrArg List.length hk
  rw [List.length_append, List.length_replicate] at hlength
  have hpoint : d.point - (dropTrailingZeros (Numeral.digits d.coefficient)).length =
      k + d.exponent := by
    rw [Scaled.point, hlength]
    push_cast
    ring
  rw [hpoint, zpow_add₀ (by norm_num), zpow_natCast, Scaled.value]
  conv_rhs => rw [hvalue]
  push_cast
  ring

/-! ### The three layouts -/

theorem isShort_of_significant {ds : List Char} (h : Significant ds)
    (hlength : ds.length ≤ Numeral.digitLimit) : Numeral.isShort ds = true := by
  rw [Numeral.isShort, Numeral.isWhole_of_head?_ne h.head_ne, Bool.and_eq_true, decide_eq_true_eq]
  exact ⟨Parts.isDigits_iff.mpr ⟨h.ne_nil, h.digits⟩, hlength⟩

theorem Significant.take {ds : List Char} (h : Significant ds) {k : Nat} (hk : 0 < k) :
    Significant (ds.take k) := by
  obtain ⟨j, rfl⟩ := Nat.exists_eq_succ_of_ne_zero hk.ne'
  obtain ⟨c, tail, rfl⟩ := List.exists_cons_of_ne_nil h.ne_nil
  rw [List.take_succ_cons]
  exact ⟨List.cons_ne_nil _ _, h.head_ne, fun d hd => h.digits d (by
    rcases List.mem_cons.mp hd with rfl | hd
    · exact List.mem_cons_self
    · exact List.mem_cons_of_mem _ (List.mem_of_mem_take hd))⟩

theorem Significant.append_replicate {ds : List Char} (h : Significant ds) (k : Nat) :
    Significant (ds ++ List.replicate k '0') := by
  refine ⟨by simp [h.ne_nil], ?_, h.digits.append (Parts.digits_replicate k)⟩
  rw [List.head?_append_of_ne_nil _ h.ne_nil]
  exact h.head_ne

/-- A number below one: zeros may stand between the point and the digits. -/
theorem isNumber_below_one {ds : List Char} (h : Significant ds) (k : Nat) :
    Parts.IsNumber (['0'] ++ '.' :: (List.replicate k '0' ++ ds))
      (Numeral.value ds * 10 ^ (-(k : ℤ) - ds.length)) := by
  refine Parts.isNumber_point rfl ((Parts.digits_replicate k).append h.digits)
    (by simp [h.ne_nil]) ?_
  have hvalue : Numeral.value (['0'] ++ (List.replicate k '0' ++ ds)) = Numeral.value ds := by
    rw [← List.append_assoc]
    -- The zero before the point is one more leading zero.
    exact Numeral.value_replicate_append (k + 1) ds
  rw [hvalue, List.length_append, List.length_replicate]
  congr 2
  push_cast
  ring

/-- The point stands among the digits. -/
theorem isNumber_inside {ds : List Char} (h : Significant ds) {k : Nat} (hpos : 0 < k)
    (hlt : k < ds.length) (hk : k ≤ Numeral.digitLimit) :
    Parts.IsNumber (ds.take k ++ '.' :: ds.drop k)
      (Numeral.value ds * 10 ^ ((k : ℤ) - ds.length)) := by
  have hlength : (ds.take k).length ≤ Numeral.digitLimit := by
    rw [List.length_take]
    omega
  have hdrop : ds.drop k ≠ [] := by
    rw [← List.length_pos_iff, List.length_drop]
    omega
  refine Parts.isNumber_point (isShort_of_significant (h.take hpos) hlength)
    (fun c hc => h.digits c (List.mem_of_mem_drop hc)) hdrop ?_
  rw [List.take_append_drop, List.length_drop]
  congr 2
  omega

/-- A whole number: zeros may stand between the digits and the point. -/
theorem isNumber_whole {ds : List Char} (h : Significant ds) {k : Nat} (hle : ds.length ≤ k)
    (hk : k ≤ Numeral.digitLimit) :
    Parts.IsNumber (ds ++ List.replicate (k - ds.length) '0' ++ '.' :: ['0'])
      (Numeral.value ds * 10 ^ ((k : ℤ) - ds.length)) := by
  obtain ⟨j, rfl⟩ := Nat.exists_eq_add_of_le hle
  rw [Nat.add_sub_cancel_left]
  have hlength : (ds ++ List.replicate j '0').length ≤ Numeral.digitLimit := by
    rw [List.length_append, List.length_replicate]
    exact hk
  refine Parts.isNumber_point (isShort_of_significant (h.append_replicate j) hlength)
    (Parts.digits_of_all rfl) (List.cons_ne_nil _ _) ?_
  have hvalue : Numeral.value (ds ++ List.replicate j '0' ++ ['0']) =
      Numeral.value ds * 10 ^ (j + 1) := by
    have happend : List.replicate j '0' ++ ['0'] = List.replicate (j + 1) '0' :=
      List.replicate_succ'.symm
    rw [List.append_assoc, happend, Numeral.value_append, Numeral.value_replicate_zero,
      List.length_replicate, Nat.add_zero]
  rw [hvalue]
  push_cast
  rw [add_sub_cancel_left, zpow_natCast, pow_succ]
  norm_num
  ring

theorem isNumber_positional {ds : List Char} (h : Significant ds) {point : Int}
    (hpoint : point ≤ Numeral.digitLimit) :
    Parts.IsNumber (positional ds point)
      (Numeral.value ds * 10 ^ (point - ds.length)) := by
  unfold positional
  split
  · rename_i hle
    obtain ⟨k, rfl⟩ := Int.exists_eq_neg_ofNat hle
    rw [neg_neg, Int.toNat_natCast]
    exact isNumber_below_one h k
  rename_i hpos
  obtain ⟨k, rfl⟩ := Int.eq_ofNat_of_zero_le (le_of_lt (not_le.mp hpos))
  rw [Int.toNat_natCast]
  split
  · rename_i hlt
    exact isNumber_inside h (by omega) hlt (by omega)
  · rename_i hle
    exact isNumber_whole h (not_lt.mp hle) (by omega)

theorem exponentOf?_exponentText (layout : Layout) (exponent : Int) :
    Parts.exponentOf? (layout.exponentText exponent) = some exponent := by
  have hsplit : Numeral.splitSign (layout.exponentText exponent) =
      (decide (exponent < 0),
        padLeft layout.exponentWidth (Numeral.digits exponent.natAbs)) := by
    unfold exponentText
    by_cases hneg : exponent < 0
    · simp [hneg, Numeral.splitSign, Numeral.splitMinus]
    · simp [hneg, Numeral.splitSign]
  have hpad : Numeral.isDigits (padLeft layout.exponentWidth (Numeral.digits exponent.natAbs)) =
      true := by
    refine Parts.isDigits_iff.mpr ⟨?_, fun c hc => Numeral.isDigit_of_mem_padLeft hc⟩
    simp [padLeft, Numeral.digits_ne_nil]
  rw [Parts.exponentOf?, hsplit]
  dsimp only
  rw [if_pos hpad, padLeft, Numeral.value_replicate_append, Numeral.value_digits, signed_natAbs]

theorem isNumberChar_of_mem_exponentText (layout : Layout) (exponent : Int) :
    ∀ c ∈ layout.exponentText exponent, Parts.IsNumberChar c := by
  intro c hc
  rcases List.mem_cons.mp hc with rfl | hc
  · right
    split
    · decide
    · decide
  · exact .inl (Numeral.isDigit_of_mem_padLeft hc)

theorem isNumber_withExponent (layout : Layout) {ds : List Char} (h : Significant ds)
    (exponent : Int) :
    Parts.IsNumber (layout.withExponent ds exponent)
      (Numeral.value ds * 10 ^ (exponent + 1 - ds.length)) := by
  have hexponent := exponentOf?_exponentText layout exponent
  have hchars := isNumberChar_of_mem_exponentText layout exponent
  match ds, h with
  | [], h => exact absurd rfl h.ne_nil
  | [d], h =>
      refine Parts.isNumber_mark (isShort_of_significant h (by simp [Numeral.digitLimit])) hchars
        hexponent ?_
      simp
  | d :: e :: rest, h =>
      -- Only here does a point follow the first digit.
      have hhead : Significant [d] := h.take Nat.one_pos
      refine Parts.isNumber_point_mark (w := [d])
        (isShort_of_significant hhead (by simp [Numeral.digitLimit]))
        (fun c hc => h.digits c (List.mem_cons_of_mem _ hc)) (List.cons_ne_nil _ _) hchars
        hexponent ?_
      congr 2
      simp only [List.length_cons]
      push_cast
      ring

/-- The parts of a written magnitude denote the decimal with the fewest digits. -/
theorem isNumber_magnitude {layout : Layout} (hlayout : layout.positionalBelow ≤ Numeral.digitLimit)
    {units : Nat} (h : Double.IsShort units) (hunits : units ≠ 0) :
    Parts.IsNumber (layout.magnitude units) (Shortest.decimal units).value := by
  have hcoefficient := Shortest.coefficient_decimal_ne_zero h hunits
  have hsignificant := significant_dropTrailingZeros hcoefficient
  rw [← value_dropTrailingZeros]
  unfold magnitude
  dsimp only
  split
  · rename_i hpositional
    exact isNumber_positional hsignificant (by omega)
  · have hnumber := isNumber_withExponent layout hsignificant ((Shortest.decimal units).point - 1)
    rwa [sub_add_cancel] at hnumber

/-! ### Doubles -/

/-- The text of a magnitude, zero included. -/
def body (layout : Layout) (units : Nat) : List Char :=
  if units = 0 then ['0', '.', '0'] else layout.magnitude units

theorem toList_text_finite (layout : Layout) (negative : Bool) {units : Nat}
    (h : Double.IsMagnitude units) :
    (layout.text (.finite negative units h)).toList =
      (Numeral.sign negative).toList ++ layout.body units := by
  rw [text, body, String.toList_append]
  split
  · rfl
  · rw [String.toList_ofList]

/-- Whatever has the value of the text of a finite double is read as that double. -/
theorem exists_isNumber_body {layout : Layout}
    (hlayout : layout.positionalBelow ≤ Numeral.digitLimit) {units : Nat}
    (h : Double.IsMagnitude units) :
    ∃ q, Parts.IsNumber (layout.body units) q ∧
      ∀ (negative : Bool) (d : Scaled), d.value = q →
        d.toDouble negative = .finite negative units h := by
  by_cases hunits : units = 0
  · subst hunits
    refine ⟨0, ?_, fun negative d hd => ?_⟩
    · exact Parts.isNumber_point (w := ['0']) (f := ['0']) rfl (Parts.digits_of_all rfl)
        (List.cons_ne_nil _ _) (by simp; rfl)
    · have hzero : (⟨0, 0⟩ : Scaled).value = 0 := by simp [Scaled.value]
      rw [Scaled.toDouble_congr negative (hd.trans hzero.symm)]
      rfl
  · refine ⟨(Shortest.decimal units).value, ?_, fun negative d hd => ?_⟩
    · rw [body, if_neg hunits]
      exact isNumber_magnitude hlayout h.short hunits
    · rw [Scaled.toDouble_congr negative hd, Shortest.toDouble_decimal]

end Layout
end Reckoner
