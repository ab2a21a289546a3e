import Mathlib.Algebra.Order.Ring.Nat
import Mathlib.Tactic.Ring
import Reckoner.Decimal.Layout
import Reckoner.Decimal.Reading
import Reckoner.Proofs.Double.Value
import Reckoner.Proofs.Text.ControlSequence

/-!
# Digits and their values

The digits of a number are decimal digits, begin with a zero only if the number is zero, and are as
many as its size says.  Values of digit lists add up as place values do, and digits are determined by
their number and their value.  A shown integer is read back strictly.
-/

namespace Reckoner
namespace Numeral

theorem isDigit_of_mem_digits {n : Nat} {c : Char} (h : c ∈ digits n) : c.isDigit = true :=
  Nat.isDigit_of_mem_toDigits (by decide) (by decide) h

theorem isDigit_of_mem_padLeft {width n : Nat} {c : Char}
    (h : c ∈ Layout.padLeft width (digits n)) : c.isDigit = true := by
  rcases List.mem_append.mp h with hzero | hdigit
  · rw [List.eq_of_mem_replicate hzero]
    rfl
  · exact isDigit_of_mem_digits hdigit

theorem digits_ne_nil (n : Nat) : digits n ≠ [] := Nat.toDigits_ne_nil

theorem length_digits_le_iff {n k : Nat} (hk : 0 < k) : (digits n).length ≤ k ↔ n < 10 ^ k :=
  Nat.length_toDigits_le_iff (by decide) hk

theorem isDigits_digits (n : Nat) : isDigits (digits n) = true := by
  simp only [isDigits, Bool.and_eq_true, Bool.not_eq_true', List.isEmpty_eq_false_iff,
    List.all_eq_true]
  exact ⟨digits_ne_nil n, fun c hc => isDigit_of_mem_digits hc⟩

/-- A positive number does not begin with a zero. -/
theorem head?_digits {n : Nat} (hn : 0 < n) : (digits n).head? ≠ some '0' := by
  induction n using Nat.strong_induction_on with
  | _ n ih =>
      rcases Nat.lt_or_ge n 10 with hlt | hge
      · rw [digits, Nat.toDigits_of_lt_base hlt, List.head?_cons]
        intro h
        have := congrArg Char.toNat (Option.some.inj h)
        rw [Nat.toNat_digitChar_of_lt_ten hlt] at this
        simp at this
        omega
      · rw [digits, Nat.toDigits_of_base_le (by decide) hge,
          List.head?_append_of_ne_nil _ Nat.toDigits_ne_nil]
        exact ih (n / 10) (by omega) (by omega)

theorem isWhole_of_head?_ne {ds : List Char} (h : ds.head? ≠ some '0') :
    isWhole ds = isDigits ds := by
  unfold isWhole
  split
  · exact absurd rfl h
  · exact absurd rfl h
  · rfl

theorem isWhole_digits (n : Nat) : isWhole (digits n) = true := by
  rcases Nat.eq_zero_or_pos n with rfl | hn
  · rfl
  · rw [isWhole_of_head?_ne (head?_digits hn)]
    exact isDigits_digits n

theorem isShort_digits {n : Nat} (h : n < tenPow digitLimit) : isShort (digits n) = true := by
  rw [isShort, isWhole_digits, Bool.true_and, decide_eq_true_eq,
    length_digits_le_iff (by decide), ← tenPow_eq]
  exact h

theorem value_append (s t : List Char) : value (s ++ t) = value s * 10 ^ t.length + value t := by
  rw [value, Nat.ofDigitChars_append, Nat.ofDigitChars_eq_ofDigitChars_zero, Nat.mul_comm]
  rfl

@[simp] theorem value_replicate_zero (k : Nat) : value (List.replicate k '0') = 0 := by
  simp [value]

theorem value_replicate_append (k : Nat) (ds : List Char) :
    value (List.replicate k '0' ++ ds) = value ds := by
  rw [value_append, value_replicate_zero, Nat.zero_mul, Nat.zero_add]

/-- A decimal digit is determined by its value. -/
theorem toNat_of_isDigit {c : Char} (h : c.isDigit = true) :
    c.toNat = 48 + value [c] ∧ value [c] < 10 := by
  simp only [Char.isDigit, ge_iff_le, Bool.and_eq_true, decide_eq_true_eq] at h
  have hzero : 48 ≤ c.toNat := h.1
  have hnine : c.toNat ≤ 57 := h.2
  have hvalue : value [c] = 10 * 0 + (c.toNat - 48) := rfl
  omega

/-- A test that gives one answer for the ten digits gives it for every character that counts as one. -/
theorem of_isDigit {p : Char → Bool} {b : Bool} {c : Char} (h : c.isDigit = true)
    (hall : (['0', '1', '2', '3', '4', '5', '6', '7', '8', '9'].all fun d => p d == b) = true) :
    p c = b := by
  have hmem : ∀ v, v < 10 →
      Char.ofNat (48 + v) ∈ ['0', '1', '2', '3', '4', '5', '6', '7', '8', '9'] := by decide
  obtain ⟨hc, hlt⟩ := toNat_of_isDigit h
  have hp := List.all_eq_true.mp hall _ (hmem _ hlt)
  rwa [← hc, Char.ofNat_toNat, beq_iff_eq] at hp

theorem ne_of_isDigit {c d : Char} (hc : c.isDigit = true) (hd : d.isDigit = false) : c ≠ d := by
  rintro rfl
  rw [hc] at hd
  cases hd

theorem value_cons (c : Char) (ds : List Char) :
    value (c :: ds) = value [c] * 10 ^ ds.length + value ds := value_append [c] ds

theorem value_lt {ds : List Char} (h : ∀ c ∈ ds, c.isDigit = true) :
    value ds < 10 ^ ds.length := by
  induction ds with
  | nil => exact Nat.one_pos
  | cons c ds ih =>
      have hdigit := (toNat_of_isDigit (h c List.mem_cons_self)).2
      have hrest := ih fun d hd => h d (List.mem_cons_of_mem c hd)
      calc value (c :: ds) = value [c] * 10 ^ ds.length + value ds := value_cons c ds
        _ < (value [c] + 1) * 10 ^ ds.length := by rw [Nat.add_mul, Nat.one_mul]; omega
        _ ≤ 10 * 10 ^ ds.length := Nat.mul_le_mul_right _ hdigit
        _ = 10 ^ (c :: ds).length := by rw [List.length_cons, pow_succ, Nat.mul_comm]

/-- Equally many digits with the same value are the same digits. -/
theorem eq_of_value_eq {s t : List Char} (hs : ∀ c ∈ s, c.isDigit = true)
    (ht : ∀ c ∈ t, c.isDigit = true) (hlength : s.length = t.length) (h : value s = value t) :
    s = t := by
  induction s generalizing t with
  | nil => exact (List.length_eq_zero_iff.mp hlength.symm).symm
  | cons c s ih =>
      cases t with
      | nil => cases hlength
      | cons d t =>
          have hlength : s.length = t.length := by simpa using hlength
          have hsrest := fun e he => hs e (List.mem_cons_of_mem c he)
          have htrest := fun e he => ht e (List.mem_cons_of_mem d he)
          -- The first digit is the quotient by the place of the others, which are the remainder.
          rw [value_cons c, value_cons d, hlength] at h
          have hslt : value s < 10 ^ t.length := hlength ▸ value_lt hsrest
          have hrest : value s = value t := by
            rw [← Nat.mul_add_mod_of_lt hslt, h, Nat.mul_add_mod_of_lt (value_lt htrest)]
          have hfirst : value [c] = value [d] := by
            rw [hrest] at h
            exact Nat.eq_of_mul_eq_mul_right (by positivity) (Nat.add_right_cancel h)
          have hc := (toNat_of_isDigit (hs c List.mem_cons_self)).1
          have hd := (toNat_of_isDigit (ht d List.mem_cons_self)).1
          rw [ih hsrest htrest hlength hrest, Char.toNat_inj.mp (by omega : c.toNat = d.toNat)]

theorem length_padLeft {width : Nat} {ds : List Char} (h : ds.length ≤ width) :
    (Layout.padLeft width ds).length = width := by
  rw [Layout.padLeft, List.length_append, List.length_replicate, Nat.sub_add_cancel h]

/-- Digits are the digits of their value, after the zeros that they begin with. -/
theorem padLeft_digits_value {ds : List Char} (hne : ds ≠ []) (h : ∀ c ∈ ds, c.isDigit = true) :
    Layout.padLeft ds.length (digits (value ds)) = ds := by
  have hlength := (length_digits_le_iff (List.length_pos_iff.mpr hne)).mpr (value_lt h)
  refine eq_of_value_eq (fun c hc => isDigit_of_mem_padLeft hc) h (length_padLeft hlength) ?_
  rw [Layout.padLeft, value_replicate_append, value_digits]

theorem isDigits_of_isWhole {ds : List Char} (h : isWhole ds = true) : isDigits ds = true := by
  unfold isWhole at h
  split at h
  · rfl
  · cases h
  · exact h

/-- Digits without superfluous zeros are the digits of their value. -/
theorem digits_value {ds : List Char} (h : isWhole ds = true) : digits (value ds) = ds := by
  obtain ⟨hne, hdigits⟩ : ds ≠ [] ∧ ∀ c ∈ ds, c.isDigit = true := by
    simpa [isDigits] using isDigits_of_isWhole h
  have hpad := padLeft_digits_value hne hdigits
  rw [Layout.padLeft] at hpad
  cases hzeros : ds.length - (digits (value ds)).length with
  | zero => rwa [hzeros] at hpad
  | succ k =>
      -- A zero in front of other digits would be superfluous.
      rw [hzeros, List.replicate_succ, List.cons_append] at hpad
      rw [← hpad] at h
      unfold isWhole at h
      split at h
      · rename_i heq
        simp [digits_ne_nil] at heq
      · cases h
      · rename_i hhead
        exact absurd rfl (hhead _)

theorem toList_ofInt (n : Int) :
    (ofInt n).toList = (sign (decide (n < 0))).toList ++ digits n.natAbs := by
  simp [ofInt]

/-- The decimal text of an integer: a minus for the negative, and digits without superfluous zeros that
denote its absolute value. -/
structure IsText (n : Int) (text : String) (ds : List Char) : Prop where
  toList_eq : text.toList = (if n < 0 then ['-'] else []) ++ ds
  isWhole : Numeral.isWhole ds = true
  value_eq : value ds = n.natAbs

theorem isText_ofInt (n : Int) : IsText n (ofInt n) (digits n.natAbs) := by
  refine ⟨?_, isWhole_digits _, value_digits _⟩
  rw [toList_ofInt]
  by_cases h : n < 0 <;> simp [sign, h]

/-- An integer has one decimal text. -/
theorem IsText.eq_ofInt {n : Int} {text : String} {ds : List Char} (h : IsText n text ds) :
    text = ofInt n := by
  have hdigits : digits n.natAbs = ds := by rw [← h.value_eq, digits_value h.isWhole]
  rw [← String.toList_inj, h.toList_eq, (isText_ofInt n).toList_eq, hdigits]

theorem exists_head?_ofInt (n : Int) : ∃ c, (ofInt n).toList.head? = some c := by
  rw [← Option.isSome_iff_exists, List.isSome_head?, toList_ofInt]
  simp [digits_ne_nil]

theorem fits_of_lt_pow {n : Int} {k : Nat} (hk : k ≤ digitLimit) (h : n.natAbs < 10 ^ k) :
    Fits n := by
  refine lt_of_lt_of_le h ?_
  rw [tenPow_eq]
  exact Nat.pow_le_pow_right (by decide) hk

theorem fits_of_lt {n : Int} (h : n.natAbs < 10 ^ 4) : Fits n := fits_of_lt_pow (by decide) h

theorem splitMinus_sign_append {body : List Char}
    (h : ∃ c, body.head? = some c ∧ c.isDigit = true) (negative : Bool) :
    splitMinus ((sign negative).toList ++ body) = (negative, body) := by
  cases negative with
  | true => rfl
  | false =>
      obtain ⟨c, hhead, hdigit⟩ := h
      obtain ⟨tail, rfl⟩ := List.head?_eq_some_iff.mp hhead
      have hc : c ≠ '-' := ne_of_isDigit hdigit rfl
      change splitMinus (c :: tail) = _
      unfold splitMinus
      split
      · rename_i heq
        exact absurd (List.cons.inj heq).1 hc
      · rfl

/-- Strict reading gives a shown integer back. -/
theorem strict?_ofInt {n : Int} (h : Fits n) : strict? (ofInt n).toList = some n := by
  have hhead : ∃ c, (digits n.natAbs).head? = some c ∧ c.isDigit = true := by
    obtain ⟨c, tail, hdigits⟩ := List.exists_cons_of_ne_nil (digits_ne_nil n.natAbs)
    exact ⟨c, by rw [hdigits, List.head?_cons], isDigit_of_mem_digits (hdigits ▸ List.mem_cons_self)⟩
  rw [strict?, toInt, toList_ofInt, splitMinus_sign_append hhead, if_pos (isShort_digits h)]
  simp only [value_digits, signed_natAbs]

theorem eq_ofInt_of_show?_eq_ok {n : Int} {text : String} (h : show? n = .ok text) :
    text = ofInt n := by
  unfold show? at h
  split at h
  · exact (Except.ok.inj h).symm
  · cases h

theorem eq_minus_or_isDigit_of_mem_ofInt {n : Int} {c : Char} (h : c ∈ (ofInt n).toList) :
    c = '-' ∨ c.isDigit = true := by
  rw [toList_ofInt] at h
  rcases List.mem_append.mp h with hsign | hdigit
  · generalize decide (n < 0) = negative at hsign
    cases negative with
    | false => cases hsign
    | true => exact .inl (List.mem_singleton.mp hsign)
  · exact .inr (isDigit_of_mem_digits hdigit)

/-! ### Numbers and control sequences -/

open ControlSequence (Inert isFinal)

theorem isFinal_of_isDigit {c : Char} (h : c.isDigit = true) : isFinal c = false :=
  of_isDigit h (by decide)

theorem inert_of_isDigit {ds : List Char} (h : ∀ c ∈ ds, c.isDigit = true) : Inert ds := by
  intro c hc
  refine ⟨?_, isFinal_of_isDigit (h c hc)⟩
  rintro rfl
  exact absurd (h _ hc) (by decide)

theorem inert_sign (negative : Bool) : Inert (sign negative).toList := by
  cases negative
  · intro c hc
    cases hc
  · intro c hc
    obtain rfl : c = '-' := by simpa [sign] using hc
    exact ⟨by decide, by decide⟩

theorem inert_ofInt (n : Int) : Inert (ofInt n).toList := by
  rw [toList_ofInt]
  exact (inert_sign _).append (inert_of_isDigit fun c hc => isDigit_of_mem_digits hc)

end Numeral

namespace Fixed

open ControlSequence (Inert)

theorem inert_ofSteps (places n : Nat) : Inert (ofSteps places n) := by
  unfold ofSteps
  refine (Numeral.inert_of_isDigit fun c hc => Numeral.isDigit_of_mem_digits hc).append ?_
  intro c hc
  rcases List.mem_cons.mp hc with rfl | hc
  · exact ⟨by decide, by decide⟩
  · exact Numeral.inert_of_isDigit (fun d hd => Numeral.isDigit_of_mem_padLeft hd) c hc

/-- The text of a finite double with a fixed number of places holds digits, a point and a sign. -/
theorem inert_text (places : Nat) {x : Double} (h : x.isFinite = true) :
    Inert (text places x).toList := by
  obtain ⟨negative, units, hunits, rfl⟩ := Double.exists_of_isFinite h
  rw [text, String.toList_append, String.toList_ofList]
  exact (Numeral.inert_sign negative).append (inert_ofSteps places _)

end Fixed
end Reckoner
