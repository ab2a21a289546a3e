import Reckoner.Proofs.Double.Finite

/-!
# Words and the doubles that they encode

Apart from not-a-number, every double has exactly one word: `ofBits` and `toBits` undo each other.  A
word whose exponent is not the last one is a sign with two fields, and the fields can be recovered from
the number of units that they stand for.

The words of not-a-number are many.  They decode to one double, which no longer knows its word.
-/

namespace Reckoner
namespace Double

/-! ### Fields and units -/

/-- The number of least units that an exponent and a fraction stand for. -/
def fieldUnits (exponent fraction : Nat) : Nat :=
  if exponent = 0 then fraction else (2 ^ 52 + fraction) * 2 ^ (exponent - 1)

theorem isMagnitude_fieldUnits {exponent fraction : Nat} (hexponent : exponent < 2047)
    (hfraction : fraction < 2 ^ 52) : IsMagnitude (fieldUnits exponent fraction) := by
  unfold fieldUnits
  split
  · exact isMagnitude_fraction hfraction
  · exact isMagnitude_normal hfraction hexponent

/-- A fraction with its hidden bit has 53 bits, and a shift adds to them. -/
theorem log2_hidden {fraction : Nat} (h : fraction < 2 ^ 52) (shift : Nat) :
    Nat.log2 ((2 ^ 52 + fraction) * 2 ^ shift) = 52 + shift := by
  have hpos : 0 < 2 ^ shift := Nat.two_pow_pos shift
  have hne : (2 ^ 52 + fraction) * 2 ^ shift ≠ 0 := (Nat.mul_pos (by omega) hpos).ne'
  rw [Nat.log2_eq_iff hne, pow_add, show 52 + shift + 1 = 53 + shift by omega, pow_add]
  exact ⟨Nat.mul_le_mul_right _ (by omega), Nat.mul_lt_mul_of_pos_right (by omega) hpos⟩

/-- Encoding the units of two fields gives the fields back. -/
theorem magnitudeBits_fieldUnits {fraction : Nat} (h : fraction < 2 ^ 52) (exponent : Nat) :
    magnitudeBits (fieldUnits exponent fraction) = exponent * 2 ^ 52 + fraction := by
  cases exponent with
  | zero =>
      rw [fieldUnits, if_pos rfl, magnitudeBits, twoPow_eq, if_pos h, Nat.zero_mul, Nat.zero_add]
  | succ shift =>
      have hlarge : ¬ (2 ^ 52 + fraction) * 2 ^ shift < twoPow 52 :=
        not_lt.mpr ((Nat.le_add_right _ _).trans (Nat.le_mul_of_pos_right _ (Nat.two_pow_pos _)))
      rw [fieldUnits, if_neg (Nat.succ_ne_zero shift), Nat.add_sub_cancel, magnitudeBits,
        if_neg hlarge]
      dsimp only
      rw [log2_hidden h, Nat.add_sub_cancel_left, twoPow_eq, twoPow_eq,
        Nat.mul_div_cancel _ (Nat.two_pow_pos shift)]
      omega

/-- Every magnitude is the units of two fields, and the exponent is not the last one. -/
theorem exists_eq_fieldUnits {units : Nat} (h : IsMagnitude units) :
    ∃ exponent fraction, exponent < 2047 ∧ fraction < 2 ^ 52 ∧
      units = fieldUnits exponent fraction := by
  rcases Nat.lt_or_ge units (2 ^ 52) with hsmall | hlarge
  · exact ⟨0, units, by decide, hsmall, (if_pos rfl).symm⟩
  · have hne : units ≠ 0 := by omega
    have hlog : 52 ≤ Nat.log2 units := (Nat.le_log2 hne).mpr hlarge
    have hlimit := log2_lt_of_lt_limit hne h.lt_limit
    have hunits := div_mul_of_isShort h.short
    have hlt := div_lt_of_shift units
    have hle := le_div_of_le_log2 hlog
    refine ⟨Nat.log2 units - 52 + 1, units / 2 ^ (Nat.log2 units - 52) - 2 ^ 52, by omega, by omega,
      ?_⟩
    rw [fieldUnits, if_neg (Nat.succ_ne_zero _), Nat.add_sub_cancel, Nat.add_sub_cancel' hle, hunits]

/-! ### Words -/

/-- Decoding a word whose exponent is not the last one. -/
theorem ofBits_eq_finite {word : UInt64} {units : Nat} (isMagnitude : IsMagnitude units)
    (hexponent : word.toNat / 2 ^ 52 % 2048 < 2047)
    (hunits : fieldUnits (word.toNat / 2 ^ 52 % 2048) (word.toNat % 2 ^ 52) = units) :
    ofBits word = .finite (decide (2 ^ 63 ≤ word.toNat)) units isMagnitude := by
  subst hunits
  unfold ofBits
  dsimp only
  split
  · split
    · rename_i hzero
      congr 1
      exact (if_pos hzero).symm
    · rename_i hpositive
      congr 1
      exact (if_neg hpositive).symm
  · rename_i hlast
    exact absurd hexponent hlast

/-- Decoding a word with the last exponent. -/
theorem ofBits_of_last {word : UInt64} (h : ¬ word.toNat / 2 ^ 52 % 2048 < 2047) :
    ofBits word =
      if word.toNat % 2 ^ 52 = 0 then .infinite (decide (2 ^ 63 ≤ word.toNat)) else .nan := by
  unfold ofBits
  exact dif_neg h

/-- The word of a finite double in terms of its fields. -/
theorem toNat_toBits_fieldUnits (negative : Bool) {exponent fraction : Nat}
    (hexponent : exponent < 2047) (hfraction : fraction < 2 ^ 52)
    (isMagnitude : IsMagnitude (fieldUnits exponent fraction)) :
    (toBits (.finite negative _ isMagnitude)).toNat =
      (if negative then 2 ^ 63 else 0) + (exponent * 2 ^ 52 + fraction) := by
  rw [toBits, magnitudeBits_fieldUnits hfraction, UInt64.toNat_ofNat', twoPow_eq]
  refine Nat.mod_eq_of_lt ?_
  split <;> omega

/-- A sign and two fields are read off the number that they make up. -/
theorem fields_of_eq {n : Nat} {negative : Bool} {exponent fraction : Nat}
    (hexponent : exponent < 2047) (hfraction : fraction < 2 ^ 52)
    (h : n = (if negative then 2 ^ 63 else 0) + (exponent * 2 ^ 52 + fraction)) :
    decide (2 ^ 63 ≤ n) = negative ∧ n / 2 ^ 52 % 2048 = exponent ∧ n % 2 ^ 52 = fraction := by
  cases negative with
  | false =>
      rw [if_neg Bool.false_ne_true] at h
      exact ⟨decide_eq_false (by omega), by omega, by omega⟩
  | true =>
      rw [if_pos rfl] at h
      exact ⟨decide_eq_true (by omega), by omega, by omega⟩

theorem ofBits_toBits (x : Double) : ofBits x.toBits = x := by
  cases x with
  | nan => decide
  | infinite negative => cases negative <;> decide
  | finite negative units isMagnitude =>
      obtain ⟨exponent, fraction, hexponent, hfraction, rfl⟩ := exists_eq_fieldUnits isMagnitude
      obtain ⟨hsign, hfirst, hlast⟩ := fields_of_eq hexponent hfraction
        (toNat_toBits_fieldUnits negative hexponent hfraction isMagnitude)
      rw [ofBits_eq_finite isMagnitude (hfirst.trans_lt hexponent) (by rw [hfirst, hlast]), hsign]

theorem toBits_ofBits {word : UInt64} (h : ofBits word ≠ .nan) : (ofBits word).toBits = word := by
  have hlt := word.toNat_lt
  rw [← UInt64.toNat_inj]
  by_cases hexponent : word.toNat / 2 ^ 52 % 2048 < 2047
  · have hfraction : word.toNat % 2 ^ 52 < 2 ^ 52 := Nat.mod_lt _ (Nat.two_pow_pos 52)
    rw [ofBits_eq_finite (isMagnitude_fieldUnits hexponent hfraction) hexponent rfl,
      toNat_toBits_fieldUnits _ hexponent hfraction]
    simp only [decide_eq_true_eq]
    split <;> omega
  · rw [ofBits_of_last hexponent] at h ⊢
    split
    · rename_i hfraction
      by_cases hsign : 2 ^ 63 ≤ word.toNat
      · rw [decide_eq_true hsign]
        change 0xfff0000000000000 = word.toNat
        omega
      · rw [decide_eq_false hsign]
        change 0x7ff0000000000000 = word.toNat
        omega
    · rename_i hfraction
      exact absurd (if_neg hfraction) h

/-- A double that is not not-a-number has one word. -/
theorem ofBits_eq_iff {x : Double} (hx : x ≠ .nan) (word : UInt64) :
    ofBits word = x ↔ word = x.toBits := by
  constructor
  · rintro rfl
    exact (toBits_ofBits hx).symm
  · rintro rfl
    exact ofBits_toBits x

end Double
end Reckoner
