import Reckoner.Proofs.Double.Finite
import Reckoner.Proofs.Double.Relative

/-!
# Halves of whole numbers

Half of a whole number need not be representable, and its rounding need not have the same whole part.
Below `2 ^ 53` the half is exact.  From there on a rounded half is a whole number.  Up to `2 ^ 54` the
half of an odd number lies midway between two whole numbers that are both representable and goes to the
even one, which for every second odd number is the upper one.  Beyond `2 ^ 54` only every second whole
number is representable, and the whole part of the half is kept exactly if it is one of those that are.
-/

namespace Reckoner
namespace Double

/-- The whole part of half of `n` is kept when the half is rounded: it has at most 53 significant bits,
and the half is not a tie that goes up. -/
def KeepsHalf (n : ℕ) : Prop :=
  IsShort (n / 2) ∧ (n < 2 ^ 53 ∨ 2 ^ 54 ≤ n ∨ n % 4 ≠ 3)

/-- Up to the first tie that goes up, every whole part is kept. -/
theorem keepsHalf_of_le {n : ℕ} (h : n ≤ 2 ^ 53 + 2) : KeepsHalf n := by
  refine ⟨isShort_of_lt (by rw [twoPow_eq]; omega), ?_⟩
  omega

/-! ### Whole representable numbers -/

/-- A scale is a whole number of ones, or one is a larger multiple of the scale. -/
theorem scale_cases (e : ℕ) : (∃ k, e = k + unitShift) ∨ ∃ k, unitShift = e + k + 1 := by
  rcases Nat.lt_or_ge e unitShift with hlt | hge
  · obtain ⟨k, hk⟩ := Nat.exists_eq_add_of_lt hlt
    exact .inr ⟨k, hk⟩
  · obtain ⟨k, hk⟩ := Nat.exists_eq_add_of_le' hge
    exact .inl ⟨k, hk⟩

/-- A number with bits below one is less than `2 ^ 52`. -/
theorem mul_two_pow_div_lt {m : ℤ} (hm : |m| < 2 ^ 53) {e k : ℕ} (hk : unitShift = e + k + 1) :
    (m * 2 ^ e / unitsPerOne : ℚ) < 2 ^ 52 := by
  have hlt : (m : ℚ) < 2 ^ 53 := by exact_mod_cast lt_of_le_of_lt (le_abs_self m) hm
  have hpow : (1 : ℚ) ≤ 2 ^ k := one_le_pow₀ one_le_two
  have hscale : (0 : ℚ) < 2 ^ e := by positivity
  rw [div_lt_iff₀ unitsPerOne_pos, unitsPerOne_eq_two_pow, hk]
  calc (m * 2 ^ e : ℚ) < 2 ^ 53 * 2 ^ e := mul_lt_mul_of_pos_right hlt hscale
    _ ≤ 2 ^ 53 * 2 ^ e * 2 ^ k := le_mul_of_one_le_right (by positivity) hpow
    _ = 2 ^ 52 * 2 ^ (e + k + 1) := by ring

/-- A whole number is representable exactly if it has at most 53 significant bits. -/
theorem representable_natCast_iff {n : ℕ} : Representable n ↔ IsShort n := by
  constructor
  · rintro ⟨m, e, hm, heq⟩
    obtain ⟨k, rfl⟩ | ⟨k, hk⟩ := scale_cases e
    · rw [mul_two_pow_div_unitsPerOne] at heq
      have hn : (n : ℤ) = m * 2 ^ k := by exact_mod_cast heq
      have hnonneg : 0 ≤ m := by
        by_contra hneg
        have := mul_neg_of_neg_of_pos (not_le.mp hneg) (by positivity : (0 : ℤ) < 2 ^ k)
        omega
      lift m to ℕ using hnonneg
      rw [abs_of_nonneg (by positivity)] at hm
      exact ⟨m, k, by rw [twoPow_eq]; omega, by exact_mod_cast hn⟩
    · have hlt := mul_two_pow_div_lt hm hk
      rw [← heq] at hlt
      have hsmall : n < 2 ^ 52 := by exact_mod_cast hlt
      exact isShort_of_lt (by rw [twoPow_eq]; omega)
  · rintro ⟨significand, shift, hlt, rfl⟩
    rw [twoPow_eq] at hlt ⊢
    have hrep := representable_mul_two_pow (m := significand)
      (by rw [abs_of_nonneg (by positivity)]; omega) shift
    exact_mod_cast hrep

/-- From `2 ^ 52` on, representable numbers are whole, and from each further power of two on they are
multiples of one more factor of two. -/
theorem Representable.exists_eq_mul {r : ℚ} (h : Representable r) {k : ℕ}
    (hle : 2 ^ 52 * 2 ^ k ≤ r) : ∃ z : ℤ, r = z * 2 ^ k := by
  obtain ⟨m, e, hm, rfl⟩ := h
  rcases grid_or_lt m e (k + unitShift) hm with ⟨z, hz⟩ | ⟨-, hsmall⟩
  · have hgrid : (m * 2 ^ e : ℚ) = z * 2 ^ (k + unitShift) := by exact_mod_cast hz
    exact ⟨z, by rw [hgrid, mul_two_pow_div_unitsPerOne]⟩
  · have hbelow : (m * 2 ^ e : ℚ) < 2 ^ 52 * 2 ^ (k + unitShift) := by exact_mod_cast hsmall
    have hlt := div_lt_div_of_pos_right hbelow unitsPerOne_pos
    rw [mul_two_pow_div_unitsPerOne] at hlt
    exact absurd hle (not_le.mpr hlt)

theorem even_of_natCast_eq {n : ℕ} {z : ℤ} (h : (n : ℚ) = 2 * z) : Even n := by
  rw [← Int.cast_natCast] at h
  have hn : (n : ℤ) = 2 * z := by exact_mod_cast h
  rw [Nat.even_iff]
  omega

/-- From `2 ^ 53` on, only even numbers are representable. -/
theorem Representable.even {n : ℕ} (h : Representable n) (hle : 2 ^ 53 ≤ n) : Even n := by
  have hbound : (2 ^ 52 * 2 ^ 1 : ℚ) ≤ n := by exact_mod_cast hle
  obtain ⟨z, hz⟩ := h.exists_eq_mul hbound
  rw [pow_one, mul_comm] at hz
  exact even_of_natCast_eq hz

/-- From `2 ^ 52` on, an even significand makes an even number. -/
theorem EvenSignificand.even {n : ℕ} (h : EvenSignificand n) (hle : 2 ^ 52 ≤ n) : Even n := by
  obtain ⟨m, e, hm, heq⟩ := h
  obtain ⟨k, rfl⟩ | ⟨k, hk⟩ := scale_cases e
  · rw [mul_two_pow_div_unitsPerOne, mul_assoc] at heq
    exact even_of_natCast_eq (z := m * 2 ^ k) (by exact_mod_cast heq)
  · have hlt := mul_two_pow_div_lt hm hk
    push_cast at hlt
    rw [← heq] at hlt
    have : n < 2 ^ 52 := by exact_mod_cast hlt
    omega

/-! ### Rounded halves -/

theorem representable_half_natCast {n : ℕ} (h : n < 2 ^ 53) : Representable ((n : ℚ) / 2) := by
  refine ⟨n, 1073, by rw [abs_of_nonneg (by positivity)]; omega, ?_⟩
  have hunits : (unitsPerOne : ℚ) = 2 ^ 1073 * 2 := by
    rw [unitsPerOne_eq_two_pow, unitShift, ← pow_succ]
  rw [hunits, Int.cast_natCast, mul_comm (n : ℚ), mul_div_mul_left _ _ (by positivity)]

/-- The distance of a half from a whole number, counted in halves. -/
theorem abs_half_sub (n m : ℕ) : |(n : ℚ) / 2 - m| = (|(n : ℤ) - 2 * m| : ℤ) / 2 := by
  rw [div_sub' two_ne_zero, abs_div, abs_two]
  push_cast
  rfl

theorem towardZero_natCast (n : ℕ) : towardZero n = n := by
  rw [towardZero_of_nonneg (by positivity), Int.floor_natCast]

theorem towardZero_half_natCast (n : ℕ) : towardZero ((n : ℚ) / 2) = (n / 2 : ℕ) := by
  rw [towardZero_of_nonneg (by positivity)]
  exact_mod_cast Rat.floor_natCast_div_natCast n 2

section Halves

variable {n : ℕ} {r : ℚ} (hr : IsRounding ((n : ℚ) / 2) r)

include hr

/-- From `2 ^ 53` on, a rounded half is whole. -/
theorem IsRounding.exists_nat_of_half (h : 2 ^ 53 ≤ n) : ∃ m : ℕ, r = m := by
  have hcast : (2 ^ 53 : ℚ) ≤ n := by exact_mod_cast h
  have hle : 2 ^ 52 ≤ r := (isRounding_self (representable_two_pow 52)).mono hr (by linarith)
  obtain ⟨z, hz⟩ := hr.representable.exists_eq_mul (k := 0) (by simpa using hle)
  rw [pow_zero, mul_one] at hz
  subst hz
  have hlarge : 2 ^ 52 ≤ z := by exact_mod_cast hle
  lift z to ℕ using by omega
  exact ⟨z, Int.cast_natCast z⟩

/-- A half whose whole part is representable goes to that whole part, or it has a fraction and goes to
the next whole number. -/
theorem IsRounding.eq_whole_or_next (h : 2 ^ 53 ≤ n) (hshort : IsShort (n / 2)) :
    r = (n / 2 : ℕ) ∨ n % 2 = 1 ∧ r = (n / 2 + 1 : ℕ) := by
  obtain ⟨m, rfl⟩ := hr.exists_nat_of_half h
  have hnear := hr.nearest _ (representable_natCast_iff.mpr hshort)
  rw [abs_half_sub, abs_half_sub, div_le_div_iff_of_pos_right two_pos, Int.cast_le, abs_le,
    abs_of_nonneg (by omega)] at hnear
  rw [Nat.cast_inj, Nat.cast_inj]
  omega

/-- A half that lies midway between two representable numbers goes to the even one. -/
theorem IsRounding.evenSignificand_of_midway (h : 2 ^ 53 ≤ n) (hodd : n % 2 = 1)
    (hshort : IsShort (n / 2)) (hnext : IsShort (n / 2 + 1)) : EvenSignificand r := by
  have htie : |(n : ℚ) / 2 - (n / 2 + 1 : ℕ)| = |(n : ℚ) / 2 - (n / 2 : ℕ)| := by
    have hbelow : |(n : ℤ) - 2 * (n / 2 : ℕ)| = 1 := by rw [abs_eq one_pos.le]; omega
    have habove : |(n : ℤ) - 2 * (n / 2 + 1 : ℕ)| = 1 := by rw [abs_eq one_pos.le]; omega
    rw [abs_half_sub, abs_half_sub, hbelow, habove]
  have hne : ((n / 2 + 1 : ℕ) : ℚ) ≠ (n / 2 : ℕ) := by
    rw [Ne, Nat.cast_inj]
    omega
  obtain rfl | ⟨-, rfl⟩ := hr.eq_whole_or_next h hshort
  · exact hr.even_of_tie _ (representable_natCast_iff.mpr hnext) hne htie
  · exact hr.even_of_tie _ (representable_natCast_iff.mpr hshort) hne.symm htie.symm

/-- Up to `2 ^ 54`, a half with a fraction goes to its even neighbour. -/
theorem IsRounding.eq_of_half_lt (hle : 2 ^ 53 ≤ n) (hlt : n < 2 ^ 54) :
    r = (if n % 4 = 3 then n / 2 + 1 else n / 2 : ℕ) := by
  have hshort : IsShort (n / 2) := isShort_of_lt (by rw [twoPow_eq]; omega)
  have hnext : IsShort (n / 2 + 1) := by
    have hcarry : IsShort ((n / 2 + 1) * twoPow 0) :=
      isShort_mul_twoPow (by rw [twoPow_eq]; omega) 0
    rwa [twoPow_zero, Nat.mul_one] at hcarry
  have heven (hodd : n % 2 = 1) := hr.evenSignificand_of_midway hle hodd hshort hnext
  obtain rfl | ⟨hodd, rfl⟩ := hr.eq_whole_or_next hle hshort
  · rw [if_neg]
    intro hthree
    have := Nat.even_iff.mp ((heven (by omega)).even (by omega))
    omega
  · have := Nat.even_iff.mp ((heven hodd).even (by omega))
    rw [if_pos (by omega)]

/-- From `2 ^ 54` on, a half goes to its whole part if that is representable. -/
theorem IsRounding.eq_whole_of_le (h : 2 ^ 54 ≤ n) (hshort : IsShort (n / 2)) :
    r = (n / 2 : ℕ) := by
  obtain heq | ⟨-, rfl⟩ := hr.eq_whole_or_next (by omega) hshort
  · exact heq
  · -- Two whole numbers of this size next to each other are not both representable.
    have hbelow := Nat.even_iff.mp ((representable_natCast_iff.mpr hshort).even (by omega))
    have habove := Nat.even_iff.mp (hr.representable.even (by omega))
    omega

/-- Where the whole part of a half is kept. -/
theorem IsRounding.towardZero_half_eq_iff : towardZero r = (n / 2 : ℕ) ↔ KeepsHalf n := by
  unfold KeepsHalf
  rcases Nat.lt_or_ge n (2 ^ 53) with hsmall | hlarge
  · have hshort : IsShort (n / 2) := isShort_of_lt (by rw [twoPow_eq]; omega)
    rw [hr.eq_of_representable (representable_half_natCast hsmall), towardZero_half_natCast]
    simp only [hshort, hsmall, true_or, true_and]
  rcases Nat.lt_or_ge n (2 ^ 54) with hmiddle | hhuge
  · have hshort : IsShort (n / 2) := isShort_of_lt (by rw [twoPow_eq]; omega)
    rw [hr.eq_of_half_lt hlarge hmiddle, towardZero_natCast, Nat.cast_inj]
    simp only [hshort, true_and]
    split <;> omega
  · obtain ⟨m, rfl⟩ := hr.exists_nat_of_half hlarge
    rw [towardZero_natCast, Nat.cast_inj]
    constructor
    · rintro rfl
      exact ⟨representable_natCast_iff.mp hr.representable, .inr (.inl hhuge)⟩
    · rintro ⟨hshort, -⟩
      exact Nat.cast_injective (hr.eq_whole_of_le hhuge hshort)

end Halves

/-- Rounding the half of an integer keeps its whole part exactly if that of the magnitude is kept. -/
theorem IsRounding.towardZero_half_int_eq_iff {c : ℤ} {r : ℚ} (hr : IsRounding ((c : ℚ) / 2) r) :
    towardZero r = towardZero ((c : ℚ) / 2) ↔ KeepsHalf c.natAbs := by
  obtain ⟨n, rfl | rfl⟩ := Int.eq_nat_or_neg c
  · rw [Int.cast_natCast] at hr ⊢
    rw [towardZero_half_natCast, hr.towardZero_half_eq_iff, Int.natAbs_natCast]
  · rw [Int.cast_neg, Int.cast_natCast, neg_div] at hr ⊢
    have hflip := hr.neg
    rw [neg_neg] at hflip
    rw [towardZero_neg, towardZero_half_natCast, Int.natAbs_neg, Int.natAbs_natCast,
      ← hflip.towardZero_half_eq_iff, towardZero_neg, neg_eq_iff_eq_neg]

end Double
end Reckoner
