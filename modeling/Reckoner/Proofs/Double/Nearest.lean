import Mathlib.Algebra.Order.Field.Basic
import Mathlib.Algebra.Order.Ring.Rat
import Mathlib.Data.Nat.Cast.Order.Field
import Mathlib.Data.Rat.Cast.CharZero
import Mathlib.Tactic.FieldSimp
import Mathlib.Tactic.Linarith
import Mathlib.Tactic.Positivity
import Mathlib.Tactic.Ring
import Reckoner.Double.Basic

/-!
# Correct rounding

`IsRounding q r` says what it means for a rational `r` to be `q` rounded to 53 significant bits:
no number of that many bits is nearer to `q`, and of two equally near ones `r` has the even
significand.  The exponent is bounded below by the least unit and not bounded above; overflow is a
separate question, asked of `r`.

The relation does not mention how rounding is done.  Two roundings of one number agree, rounding is
monotone, and `roundUnits` computes it.
-/

namespace Reckoner

theorem twoPow_eq (n : Nat) : twoPow n = 2 ^ n := rfl

theorem tenPow_eq (n : Nat) : tenPow n = 10 ^ n := rfl

/-! ### Rounding to whole numbers -/

/-- A quotient is its whole part and a fraction. -/
theorem cast_div_eq (num : Nat) {den : Nat} (hden : 0 < den) :
    (num : ℚ) / den = ((num / den : Nat) : ℚ) + ((num % den : Nat) : ℚ) / den := by
  have hpos : (den : ℚ) ≠ 0 := by exact_mod_cast hden.ne'
  have hsplit : (num : ℚ) = den * ((num / den : Nat) : ℚ) + ((num % den : Nat) : ℚ) := by
    exact_mod_cast (Nat.div_add_mod num den).symm
  rw [eq_comm, ← sub_eq_zero]
  field_simp
  linarith

theorem abs_div_sub_roundDiv_le (num : Nat) {den : Nat} (hden : 0 < den) :
    |(num : ℚ) / den - roundDiv num den| ≤ 1 / 2 := by
  have hpos : (0 : ℚ) < den := by exact_mod_cast hden
  have hupper : 2 * ((roundDiv num den : ℚ) * den) ≤ 2 * num + den := by
    exact_mod_cast two_mul_roundDiv_mul_le num hden
  have hlower : 2 * (num : ℚ) ≤ 2 * ((roundDiv num den : ℚ) * den) + den := by
    exact_mod_cast two_mul_le_roundDiv_mul num hden
  rw [abs_le]
  constructor
  · have hquot : (roundDiv num den : ℚ) - 1 / 2 ≤ num / den := by
      rw [le_div_iff₀ hpos]
      linarith
    linarith
  · have hquot : (num : ℚ) / den ≤ roundDiv num den + 1 / 2 := by
      rw [div_le_iff₀ hpos]
      linarith
    linarith

/-- A quotient halfway between two whole numbers goes to the even one. -/
theorem even_roundDiv_of_half {num den : Nat} (hden : 0 < den)
    (hhalf : |(num : ℚ) / den - roundDiv num den| = 1 / 2) : Even (roundDiv num den) := by
  have hpos : (0 : ℚ) < den := by exact_mod_cast hden
  have hnonneg : (0 : ℚ) ≤ ((num % den : Nat) : ℚ) / den := by positivity
  have hone : ((num % den : Nat) : ℚ) / den < 1 := by
    rw [div_lt_one hpos]
    exact_mod_cast Nat.mod_lt num hden
  rw [cast_div_eq num hden] at hhalf
  unfold roundDiv at hhalf ⊢
  split at hhalf
  · -- The fraction is below one half, so the whole part is nearer.
    rename_i hlow
    have hfraction : ((num % den : Nat) : ℚ) / den < 1 / 2 := by
      rw [div_lt_iff₀ hpos]
      have : 2 * ((num % den : Nat) : ℚ) < den := by exact_mod_cast hlow
      linarith
    rw [add_sub_cancel_left, abs_of_nonneg hnonneg] at hhalf
    linarith
  · split at hhalf
    · rename_i hhigh
      have hfraction : 1 / 2 < ((num % den : Nat) : ℚ) / den := by
        rw [lt_div_iff₀ hpos]
        have : (den : ℚ) < 2 * ((num % den : Nat) : ℚ) := by exact_mod_cast hhigh
        linarith
      push_cast at hhalf
      rw [add_sub_add_left_eq_sub, abs_of_nonpos (by linarith)] at hhalf
      linarith
    · rename_i hlow hhigh
      rw [if_neg hlow, if_neg hhigh, Nat.even_iff]
      omega

/-- A whole number within one half is nearest, and another one is as near only if both are one half
away. -/
theorem nearest_of_abs_sub_le_half {q : ℚ} {n k : ℤ} (h : |q - n| ≤ 1 / 2) (hk : k ≠ n) :
    |q - n| ≤ |q - k| ∧ (|q - k| = |q - n| → |q - n| = 1 / 2) := by
  have hapart : (1 : ℚ) ≤ |(k : ℚ) - n| := by
    exact_mod_cast Int.one_le_abs (sub_ne_zero.mpr hk)
  have htriangle := abs_sub_le (k : ℚ) q n
  rw [abs_sub_comm (k : ℚ) q] at htriangle
  exact ⟨by linarith, fun htie => by linarith⟩

namespace Double

/-! ### The numbers that doubles can hold -/

/-- A whole number of least units with at most 53 significant bits, of either sign.  There is no
upper limit here. -/
def Representable (r : ℚ) : Prop :=
  ∃ (m : ℤ) (e : ℕ), |m| < 2 ^ 53 ∧ r = m * 2 ^ e / unitsPerOne

/-- A representable number whose significand is even.  The significand need not be normalised: a
number that has an even one in some form has an even one in normal form. -/
def EvenSignificand (r : ℚ) : Prop :=
  ∃ (m : ℤ) (e : ℕ), |2 * m| < 2 ^ 53 ∧ r = 2 * m * 2 ^ e / unitsPerOne

/-- `r` is `q` rounded to 53 significant bits, ties to the even significand. -/
structure IsRounding (q r : ℚ) : Prop where
  representable : Representable r
  nearest : ∀ s, Representable s → |q - r| ≤ |q - s|
  even_of_tie : ∀ s, Representable s → s ≠ r → |q - s| = |q - r| → EvenSignificand r

theorem unitsPerOne_pos : (0 : ℚ) < unitsPerOne := Nat.cast_pos.mpr zero_lt_unitsPerOne

theorem unitsPerOne_ne_zero : (unitsPerOne : ℚ) ≠ 0 := unitsPerOne_pos.ne'

theorem Representable.neg {r : ℚ} (h : Representable r) : Representable (-r) := by
  obtain ⟨m, e, hm, rfl⟩ := h
  refine ⟨-m, e, by rwa [abs_neg], ?_⟩
  push_cast
  ring

theorem EvenSignificand.neg {r : ℚ} (h : EvenSignificand r) : EvenSignificand (-r) := by
  obtain ⟨m, e, hm, rfl⟩ := h
  refine ⟨-m, e, by rwa [mul_neg, abs_neg], ?_⟩
  push_cast
  ring

/-- Rounding does not depend on the sign. -/
theorem IsRounding.neg {q r : ℚ} (h : IsRounding q r) : IsRounding (-q) (-r) := by
  have hflip (s : ℚ) : |-q - s| = |q - -s| := by rw [← abs_neg]; ring_nf
  refine ⟨h.representable.neg, ?_, ?_⟩
  · intro s hs
    rw [hflip, hflip, neg_neg]
    exact h.nearest (-s) hs.neg
  · intro s hs hne htie
    rw [hflip, hflip, neg_neg] at htie
    exact (h.even_of_tie (-s) hs.neg (fun heq => hne (neg_eq_iff_eq_neg.mp heq)) htie).neg

/-! ### Roundings are unique -/

/-- Different multiples of twice a scale differ by at least twice the scale. -/
theorem add_two_mul_le_of_lt {a b : ℤ} {c : ℚ} (hc : 0 < c) (h : 2 * a * c < 2 * b * c) :
    2 * a * c + 2 * c ≤ 2 * b * c := by
  have hab : (a : ℚ) < b := by
    have := lt_of_mul_lt_mul_right h hc.le
    linarith
  have hstep : (a : ℚ) + 1 ≤ b := by exact_mod_cast Int.add_one_le_iff.mpr (by exact_mod_cast hab)
  nlinarith

/-- Above an even significand at the finer of two scales there is an odd one, and it is still below
every larger even multiple of the other scale. -/
theorem exists_representable_between {m n : ℤ} {e f : ℕ} (hm : |2 * m| < 2 ^ 53) (hle : e ≤ f)
    (hlt : (2 * m * 2 ^ e / unitsPerOne : ℚ) < 2 * n * 2 ^ f / unitsPerOne) :
    ∃ t, Representable t ∧ 2 * m * 2 ^ e / unitsPerOne < t ∧
      t < 2 * n * 2 ^ f / unitsPerOne := by
  obtain ⟨k, rfl⟩ := Nat.exists_eq_add_of_le hle
  have hc : (0 : ℚ) < 2 ^ e / unitsPerOne := div_pos (pow_pos two_pos e) unitsPerOne_pos
  have hleft : (2 * m * 2 ^ e / unitsPerOne : ℚ) = 2 * m * (2 ^ e / unitsPerOne) := by ring
  have hright : (2 * n * 2 ^ (e + k) / unitsPerOne : ℚ) =
      2 * ((n * 2 ^ k : ℤ) : ℚ) * (2 ^ e / unitsPerOne) := by
    rw [pow_add]
    push_cast
    ring
  have hmiddle : (((2 * m + 1 : ℤ) : ℚ) * 2 ^ e / unitsPerOne) =
      2 * m * (2 ^ e / unitsPerOne) + 2 ^ e / unitsPerOne := by
    push_cast
    ring
  rw [hleft, hright] at hlt ⊢
  have hgap := add_two_mul_le_of_lt hc hlt
  refine ⟨_, ⟨2 * m + 1, e, ?_, rfl⟩, ?_, ?_⟩
  · rw [abs_lt] at hm ⊢
    omega
  · rw [hmiddle]
    linarith
  · rw [hmiddle]
    linarith

/-- Between two numbers with even significands there is a third one. -/
theorem EvenSignificand.exists_between {r s : ℚ} (hr : EvenSignificand r)
    (hs : EvenSignificand s) (hlt : r < s) : ∃ t, Representable t ∧ r < t ∧ t < s := by
  obtain ⟨m, e, hm, rfl⟩ := hr
  obtain ⟨n, f, hn, rfl⟩ := hs
  rcases le_total e f with hle | hle
  · exact exists_representable_between hm hle hlt
  · -- The finer scale is that of the larger number: look from the other side.
    have hflip (k : ℤ) (g : ℕ) :
        (2 * ((-k : ℤ) : ℚ) * 2 ^ g / unitsPerOne) = -(2 * k * 2 ^ g / unitsPerOne) := by
      push_cast
      ring
    obtain ⟨t, ht, hleft, hright⟩ := exists_representable_between (m := -n) (n := -m)
      (by rwa [mul_neg, abs_neg]) hle (by rw [hflip, hflip]; linarith)
    rw [hflip] at hleft hright
    exact ⟨-t, ht.neg, by linarith, by linarith⟩

/-- What lies between two numbers that are equally near to a third one is nearer to it. -/
theorem abs_sub_lt_of_tie {q r s t : ℚ} (htie : |q - s| = |q - r|) (hrt : r < t) (hts : t < s) :
    |q - t| < |q - r| := by
  rcases abs_choice (q - s) with hqs | hqs <;> rcases abs_choice (q - r) with hqr | hqr <;>
    rcases abs_choice (q - t) with hqt | hqt <;> rw [hqs, hqr] at htie <;> rw [hqr, hqt] <;>
    linarith [abs_nonneg (q - s), abs_nonneg (q - r), abs_nonneg (q - t)]

/-- Two numbers cannot both be roundings of a third one that lies halfway between them. -/
theorem IsRounding.le {q r s : ℚ} (hr : IsRounding q r) (hs : IsRounding q s) : s ≤ r := by
  by_contra hcontra
  have hlt : r < s := not_le.mp hcontra
  have htie : |q - s| = |q - r| :=
    le_antisymm (hs.nearest r hr.representable) (hr.nearest s hs.representable)
  obtain ⟨t, ht, hrt, hts⟩ :=
    (hr.even_of_tie s hs.representable hlt.ne' htie).exists_between
      (hs.even_of_tie r hr.representable hlt.ne htie.symm) hlt
  exact absurd (hr.nearest t ht) (not_le.mpr (abs_sub_lt_of_tie htie hrt hts))

/-- A number has one rounding at most. -/
theorem IsRounding.unique {q r s : ℚ} (hr : IsRounding q r) (hs : IsRounding q s) : r = s :=
  le_antisymm (hs.le hr) (hr.le hs)

/-- Rounding is monotone. -/
theorem IsRounding.mono {q q' r r' : ℚ} (hr : IsRounding q r) (hr' : IsRounding q' r')
    (hle : q ≤ q') : r ≤ r' := by
  by_contra hlt
  rw [not_le] at hlt
  have hleft := hr.nearest r' hr'.representable
  have hright := hr'.nearest r hr.representable
  -- The smaller number is at or above the middle of the roundings, the larger one at or below it.
  have hlow : r + r' ≤ 2 * q := by
    rcases abs_choice (q - r) with h | h <;> rcases abs_choice (q - r') with h' | h' <;>
      rw [h, h'] at hleft <;> linarith [abs_nonneg (q - r), abs_nonneg (q - r')]
  have hhigh : 2 * q' ≤ r + r' := by
    rcases abs_choice (q' - r) with h | h <;> rcases abs_choice (q' - r') with h' | h' <;>
      rw [h, h'] at hright <;> linarith [abs_nonneg (q' - r), abs_nonneg (q' - r')]
  obtain rfl : q = q' := by linarith
  exact hlt.ne (hr'.unique hr)

/-- A representable number is its own rounding. -/
theorem isRounding_self {q : ℚ} (h : Representable q) : IsRounding q q := by
  refine ⟨h, ?_, ?_⟩
  · intro s _
    rw [sub_self, abs_zero]
    exact abs_nonneg _
  · intro s _ hne htie
    rw [sub_self, abs_zero, abs_eq_zero, sub_eq_zero] at htie
    exact absurd htie.symm hne

theorem IsRounding.eq_of_representable {q r : ℚ} (h : IsRounding q r) (hq : Representable q) :
    r = q :=
  h.unique (isRounding_self hq)

/-! ### The rounding of a quotient of units -/

/-- A number of 53 bits is on the grid of a given scale, or below the numbers that need it. -/
theorem grid_or_lt (m : ℤ) (e shift : ℕ) (hm : |m| < 2 ^ 53) :
    (∃ k : ℤ, m * 2 ^ e = k * 2 ^ shift) ∨ (0 < shift ∧ m * 2 ^ e < 2 ^ 52 * 2 ^ shift) := by
  rcases Nat.lt_or_ge e shift with hlt | hge
  · right
    refine ⟨Nat.zero_lt_of_lt hlt, ?_⟩
    obtain ⟨k, rfl⟩ := Nat.exists_eq_add_of_lt hlt
    have hpow : (1 : ℤ) ≤ 2 ^ k := one_le_pow₀ (by norm_num)
    have hscale : (0 : ℤ) < 2 ^ e := by positivity
    calc m * 2 ^ e < 2 ^ 53 * 2 ^ e := by
          exact mul_lt_mul_of_pos_right (lt_of_le_of_lt (le_abs_self m) hm) hscale
      _ ≤ 2 ^ 53 * 2 ^ e * 2 ^ k := le_mul_of_one_le_right (by positivity) hpow
      _ = 2 ^ 52 * 2 ^ (e + k + 1) := by ring
  · left
    obtain ⟨k, rfl⟩ := Nat.exists_eq_add_of_le hge
    exact ⟨m * 2 ^ k, by ring⟩

/-- When bits are given up, the quotient has more than 52 of them. -/
theorem le_div_of_roundShift_pos {num den : Nat} (h : 0 < roundShift num den) :
    2 ^ 52 * 2 ^ roundShift num den ≤ num / den := by
  have hshift : 52 + roundShift num den = Nat.log2 (num / den) := by
    unfold roundShift at h ⊢
    omega
  have hne : num / den ≠ 0 := by
    intro hzero
    rw [hzero] at hshift
    simp at hshift
  rw [← pow_add, hshift]
  exact Nat.log2_self_le hne

/-- The significand to which a quotient is rounded. -/
def roundedSignificand (num den : Nat) : Nat :=
  roundDiv num (den * twoPow (roundShift num den))

theorem roundUnits_eq (num den : Nat) :
    roundUnits num den = roundedSignificand num den * 2 ^ roundShift num den := rfl

theorem cast_roundUnits (num den : Nat) :
    (roundUnits num den : ℚ) = roundedSignificand num den * 2 ^ roundShift num den := by
  rw [roundUnits_eq]
  push_cast
  rfl

section RoundUnits

variable (num : Nat) {den : Nat} (hden : 0 < den)

theorem scaled_eq (num den : Nat) : (num : ℚ) / den / 2 ^ roundShift num den =
    num / (den * twoPow (roundShift num den) : Nat) := by
  rw [twoPow_eq, div_div]
  push_cast
  rfl

include hden in
/-- On the grid of the scale, the error is half a step at most. -/
theorem abs_scaled_sub_le :
    |(num : ℚ) / den / 2 ^ roundShift num den - roundedSignificand num den| ≤ 1 / 2 := by
  rw [scaled_eq]
  exact abs_div_sub_roundDiv_le num (Nat.mul_pos hden (twoPow_pos _))

include hden in
/-- Half a step of error is a tie. -/
theorem even_roundedSignificand
    (hhalf : |(num : ℚ) / den / 2 ^ roundShift num den - roundedSignificand num den| = 1 / 2) :
    Even (roundedSignificand num den) := by
  rw [scaled_eq] at hhalf
  exact even_roundDiv_of_half (Nat.mul_pos hden (twoPow_pos _)) hhalf

include hden in
/-- No number on the grid of the scale is nearer, and an equally near one is a tie. -/
theorem nearest_on_grid (k : ℤ) :
    |(num : ℚ) / den - roundUnits num den| ≤ |(num : ℚ) / den - k * 2 ^ roundShift num den| ∧
      ((k * 2 ^ roundShift num den : ℚ) ≠ roundUnits num den →
        |(num : ℚ) / den - k * 2 ^ roundShift num den| =
          |(num : ℚ) / den - roundUnits num den| →
        Even (roundedSignificand num den)) := by
  have herror := abs_scaled_sub_le num hden
  have hscale : (0 : ℚ) < 2 ^ roundShift num den := by positivity
  have hdistance (z : ℚ) : |(num : ℚ) / den - z * 2 ^ roundShift num den| =
      |(num : ℚ) / den / 2 ^ roundShift num den - z| * 2 ^ roundShift num den := by
    rw [← abs_of_pos hscale, ← abs_mul, abs_of_pos hscale, sub_mul, div_mul_cancel₀ _ hscale.ne']
  rw [cast_roundUnits, hdistance, hdistance]
  by_cases hk : k = roundedSignificand num den
  · subst hk
    exact ⟨le_rfl, fun hne => absurd rfl hne⟩
  · obtain ⟨hle, hhalf⟩ := nearest_of_abs_sub_le_half herror hk
    refine ⟨mul_le_mul_of_nonneg_right hle hscale.le, ?_⟩
    intro _ htie
    exact even_roundedSignificand num hden (hhalf (mul_right_cancel₀ hscale.ne' htie))

include hden in
/-- No number of 53 bits is nearer to a quotient than its rounding. -/
theorem nearest_roundUnits (m : ℤ) (e : ℕ) (hm : |m| < 2 ^ 53) :
    |(num : ℚ) / den - roundUnits num den| ≤ |(num : ℚ) / den - m * 2 ^ e| ∧
      ((m * 2 ^ e : ℚ) ≠ roundUnits num den →
        |(num : ℚ) / den - m * 2 ^ e| = |(num : ℚ) / den - roundUnits num den| →
        Even (roundedSignificand num den)) := by
  rcases grid_or_lt m e (roundShift num den) hm with ⟨k, hk⟩ | ⟨hpos, hlt⟩
  · have hgrid : (m * 2 ^ e : ℚ) = k * 2 ^ roundShift num den := by exact_mod_cast hk
    rw [hgrid]
    exact nearest_on_grid num hden k
  · -- The least number with 53 bits at this scale lies between, and is on the grid.
    have hbelow : (m * 2 ^ e : ℚ) < (2 ^ 52 : ℤ) * 2 ^ roundShift num den := by
      exact_mod_cast hlt
    have habove : ((2 ^ 52 : ℤ) * 2 ^ roundShift num den : ℚ) ≤ num / den := by
      have hfloor : ((2 ^ 52 * 2 ^ roundShift num den : Nat) : ℚ) ≤ ((num / den : Nat) : ℚ) := by
        exact_mod_cast le_div_of_roundShift_pos hpos
      refine le_trans ?_ (le_trans hfloor Nat.cast_div_le)
      push_cast
      exact le_rfl
    have hgrid := (nearest_on_grid num hden (2 ^ 52)).1
    rw [abs_of_nonneg (sub_nonneg.mpr habove)] at hgrid
    generalize ((2 ^ 52 : ℤ) : ℚ) * 2 ^ roundShift num den = least at hbelow habove hgrid
    rw [abs_of_nonneg (by linarith : (0 : ℚ) ≤ num / den - m * 2 ^ e)]
    exact ⟨by linarith, fun _ htie => by linarith⟩

end RoundUnits

/-- A rounded significand that is even stays so when a carry makes it a power of two. -/
theorem evenSignificand_roundUnits {num den : Nat} (heven : Even (roundedSignificand num den)) :
    EvenSignificand (roundUnits num den / unitsPerOne) := by
  obtain ⟨k, hk⟩ := heven
  have hle : roundedSignificand num den ≤ 2 ^ 53 := roundDiv_shift_le num den
  rw [cast_roundUnits, hk]
  rcases Nat.lt_or_eq_of_le hle with hlt | heq
  · refine ⟨k, roundShift num den, ?_, by push_cast; ring⟩
    rw [abs_of_nonneg (by positivity)]
    omega
  · refine ⟨2 ^ 51, roundShift num den + 1, by norm_num, ?_⟩
    have hhalf : (k : ℚ) = 2 ^ 52 := by
      have : k = 2 ^ 52 := by omega
      exact_mod_cast this
    push_cast
    rw [hhalf, pow_succ]
    ring

/-- A short number of units is representable. -/
theorem representable_of_isShort {units : Nat} (h : IsShort units) :
    Representable (units / unitsPerOne) := by
  obtain ⟨significand, shift, hlt, rfl⟩ := h
  refine ⟨significand, shift, ?_, by rw [twoPow_eq]; push_cast; ring⟩
  rw [abs_of_nonneg (by positivity)]
  exact_mod_cast hlt

/-- `roundUnits` rounds a quotient of units correctly. -/
theorem isRounding_roundUnits (num : Nat) {den : Nat} (hden : 0 < den) :
    IsRounding (num / den / unitsPerOne) (roundUnits num den / unitsPerOne) := by
  have hunit := unitsPerOne_pos
  have hdistance (z : ℚ) : |(num : ℚ) / den / unitsPerOne - z / unitsPerOne| =
      |(num : ℚ) / den - z| / unitsPerOne := by
    rw [← sub_div, abs_div, abs_of_pos hunit]
  refine ⟨representable_of_isShort (isShort_roundUnits num den), ?_, ?_⟩
  · rintro s ⟨m, e, hm, rfl⟩
    rw [hdistance, hdistance]
    exact div_le_div_of_nonneg_right (nearest_roundUnits num hden m e hm).1 hunit.le
  · rintro s ⟨m, e, hm, rfl⟩ hne htie
    rw [hdistance, hdistance, div_left_inj' hunit.ne'] at htie
    refine evenSignificand_roundUnits ((nearest_roundUnits num hden m e hm).2 ?_ htie)
    exact fun heq => hne (by rw [heq])

end Double
end Reckoner
