import Reckoner.Double.Bits
import Reckoner.Proofs.Double.Value

/-!
# The nearest finite double

`IsRounding` knows no largest number.  A rounding stays below `2 ^ 1024` exactly if the number is
below `overflowBound`, which lies halfway between the largest finite double and `2 ^ 1024`; the bound
itself is a tie that goes up.

`IsNearest q x` speaks of doubles and their encodings alone: `x` is finite, no finite double is nearer
to `q`, and of two that are equally near `x` is the one whose encoding ends in a zero bit.  A rounding
below the limit is nearest in this sense, and two nearest doubles have the same value.  With a sign for
the case of zero, as in `IsNearestSigned`, there is one nearest double at most.  The sign of a finite
double is the first bit of its encoding.

At the other end is the `least` positive double.  Half of it is a tie, too, and goes to zero.
-/

namespace Reckoner
namespace Double

/-! ### Overflow -/

/-- The value of the largest finite double. -/
def largest : ℚ := 2 ^ 1024 - 2 ^ 971

/-- From this magnitude on a number has no finite rounding. -/
def overflowBound : ℚ := 2 ^ 1024 - 2 ^ 970

theorem overflowBound_pos : 0 < overflowBound :=
  sub_pos.mpr (pow_lt_pow_right₀ one_lt_two (by decide))

theorem largest_eq : largest = (2 ^ 53 - 1) * 2 ^ 971 := by
  rw [largest, sub_mul, one_mul, ← pow_add]

theorem limit_eq : limit = 2 ^ 53 * 2 ^ 971 := by
  rw [limit, ← pow_add]

/-- The bound lies halfway between the largest finite double and the limit. -/
theorem largest_add_limit : largest + limit = 2 * overflowBound := by
  have hstep : (2 : ℚ) ^ 971 = 2 * 2 ^ 970 := pow_succ' 2 970
  rw [largest, limit, overflowBound, hstep]
  generalize (2 : ℚ) ^ 1024 = power
  generalize (2 : ℚ) ^ 970 = half
  ring

theorem largest_lt_limit : largest < limit := by
  rw [largest, limit]
  exact sub_lt_self _ (by positivity)

/-- The scale of the largest finite doubles, in least units. -/
def largestShift : ℕ := 2045

theorem mul_two_pow_largestShift (z : ℚ) : z * 2 ^ largestShift / unitsPerOne = z * 2 ^ 971 :=
  mul_two_pow_div_unitsPerOne z 971

/-- There is no number of 53 bits between the largest finite double and the limit. -/
theorem Representable.le_largest {r : ℚ} (h : Representable r) (hlt : r < limit) : r ≤ largest := by
  obtain ⟨m, e, hm, rfl⟩ := h
  have hscale : (0 : ℚ) < 2 ^ 971 := by positivity
  rw [limit_eq] at hlt
  rw [largest_eq]
  rcases grid_or_lt m e largestShift hm with ⟨k, hk⟩ | ⟨-, hsmall⟩
  · have hgrid : (m * 2 ^ e : ℚ) = k * 2 ^ largestShift := by exact_mod_cast hk
    rw [hgrid, mul_two_pow_largestShift] at hlt ⊢
    have hk : k < 2 ^ 53 := by exact_mod_cast lt_of_mul_lt_mul_right hlt hscale.le
    have hle : (k : ℚ) ≤ 2 ^ 53 - 1 := by exact_mod_cast Int.le_sub_one_of_lt hk
    exact mul_le_mul_of_nonneg_right hle hscale.le
  · have hlow : (m * 2 ^ e : ℚ) < 2 ^ 52 * 2 ^ largestShift := by exact_mod_cast hsmall
    calc (m * 2 ^ e / unitsPerOne : ℚ)
        ≤ 2 ^ 52 * 2 ^ largestShift / unitsPerOne :=
          div_le_div_of_nonneg_right hlow.le unitsPerOne_pos.le
      _ = 2 ^ 52 * 2 ^ 971 := mul_two_pow_largestShift _
      _ ≤ (2 ^ 53 - 1) * 2 ^ 971 := mul_le_mul_of_nonneg_right (by norm_num) hscale.le

theorem representable_largest : Representable largest := by
  refine ⟨2 ^ 53 - 1, largestShift, by norm_num, ?_⟩
  have hcast : ((2 ^ 53 - 1 : ℤ) : ℚ) = 2 ^ 53 - 1 := by norm_num
  rw [hcast, mul_two_pow_largestShift, largest_eq]

theorem evenSignificand_limit : EvenSignificand limit := by
  refine ⟨1, 1023 + unitShift, by norm_num, ?_⟩
  rw [mul_two_pow_div_unitsPerOne, Int.cast_one, mul_one, ← pow_succ', limit]

/-- A rounding stays below the limit exactly if the number is below the bound. -/
theorem IsRounding.lt_limit_iff {q r : ℚ} (h : IsRounding q r) : r < limit ↔ q < overflowBound := by
  have hmiddle := largest_add_limit
  have hgap := largest_lt_limit
  constructor
  · intro hlt
    by_contra hge
    rw [not_lt] at hge
    have hle := h.representable.le_largest hlt
    have hnear := h.nearest limit representable_limit
    rw [abs_of_nonneg (by linarith : 0 ≤ q - r)] at hnear
    rcases le_total limit q with habove | hbelow
    · rw [abs_of_nonneg (by linarith)] at hnear
      linarith
    · -- Only the bound itself is left, with the largest double as its rounding: the tie is broken.
      rw [abs_of_nonpos (by linarith)] at hnear
      have htie : |q - limit| = |q - r| := by
        rw [abs_of_nonpos (by linarith), abs_of_nonneg (by linarith)]
        linarith
      have heven := h.even_of_tie limit representable_limit hlt.ne' htie
      obtain ⟨t, ht, hrt, htl⟩ := heven.exists_between evenSignificand_limit hlt
      linarith [ht.le_largest htl]
  · intro hlt
    by_contra hge
    rw [not_lt] at hge
    have hnear := h.nearest largest representable_largest
    rw [abs_of_nonpos (by linarith : q - r ≤ 0)] at hnear
    rcases abs_choice (q - largest) with habs | habs <;> rw [habs] at hnear <;> linarith

theorem IsRounding.abs_lt_limit_iff {q r : ℚ} (h : IsRounding q r) :
    |r| < limit ↔ |q| < overflowBound := by
  rw [abs_lt, abs_lt, neg_lt, neg_lt (b := q), h.lt_limit_iff, h.neg.lt_limit_iff]

/-- A result that is not below a representable bound is an infinity, or a double that is not below it
either. -/
theorem Rounds.infinite_or_le {q lo : ℚ} {x : Double} (h : Rounds q x) (hlo : Representable lo)
    (hnonneg : 0 ≤ lo) (hle : lo ≤ q) :
    x = .infinite false ∨ x.isFinite = true ∧ lo ≤ x.toRat := by
  obtain ⟨r, hr, hfinite, hinfinite⟩ := h
  have hlr : lo ≤ r := (isRounding_self hlo).mono hr hle
  rcases lt_or_ge |r| limit with hlt | hge
  · obtain ⟨hx, rfl⟩ := hfinite hlt
    exact .inr ⟨hx, hlr⟩
  · left
    rw [hinfinite hge, decide_eq_false (not_lt.mpr (hnonneg.trans hlr))]

/-! ### The last bit -/

/-- The shift that leaves 53 bits of a magnitude loses none of a short one. -/
theorem div_mul_of_isShort {units : Nat} (h : IsShort units) :
    units / 2 ^ (Nat.log2 units - 52) * 2 ^ (Nat.log2 units - 52) = units := by
  obtain ⟨m, e, hm, hunits⟩ := h
  rw [twoPow_eq] at hm hunits
  refine Nat.div_mul_cancel ?_
  rcases Nat.eq_zero_or_pos units with rfl | hpos
  · exact dvd_zero _
  · have hlt : units < 2 ^ (53 + e) := by
      rw [hunits, pow_add]
      exact Nat.mul_lt_mul_of_pos_right hm (Nat.two_pow_pos e)
    have hlog := (Nat.log2_lt hpos.ne').mpr hlt
    exact (Nat.pow_dvd_pow 2 (by omega)).trans (hunits ▸ Nat.dvd_mul_left _ _)

theorem le_div_of_le_log2 {units : Nat} (h : 52 ≤ Nat.log2 units) :
    2 ^ 52 ≤ units / 2 ^ (Nat.log2 units - 52) := by
  have hne : units ≠ 0 := by
    rintro rfl
    simp at h
  rw [Nat.le_div_iff_mul_le (Nat.two_pow_pos _), ← pow_add, Nat.add_sub_cancel' h]
  exact Nat.log2_self_le hne

theorem div_lt_of_shift (units : Nat) : units / 2 ^ (Nat.log2 units - 52) < 2 ^ 53 := by
  rw [Nat.div_lt_iff_lt_mul (Nat.two_pow_pos _), ← pow_add]
  exact lt_of_lt_of_le (lt_twoPow_log2_succ units) (Nat.pow_le_pow_right two_pos (by omega))

/-- A short magnitude has an even significand in some form exactly if it has one in normal form. -/
theorem evenSignificand_iff {units : Nat} (h : IsShort units) :
    EvenSignificand (units / unitsPerOne) ↔ Even (units / 2 ^ (Nat.log2 units - 52)) := by
  have hunits := div_mul_of_isShort h
  have hlt := div_lt_of_shift units
  have hle (hpos : 0 < Nat.log2 units - 52) : 2 ^ 52 ≤ units / 2 ^ (Nat.log2 units - 52) :=
    le_div_of_le_log2 (by omega)
  generalize Nat.log2 units - 52 = shift at hunits hlt hle ⊢
  generalize units / 2 ^ shift = significand at hunits hlt hle ⊢
  constructor
  · rintro ⟨m, e, hm, heq⟩
    rw [div_left_inj' unitsPerOne_ne_zero, ← hunits] at heq
    have heq : (significand * 2 ^ shift : ℤ) = 2 * m * 2 ^ e := by exact_mod_cast heq
    rw [← Int.even_coe_nat]
    rcases Nat.lt_or_ge e shift with hfine | hcoarse
    · -- A finer scale would need a significand of more than 53 bits.
      obtain ⟨k, rfl⟩ := Nat.exists_eq_add_of_lt hfine
      have hlarge : (2 ^ 52 : ℤ) ≤ significand := by exact_mod_cast hle (by omega)
      have hpow : (1 : ℤ) ≤ 2 ^ k := one_le_pow₀ (by norm_num)
      have hscaled : (significand * 2 ^ k * 2 : ℤ) = 2 * m := by
        refine mul_right_cancel₀ (pow_ne_zero e (two_ne_zero' ℤ)) ?_
        rw [← heq]
        ring
      have := le_mul_of_one_le_right (by omega : (0 : ℤ) ≤ significand) hpow
      rw [abs_lt] at hm
      omega
    · obtain ⟨k, rfl⟩ := Nat.exists_eq_add_of_le hcoarse
      refine ⟨m * 2 ^ k, mul_right_cancel₀ (pow_ne_zero shift (two_ne_zero' ℤ)) ?_⟩
      rw [heq]
      ring
  · rintro ⟨k, rfl⟩
    refine ⟨k, shift, ?_, ?_⟩
    · rw [abs_of_nonneg (by positivity)]
      omega
    · rw [← hunits]
      push_cast
      ring

theorem even_magnitudeBits_iff (units : Nat) :
    Even (magnitudeBits units) ↔ Even (units / 2 ^ (Nat.log2 units - 52)) := by
  unfold magnitudeBits
  split
  · -- Few enough units are their own significand.
    rename_i hsmall
    have hlog : Nat.log2 units - 52 = 0 := by
      rcases Nat.eq_zero_or_pos units with rfl | hpos
      · simp
      · have := (Nat.log2_lt hpos.ne').mpr hsmall
        omega
    rw [hlog, pow_zero, Nat.div_one]
  · have heven : Even (twoPow 52) := by decide
    change Even ((Nat.log2 units - 52) * twoPow 52 + units / 2 ^ (Nat.log2 units - 52)) ↔ _
    simp [Nat.even_add, heven]

/-- The encoding of a finite double ends in a zero bit exactly if the significand is even. -/
theorem even_toBits_iff {x : Double} (hx : x.isFinite = true) :
    Even x.toBits.toNat ↔ EvenSignificand x.toRat := by
  obtain ⟨negative, units, hunits, rfl⟩ := exists_of_isFinite hx
  have hsign : EvenSignificand (toRat (.finite negative units hunits)) ↔
      EvenSignificand (units / unitsPerOne) := by
    cases negative
    · simp [toRat]
    · simp only [toRat, signed_true, Int.cast_neg, Int.cast_natCast, neg_div]
      exact ⟨fun h => by simpa using h.neg, EvenSignificand.neg⟩
  rw [hsign, evenSignificand_iff hunits.short, ← even_magnitudeBits_iff, toBits,
    UInt64.toNat_ofNat', Nat.even_iff, Nat.mod_mod_of_dvd _ (by norm_num), Nat.even_iff]
  -- The sign bit is not the last one.
  have : twoPow 63 % 2 = 0 := by decide
  split <;> omega

/-! ### The first bit -/

/-- The first bit of the encoding. -/
def signBit (x : Double) : Bool := x.toBits.toNat.testBit 63

theorem log2_lt_of_lt_limit {units : Nat} (hne : units ≠ 0) (h : units < unitsLimit) :
    Nat.log2 units < 2098 := by
  have hlog (k : Nat) (hk : units < twoPow k) : Nat.log2 units < k := (Nat.log2_lt hne).mpr hk
  exact hlog 2098 (unitsLimit_eq_twoPow ▸ h)

/-- The exponent and fraction bits leave the first bit free. -/
theorem magnitudeBits_lt {units : Nat} (h : units < unitsLimit) : magnitudeBits units < 2 ^ 63 := by
  unfold magnitudeBits
  split
  · rename_i hsmall
    rw [twoPow_eq] at hsmall
    omega
  · rename_i hlarge
    have hne : units ≠ 0 := by
      rintro rfl
      exact hlarge (twoPow_pos 52)
    have hlog := log2_lt_of_lt_limit hne h
    have hsignificand := div_lt_of_shift units
    change (Nat.log2 units - 52) * 2 ^ 52 + units / 2 ^ (Nat.log2 units - 52) < 2 ^ 63
    omega

/-- The first bit of a finite double is its sign. -/
theorem signBit_finite (negative : Bool) (units : Nat) (isMagnitude : IsMagnitude units) :
    signBit (.finite negative units isMagnitude) = negative := by
  have hlt := magnitudeBits_lt isMagnitude.lt_limit
  rw [signBit, toBits, UInt64.toNat_ofNat']
  cases negative with
  | false =>
      rw [if_neg Bool.false_ne_true, Nat.zero_add, Nat.mod_eq_of_lt (by omega)]
      exact Nat.testBit_lt_two_pow hlt
  | true =>
      rw [if_pos rfl, twoPow_eq, Nat.mod_eq_of_lt (by omega), Nat.testBit_two_pow_add_eq,
        Nat.testBit_lt_two_pow hlt, Bool.not_false]

/-! ### Nearest doubles -/

/-- No finite double is nearer to `q` than `x`, and of two that are equally near `x` is the one whose
encoding ends in a zero bit. -/
structure IsNearest (q : ℚ) (x : Double) : Prop where
  isFinite : x.isFinite = true
  nearest : ∀ y : Double, y.isFinite = true → |q - x.toRat| ≤ |q - y.toRat|
  even_of_tie : ∀ y : Double, y.isFinite = true → y.toRat ≠ x.toRat →
    |q - y.toRat| = |q - x.toRat| → Even x.toBits.toNat

theorem IsRounding.isNearest {q : ℚ} {x : Double} (h : IsRounding q x.toRat)
    (hx : x.isFinite = true) : IsNearest q x where
  isFinite := hx
  nearest y _ := h.nearest y.toRat (representable_toRat y)
  even_of_tie y _ hne htie :=
    (even_toBits_iff hx).mpr (h.even_of_tie y.toRat (representable_toRat y) hne htie)

/-- The representable numbers below the limit are the values of finite doubles. -/
theorem exists_of_representable {r : ℚ} (h : Representable r) (hlt : |r| < limit) :
    ∃ x : Double, x.isFinite = true ∧ x.toRat = r := by
  obtain ⟨m, e, hm, rfl⟩ := h
  rw [Int.abs_eq_natAbs] at hm
  have hshort : IsShort (m.natAbs * 2 ^ e) := ⟨m.natAbs, e, by rw [twoPow_eq]; omega, rfl⟩
  have hvalue : ((signed (decide (m < 0)) (m.natAbs * 2 ^ e) : ℤ) : ℚ) / unitsPerOne =
      m * 2 ^ e / unitsPerOne := by
    rw [signed_mul, signed_natAbs]
    push_cast
    rfl
  rw [← hvalue, abs_signed_div, div_unitsPerOne_lt_iff] at hlt
  exact ⟨.finite (decide (m < 0)) _ ⟨hlt, hshort⟩, rfl, hvalue⟩

/-- Of two nearest doubles neither has the larger value. -/
theorem IsNearest.le {q : ℚ} {x y : Double} (hx : IsNearest q x) (hy : IsNearest q y) :
    y.toRat ≤ x.toRat := by
  by_contra hcontra
  have hlt : x.toRat < y.toRat := not_le.mp hcontra
  have htie : |q - y.toRat| = |q - x.toRat| :=
    le_antisymm (hy.nearest x hx.isFinite) (hx.nearest y hy.isFinite)
  have hxeven := (even_toBits_iff hx.isFinite).mp (hx.even_of_tie y hy.isFinite hlt.ne' htie)
  have hyeven := (even_toBits_iff hy.isFinite).mp (hy.even_of_tie x hx.isFinite hlt.ne htie.symm)
  obtain ⟨t, ht, hxt, hty⟩ := hxeven.exists_between hyeven hlt
  obtain ⟨hlow, -⟩ := abs_lt.mp (abs_toRat_lt x)
  obtain ⟨-, hhigh⟩ := abs_lt.mp (abs_toRat_lt y)
  obtain ⟨z, hz, rfl⟩ := exists_of_representable ht (abs_lt.mpr ⟨by linarith, by linarith⟩)
  exact absurd (hx.nearest z hz) (not_le.mpr (abs_sub_lt_of_tie htie hxt hty))

theorem IsNearest.toRat_eq {q : ℚ} {x y : Double} (hx : IsNearest q x) (hy : IsNearest q y) :
    x.toRat = y.toRat :=
  le_antisymm (hy.le hx) (hx.le hy)

/-- A value that is not zero belongs to one finite double only. -/
theorem eq_of_toRat_eq {x y : Double} (hx : x.isFinite = true) (hy : y.isFinite = true)
    (h : x.toRat = y.toRat) (hne : x.toRat ≠ 0) : x = y := by
  obtain ⟨s, m, hm, rfl⟩ := exists_of_isFinite hx
  obtain ⟨t, n, hn, rfl⟩ := exists_of_isFinite hy
  rw [toRat, toRat, div_left_inj' unitsPerOne_ne_zero, Int.cast_inj] at h
  have hmn : m = n := by simpa using congrArg Int.natAbs h
  subst hmn
  have hpos : m ≠ 0 := by
    rintro rfl
    exact hne (toRat_zero s)
  have hsign : s = t := by
    cases s <;> cases t <;> simp only [signed_true, signed_false] at h
    · rfl
    · omega
    · omega
    · rfl
  rw [hsign]

theorem isZero_iff {x : Double} (hx : x.isFinite = true) : x.isZero = true ↔ x.toRat = 0 := by
  obtain ⟨negative, units, hunits, rfl⟩ := exists_of_isFinite hx
  cases negative <;> simp [isZero, toRat, zero_lt_unitsPerOne.ne']

theorem exists_eq_zero {x : Double} (hx : x.isFinite = true) (h : x.toRat = 0) :
    ∃ negative, x = .zero negative := by
  have hzero := (isZero_iff hx).mpr h
  obtain ⟨negative, units, hunits, rfl⟩ := exists_of_isFinite hx
  obtain rfl : units = 0 := beq_iff_eq.mp hzero
  exact ⟨negative, rfl⟩

/-- A nearest double that has the given sign if it is a zero. -/
structure IsNearestSigned (negative : Bool) (q : ℚ) (x : Double) : Prop extends IsNearest q x where
  eq_zero : x.isZero = true → x = .zero negative

theorem IsNearestSigned.unique {negative : Bool} {q : ℚ} {x y : Double}
    (hx : IsNearestSigned negative q x) (hy : IsNearestSigned negative q y) : x = y := by
  have hvalue := hx.toRat_eq hy.toIsNearest
  by_cases hzero : x.toRat = 0
  · rw [hx.eq_zero ((isZero_iff hx.isFinite).mpr hzero),
      hy.eq_zero ((isZero_iff hy.isFinite).mpr (hvalue ▸ hzero))]
  · exact eq_of_toRat_eq hx.isFinite hy.isFinite hvalue hzero

/-- A quotient of units that is rounded to zero keeps its sign. -/
theorem ofRatio_of_isZero {negative : Bool} {num den : Nat}
    (h : (ofRatio negative num den).isZero = true) : ofRatio negative num den = .zero negative := by
  unfold ofRatio ofUnits at h ⊢
  split at h
  · rename_i hlt
    rw [isZero, beq_iff_eq] at h
    simp only [h, zero_lt_unitsLimit, dif_pos, zero]
  · cases h

/-! ### The least positive double -/

/-- The value of the least positive double. -/
def least : ℚ := 1 / 2 ^ 1074

theorem least_eq : least = 1 / unitsPerOne := by
  rw [least, unitsPerOne_eq_two_pow, unitShift]

theorem least_pos : 0 < least := by
  rw [least]
  positivity

theorem least_lt_one : least < 1 := by
  rw [least, div_lt_one (by positivity)]
  exact one_lt_pow₀ one_lt_two (by decide)

theorem representable_least : Representable least :=
  ⟨1, 0, by norm_num, by rw [least_eq, Int.cast_one, pow_zero, mul_one]⟩

theorem representable_two_mul_least : Representable (2 * least) :=
  ⟨2, 0, by norm_num, by rw [least_eq, Int.cast_ofNat, pow_zero, mul_one, mul_one_div]⟩

/-- A finite double above zero is positive in sign and has one least unit at least. -/
theorem exists_of_toRat_pos {x : Double} (h : 0 < x.toRat) :
    ∃ units isMagnitude, x = .finite false units isMagnitude ∧ 0 < units := by
  cases x with
  | nan => simp [toRat] at h
  | infinite negative => simp [toRat] at h
  | finite negative units isMagnitude =>
      rw [toRat, div_pos_iff_of_pos_right unitsPerOne_pos, Int.cast_pos] at h
      cases negative with
      | false => exact ⟨units, isMagnitude, rfl, by simpa using h⟩
      | true =>
          rw [signed_true] at h
          omega

theorem eq_least_or_two_mul_least_le {x : Double} (h : 0 < x.toRat) :
    x.toRat = least ∨ 2 * least ≤ x.toRat := by
  obtain ⟨units, isMagnitude, rfl, hpos⟩ := exists_of_toRat_pos h
  rw [toRat, signed_false, Int.cast_natCast, least_eq]
  rcases (Nat.succ_le_of_lt hpos).eq_or_lt with rfl | htwo
  · exact .inl (by rw [Nat.succ_eq_add_one, zero_add, Nat.cast_one])
  · right
    have htwo : (2 : ℚ) ≤ units := by exact_mod_cast htwo
    rw [mul_one_div]
    exact div_le_div_of_nonneg_right htwo unitsPerOne_pos.le

/-- Half of the least positive double is a tie that goes to zero. -/
theorem isRounding_half_least : IsRounding (least / 2) 0 := by
  refine ⟨representable_zero, ?_, ?_⟩
  · rintro s ⟨m, e, hm, rfl⟩
    -- No whole number of least units is nearer to one half of a unit than zero.
    obtain ⟨k, hk⟩ : ∃ k : ℤ, (m * 2 ^ e / unitsPerOne : ℚ) = k * least :=
      ⟨m * 2 ^ e, by rw [least_eq, mul_one_div]; push_cast; rfl⟩
    have hpos := least_pos
    rw [hk, sub_zero, abs_of_pos (by linarith)]
    rcases le_or_gt k 0 with hle | hgt
    · have hle : (k : ℚ) ≤ 0 := by exact_mod_cast hle
      exact le_abs.mpr (.inl (by nlinarith))
    · have hge : (1 : ℚ) ≤ k := by exact_mod_cast hgt
      exact le_abs.mpr (.inr (by nlinarith))
  · intro s _ _ _
    exact ⟨0, 0, by norm_num, by simp⟩

end Double
end Reckoner
