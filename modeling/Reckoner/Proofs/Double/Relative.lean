import Mathlib.Algebra.Order.Archimedean.Basic
import Mathlib.Algebra.Order.Round
import Reckoner.Proofs.Double.Value

/-!
# Relative error of rounding

A rounding of a number that is not too small is off by one part in `2 ^ 53` at most.  Below
`leastNormal` the least unit is too coarse for that, and nothing is said.  `Within k q x` carries this
through a calculation with `k` roundings.

Finite doubles are compared by their values, and a difference of finite doubles is the exact one, rounded.
-/

namespace Reckoner
namespace Double

/-- The greatest relative error of a rounding. -/
def roundoff : ℚ := 1 / 2 ^ 53

/-- From here on, 53 significant bits are at least as fine as the relative error. -/
def leastNormal : ℚ := 1 / 2 ^ 1022

theorem roundoff_pos : 0 < roundoff := by
  unfold roundoff
  positivity

theorem leastNormal_mul_unitsPerOne : leastNormal * unitsPerOne = 2 ^ 52 := by
  have hunits : (unitsPerOne : ℚ) = 2 ^ 1022 * 2 ^ 52 := by
    rw [unitsPerOne_eq, twoPow_eq, Nat.cast_pow, Nat.cast_ofNat, ← pow_add]
  rw [leastNormal, hunits, one_div, inv_mul_cancel_left₀ (pow_ne_zero _ two_ne_zero)]

theorem leastNormal_le : leastNormal ≤ 1 / 2 ^ 10 :=
  one_div_le_one_div_of_le (by positivity) (pow_le_pow_right₀ one_le_two (by decide))

/-- A significand that a carry has made a power of two is representable too. -/
theorem representable_of_le {m : ℤ} (hnonneg : 0 ≤ m) (hle : m ≤ 2 ^ 53) (e : ℕ) :
    Representable (m * 2 ^ e / unitsPerOne) := by
  rcases hle.lt_or_eq with hlt | rfl
  · exact ⟨m, e, by rwa [abs_of_nonneg hnonneg], rfl⟩
  · refine ⟨2 ^ 52, e + 1, by norm_num, ?_⟩
    push_cast
    ring

/-- A number of at least `2 ^ 52` units has 53 bits at one scale. -/
theorem exists_scale {units : ℚ} (h : 2 ^ 52 ≤ units) :
    ∃ shift : ℕ, 2 ^ 52 * 2 ^ shift ≤ units ∧ units < 2 ^ 53 * 2 ^ shift := by
  obtain ⟨shift, hlow, hhigh⟩ := exists_nat_pow_near
    (show (1 : ℚ) ≤ units / 2 ^ 52 by rwa [one_le_div (by positivity)]) one_lt_two
  refine ⟨shift, ?_, ?_⟩
  · rw [le_div_iff₀ (by positivity)] at hlow
    linarith
  · rw [div_lt_iff₀ (by positivity), pow_succ] at hhigh
    linarith

/-- A number below `2 ^ 53` is rounded to a whole number of 53 bits, or to `2 ^ 53` itself. -/
theorem round_mem {x : ℚ} (hnonneg : 0 ≤ x) (hlt : x < 2 ^ 53) : 0 ≤ round x ∧ round x ≤ 2 ^ 53 := by
  constructor
  · rw [round_eq]
    exact Int.floor_nonneg.mpr (by positivity)
  · rw [← Int.lt_add_one_iff]
    have hnear := (abs_le.mp (abs_sub_round x)).1
    have hround : (round x : ℚ) < 2 ^ 53 + 1 := by linarith
    exact_mod_cast hround

/-- Near a positive number that is not too small there is a representable one. -/
theorem exists_representable_near {q : ℚ} (hq : leastNormal ≤ q) :
    ∃ s, Representable s ∧ |q - s| ≤ roundoff * q := by
  have hunit := unitsPerOne_pos
  obtain ⟨units, hunits⟩ : ∃ units : ℚ, units = q * unitsPerOne := ⟨_, rfl⟩
  have hlarge : (2 : ℚ) ^ 52 ≤ units := by
    rw [hunits, ← leastNormal_mul_unitsPerOne]
    exact mul_le_mul_of_nonneg_right hq hunit.le
  obtain ⟨shift, hlow, hhigh⟩ := exists_scale hlarge
  have hscale : (0 : ℚ) < 2 ^ shift := by positivity
  have hnonneg : 0 ≤ units / 2 ^ shift :=
    div_nonneg (le_trans (by positivity) hlarge) hscale.le
  obtain ⟨hround, hround'⟩ := round_mem hnonneg (by rwa [div_lt_iff₀ hscale])
  refine ⟨_, representable_of_le hround hround' shift, ?_⟩
  have hdistance : q - round (units / 2 ^ shift) * 2 ^ shift / unitsPerOne =
      (units / 2 ^ shift - round (units / 2 ^ shift)) * 2 ^ shift / unitsPerOne := by
    rw [sub_mul, sub_div, div_mul_cancel₀ _ hscale.ne', hunits, mul_div_cancel_right₀ _ hunit.ne']
  rw [hdistance, abs_div, abs_mul, abs_of_pos hscale, abs_of_pos hunit, div_le_iff₀ hunit]
  -- Half a step of the scale is one part in `2 ^ 53` of the least number that needs it.
  calc |units / 2 ^ shift - round (units / 2 ^ shift)| * 2 ^ shift
      ≤ 1 / 2 * 2 ^ shift := mul_le_mul_of_nonneg_right (abs_sub_round _) hscale.le
    _ = roundoff * (2 ^ 52 * 2 ^ shift) := by rw [roundoff]; ring
    _ ≤ roundoff * units := mul_le_mul_of_nonneg_left hlow roundoff_pos.le
    _ = roundoff * q * unitsPerOne := by rw [hunits, mul_assoc]

/-- The rounding of a positive number that is not too small is off by `roundoff` of it at most. -/
theorem IsRounding.abs_sub_le {q r : ℚ} (h : IsRounding q r) (hq : leastNormal ≤ q) :
    |q - r| ≤ roundoff * q := by
  obtain ⟨s, hs, hnear⟩ := exists_representable_near hq
  exact (h.nearest s hs).trans hnear

/-- A finite result is the rounding of the exact one. -/
theorem Rounds.isRounding {q : ℚ} {x : Double} (h : Rounds q x) (hx : x.isFinite = true) :
    IsRounding q x.toRat := by
  obtain ⟨r, hr⟩ := exists_isRounding q
  rwa [h.toRat_eq hr ((h.isFinite_iff hr).mp hx)]

/-! ### Several roundings -/

/-- The number `x` is not farther from `q` than `k` roundings can take it. -/
structure Within (k : ℕ) (q x : ℚ) : Prop where
  lower : (1 - roundoff) ^ k * q ≤ x
  upper : x ≤ (1 + roundoff) ^ k * q

theorem one_sub_roundoff_pow_mem (k : ℕ) :
    0 < (1 - roundoff) ^ k ∧ (1 - roundoff) ^ k ≤ 1 := by
  have hu : roundoff < 1 := by norm_num [roundoff]
  have hpos := roundoff_pos
  exact ⟨pow_pos (by linarith) k, pow_le_one₀ (by linarith) (by linarith)⟩

theorem one_le_one_add_roundoff_pow (k : ℕ) : 1 ≤ (1 + roundoff) ^ k :=
  one_le_pow₀ (by linarith [roundoff_pos])

theorem IsRounding.within {q r : ℚ} (h : IsRounding q r) (hq : leastNormal ≤ q) :
    Within 1 q r := by
  obtain ⟨hlow, hhigh⟩ := abs_le.mp (h.abs_sub_le hq)
  constructor <;> rw [pow_one] <;> linarith

namespace Within

variable {k l : ℕ} {q x y : ℚ}

theorem trans (h : Within k q x) (h' : Within l x y) : Within (k + l) q y where
  lower := by
    rw [pow_add, mul_comm (_ ^ k), mul_assoc]
    exact (mul_le_mul_of_nonneg_left h.lower (one_sub_roundoff_pow_mem l).1.le).trans h'.lower
  upper := by
    have hpos : 0 ≤ (1 + roundoff) ^ l := zero_le_one.trans (one_le_one_add_roundoff_pow l)
    rw [pow_add, mul_comm (_ ^ k), mul_assoc]
    exact h'.upper.trans (mul_le_mul_of_nonneg_left h.upper hpos)

/-- What is added exactly and is not negative makes the error no larger. -/
theorem add_left (h : Within k q x) {a : ℚ} (ha : 0 ≤ a) : Within k (a + q) (a + x) where
  lower := by
    have := mul_le_of_le_one_left ha (one_sub_roundoff_pow_mem k).2
    linarith [h.lower]
  upper := by
    have := le_mul_of_one_le_left ha (one_le_one_add_roundoff_pow k)
    linarith [h.upper]

theorem div_right (h : Within k q x) {a : ℚ} (ha : 0 < a) : Within k (q / a) (x / a) where
  lower := by
    rw [← mul_div_assoc]
    exact div_le_div_of_nonneg_right h.lower ha.le
  upper := by
    rw [← mul_div_assoc]
    exact div_le_div_of_nonneg_right h.upper ha.le

theorem sq (h : Within k q x) (hq : 0 ≤ q) : Within (k * 2) (q ^ 2) (x ^ 2) where
  lower := by
    rw [pow_mul, ← mul_pow]
    exact pow_le_pow_left₀ (mul_nonneg (one_sub_roundoff_pow_mem k).1.le hq) h.lower 2
  upper := by
    have hx : 0 ≤ x := (mul_nonneg (one_sub_roundoff_pow_mem k).1.le hq).trans h.lower
    rw [pow_mul, ← mul_pow]
    exact pow_le_pow_left₀ hx h.upper 2

end Within

/-! ### Comparisons -/

theorem lt_iff_toRat_lt {x y : Double} (hx : x.isFinite = true) (hy : y.isFinite = true) :
    x.lt y = true ↔ x.toRat < y.toRat := by
  obtain ⟨s, m, hm, rfl⟩ := exists_of_isFinite hx
  obtain ⟨t, n, hn, rfl⟩ := exists_of_isFinite hy
  rw [lt, exact, exact, Exact.lt, decide_eq_true_eq, toRat, toRat,
    div_lt_div_iff_of_pos_right unitsPerOne_pos, Int.cast_lt]

theorem isFinite_neg {x : Double} (hx : x.isFinite = true) : x.neg.isFinite = true := by
  obtain ⟨s, m, hm, rfl⟩ := exists_of_isFinite hx
  rfl

theorem toRat_neg (x : Double) : x.neg.toRat = -x.toRat := by
  cases x with
  | nan => rfl
  | infinite negative => rfl
  | finite negative units isMagnitude => cases negative <;> simp [neg, toRat, neg_div]

theorem toRat_abs (x : Double) : x.abs.toRat = |x.toRat| := by
  cases x with
  | nan => simp [abs, toRat]
  | infinite negative => simp [abs, toRat]
  | finite negative units isMagnitude => rw [abs, toRat, toRat, abs_signed_div, signed_false,
      Int.cast_natCast]

theorem rounds_sub {x y : Double} (hx : x.isFinite = true) (hy : y.isFinite = true) :
    Rounds (x.toRat - y.toRat) (x.sub y) := by
  rw [sub_eq_add_neg, ← toRat_neg]
  exact rounds_add hx (isFinite_neg hy)

/-! ### Integers as doubles -/

theorem ofInt?_eq_ok_iff {n : Int} {x : Double} :
    ofInt? n = .ok x ↔ x.isFinite = true ∧ x = ofInt n := by
  unfold ofInt?
  rcases (rounds_ofInt n).finite_or_infinite with hfinite | ⟨negative, hinfinite⟩
  · rw [orFault_of_isFinite hfinite, Except.ok.injEq]
    exact ⟨fun h => ⟨h ▸ hfinite, h.symm⟩, fun h => h.2.symm⟩
  · rw [hinfinite, orFault]
    constructor
    · intro h
      cases h
    · rintro ⟨hx, rfl⟩
      cases hx

/-- An integer that becomes a double becomes the nearest one. -/
theorem isRounding_of_ofInt? {n : Int} {x : Double} (h : ofInt? n = .ok x) :
    x.isFinite = true ∧ IsRounding n x.toRat := by
  obtain ⟨hx, rfl⟩ := ofInt?_eq_ok_iff.mp h
  exact ⟨hx, (rounds_ofInt n).isRounding hx⟩

/-- An integer of at most 53 bits below a converted one stays below it. -/
theorem le_toRat_of_ofInt? {m n : Int} {x : Double} (hm : |m| < 2 ^ 53) (hle : m ≤ n)
    (h : ofInt? n = .ok x) : (m : ℚ) ≤ x.toRat :=
  (isRounding_self (representable_intCast hm)).mono (isRounding_of_ofInt? h).2
    (by exact_mod_cast hle)

/-- An integer of at most 53 bits above a converted one stays above it. -/
theorem toRat_le_of_ofInt? {m n : Int} {x : Double} (hm : |m| < 2 ^ 53) (hle : n ≤ m)
    (h : ofInt? n = .ok x) : x.toRat ≤ m :=
  (isRounding_of_ofInt? h).2.mono (isRounding_self (representable_intCast hm))
    (by exact_mod_cast hle)

end Double
end Reckoner
