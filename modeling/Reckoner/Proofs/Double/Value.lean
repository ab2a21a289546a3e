import Mathlib.Algebra.Order.Round
import Mathlib.Data.Rat.Floor
import Reckoner.Double.Arithmetic
import Reckoner.Proofs.Double.Nearest

/-!
# Values of doubles

Finite doubles have rational values, and every operation is the exact operation on values followed
by one correct rounding.  `Rounds q x` is the common form of these statements: the double `x` is
what a result of exact value `q` becomes, overflow included.

Signs of zeros are not part of a value; nothing is said about them here.
-/

namespace Reckoner

theorem signed_mul (negative : Bool) (m n : Nat) :
    signed negative (m * n) = signed negative m * n := by
  cases negative <;> simp

namespace Double

/-- The exact value of a finite double.  The others have none, and zero stands for it. -/
def toRat : Double → ℚ
  | .finite negative units _ => (signed negative units : ℤ) / unitsPerOne
  | _ => 0

/-- The first power of two above every finite double. -/
def limit : ℚ := 2 ^ 1024

/-- The double `x` is the rational `q`, rounded correctly; a rounding from `limit` on is an
infinity. -/
def Rounds (q : ℚ) (x : Double) : Prop :=
  ∃ r, IsRounding q r ∧ (|r| < limit → x.isFinite = true ∧ x.toRat = r) ∧
    (limit ≤ |r| → x = .infinite (decide (r < 0)))

@[simp] theorem toRat_zero (negative : Bool) : (zero negative).toRat = 0 := by
  cases negative <;> simp [zero, toRat]

theorem exists_of_isFinite {x : Double} (h : x.isFinite = true) :
    ∃ negative units isMagnitude, x = .finite negative units isMagnitude := by
  cases x with
  | nan => cases h
  | infinite negative => cases h
  | finite negative units isMagnitude => exact ⟨negative, units, isMagnitude, rfl⟩

/-- Above zero are the positive infinity and the finite doubles of positive value. -/
theorem zero_lt_iff {x : Double} :
    (zero false).lt x = true ↔ x = .infinite false ∨ x.isFinite = true ∧ 0 < x.toRat := by
  cases x with
  | nan => simp [lt, exact, Exact.lt, isFinite]
  | infinite negative => cases negative <;> simp [lt, exact, Exact.lt, zero, isFinite]
  | finite negative units isMagnitude =>
      have hunits : (0 : ℚ) < unitsPerOne := Nat.cast_pos.mpr zero_lt_unitsPerOne
      simp [lt, exact, Exact.lt, zero, isFinite, toRat, div_pos_iff_of_pos_right hunits]

theorem limit_pos : 0 < limit := pow_pos two_pos 1024

theorem unitsLimit_eq : (unitsLimit : ℚ) = limit * unitsPerOne := by
  have h : unitsLimit = 2 ^ 1024 * unitsPerOne := by
    rw [unitsLimit_eq_twoPow, unitsPerOne_eq, ← twoPow_eq, ← twoPow_add]
  rw [h, Nat.cast_mul, Nat.cast_pow, Nat.cast_ofNat, limit]

/-- The limit on units is the limit on values. -/
theorem div_unitsPerOne_lt_iff (units : Nat) :
    (units / unitsPerOne : ℚ) < limit ↔ units < unitsLimit := by
  rw [div_lt_iff₀ unitsPerOne_pos, ← unitsLimit_eq, Nat.cast_lt]

theorem abs_signed_div (negative : Bool) (units : Nat) :
    |((signed negative units : ℤ) : ℚ) / unitsPerOne| = units / unitsPerOne := by
  rw [abs_div, abs_of_pos unitsPerOne_pos]
  cases negative <;> simp

theorem representable_zero : Representable 0 := ⟨0, 0, by norm_num, by simp⟩

/-- Finite doubles hold representable numbers. -/
theorem representable_toRat (x : Double) : Representable x.toRat := by
  cases x with
  | nan => exact representable_zero
  | infinite negative => exact representable_zero
  | finite negative units isMagnitude =>
      have h := representable_of_isShort isMagnitude.short
      cases negative
      · simpa [toRat] using h
      · simpa [toRat, neg_div] using h.neg

theorem abs_toRat_lt (x : Double) : |x.toRat| < limit := by
  cases x with
  | nan => simpa [toRat] using limit_pos
  | infinite negative => simpa [toRat] using limit_pos
  | finite negative units isMagnitude =>
      rw [toRat, abs_signed_div, div_unitsPerOne_lt_iff]
      exact isMagnitude.lt_limit

/-- How many binary places one is above the least unit. -/
def unitShift : ℕ := 1074

theorem unitsPerOne_eq_two_pow : (unitsPerOne : ℚ) = 2 ^ unitShift := by
  rw [unitsPerOne_eq, twoPow_eq, Nat.cast_pow, Nat.cast_ofNat, unitShift]

theorem mul_two_pow_div_unitsPerOne (z : ℚ) (k : ℕ) :
    z * 2 ^ (k + unitShift) / unitsPerOne = z * 2 ^ k := by
  rw [unitsPerOne_eq_two_pow, pow_add, ← mul_assoc, mul_div_cancel_right₀ _ (by positivity)]

/-- Whole numbers of at most 53 significant bits are representable. -/
theorem representable_mul_two_pow {m : ℤ} (h : |m| < 2 ^ 53) (k : ℕ) : Representable (m * 2 ^ k) :=
  ⟨m, k + unitShift, h, (mul_two_pow_div_unitsPerOne m k).symm⟩

theorem representable_two_pow (k : ℕ) : Representable (2 ^ k) := by
  have h := representable_mul_two_pow (m := 1) (by norm_num) k
  rwa [Int.cast_one, one_mul] at h

theorem representable_intCast {n : ℤ} (h : |n| < 2 ^ 53) : Representable n := by
  have h := representable_mul_two_pow h 0
  rwa [pow_zero, mul_one] at h

theorem abs_intCast_lt_limit {n : ℤ} (h : |n| < 2 ^ 53) : |(n : ℚ)| < limit := by
  have hpow : (2 : ℚ) ^ 53 ≤ limit := pow_le_pow_right₀ one_le_two (by decide)
  have hlt : |(n : ℚ)| < 2 ^ 53 := by exact_mod_cast h
  linarith

/-- The limit is the next number after the largest finite double. -/
theorem representable_limit : Representable limit := representable_two_pow 1024

/-- Halving a representable number that is not small loses no bit. -/
theorem Representable.half {r : ℚ} (h : Representable r) (hone : 1 ≤ |r|) :
    Representable (r / 2) := by
  obtain ⟨m, e, hm, rfl⟩ := h
  cases e with
  | zero =>
      -- Without a shift there are fewer than `2 ^ 53` least units, which is far below one.
      have hunits : (2 : ℚ) ^ 53 ≤ unitsPerOne := by
        rw [unitsPerOne_eq, ← Nat.cast_ofNat, ← Nat.cast_pow, ← twoPow_eq, Nat.cast_le]
        exact twoPow_le_twoPow (by decide)
      have hlt : |(m : ℚ)| < 2 ^ 53 := by exact_mod_cast hm
      rw [pow_zero, mul_one, abs_div, abs_of_pos unitsPerOne_pos, le_div_iff₀ unitsPerOne_pos,
        one_mul] at hone
      linarith
  | succ e =>
      refine ⟨m, e, hm, ?_⟩
      rw [pow_succ]
      ring

/-! ### What follows from a rounding -/

/-- A result between two representable bounds stays between them. -/
theorem Rounds.mem_interval {q lo hi : ℚ} {x : Double} (h : Rounds q x)
    (hlo : Representable lo) (hhi : Representable hi) (hlow : lo ≤ q) (hhigh : q ≤ hi)
    (hmin : -limit < lo) (hmax : hi < limit) :
    x.isFinite = true ∧ lo ≤ x.toRat ∧ x.toRat ≤ hi := by
  obtain ⟨r, hr, hfinite, -⟩ := h
  have hlr : lo ≤ r := (isRounding_self hlo).mono hr hlow
  have hrh : r ≤ hi := hr.mono (isRounding_self hhi) hhigh
  obtain ⟨hx, rfl⟩ := hfinite (abs_lt.mpr ⟨hmin.trans_le hlr, hrh.trans_lt hmax⟩)
  exact ⟨hx, hlr, hrh⟩

/-- A representable result below the limit is exact. -/
theorem Rounds.eq_of_representable {q : ℚ} {x : Double} (h : Rounds q x)
    (hq : Representable q) (hlt : |q| < limit) : x.isFinite = true ∧ x.toRat = q := by
  obtain ⟨r, hr, hfinite, -⟩ := h
  obtain rfl := hr.eq_of_representable hq
  exact hfinite hlt

/-- A result is finite exactly when its rounding is below the limit. -/
theorem Rounds.isFinite_iff {q r : ℚ} {x : Double} (h : Rounds q x) (hr : IsRounding q r) :
    x.isFinite = true ↔ |r| < limit := by
  obtain ⟨r', hr', hfinite, hinfinite⟩ := h
  obtain rfl := hr.unique hr'
  constructor
  · intro hx
    by_contra hlt
    rw [hinfinite (not_lt.mp hlt)] at hx
    cases hx
  · exact fun hlt => (hfinite hlt).1

theorem Rounds.toRat_eq {q r : ℚ} {x : Double} (h : Rounds q x) (hr : IsRounding q r)
    (hlt : |r| < limit) : x.toRat = r := by
  obtain ⟨r', hr', hfinite, -⟩ := h
  obtain rfl := hr.unique hr'
  exact (hfinite hlt).2

/-- What is not finite after a rounding is an infinity. -/
theorem Rounds.finite_or_infinite {q : ℚ} {x : Double} (h : Rounds q x) :
    x.isFinite = true ∨ ∃ negative, x = .infinite negative := by
  obtain ⟨r, -, hfinite, hinfinite⟩ := h
  rcases lt_or_ge |r| (limit) with hlt | hge
  · exact .inl (hfinite hlt).1
  · exact .inr ⟨_, hinfinite hge⟩

/-- A number whose rounding is below a representable one is below it itself. -/
theorem IsRounding.abs_lt_of_representable {q r s : ℚ} (h : IsRounding q r)
    (hs : Representable s) (hlt : |r| < s) : |q| < s := by
  rw [abs_lt] at hlt ⊢
  constructor
  · by_contra hle
    have := h.mono (isRounding_self hs.neg) (not_lt.mp hle)
    linarith
  · by_contra hle
    have := (isRounding_self hs).mono h (not_lt.mp hle)
    linarith

theorem IsRounding.abs_lt_limit {q r : ℚ} (h : IsRounding q r) (hlt : |r| < limit) :
    |q| < limit :=
  h.abs_lt_of_representable representable_limit hlt

/-! ### The operations -/

theorem isRounding_signed (negative : Bool) (num : Nat) {den : Nat} (hden : 0 < den) :
    IsRounding ((signed negative num : ℤ) / den / unitsPerOne)
      ((signed negative (roundUnits num den) : ℤ) / unitsPerOne) := by
  have h := isRounding_roundUnits num hden
  cases negative
  · simpa using h
  · simpa [neg_div] using h.neg

theorem rounds_ofRatio (negative : Bool) (num : Nat) {den : Nat} (hden : 0 < den) :
    Rounds ((signed negative num : ℤ) / den / unitsPerOne) (ofRatio negative num den) := by
  refine ⟨_, isRounding_signed negative num hden, ?_, ?_⟩
  · intro hlt
    rw [abs_signed_div, div_unitsPerOne_lt_iff] at hlt
    rw [ofRatio, ofUnits, dif_pos hlt]
    exact ⟨rfl, rfl⟩
  · intro hge
    rw [abs_signed_div, ← not_lt, div_unitsPerOne_lt_iff] at hge
    have hpos : (0 : ℚ) < roundUnits num den := by
      exact_mod_cast lt_of_lt_of_le zero_lt_unitsLimit (not_lt.mp hge)
    have hunit := unitsPerOne_pos
    rw [ofRatio, ofUnits, dif_neg hge]
    cases negative
    · rw [signed_false, Int.cast_natCast, decide_eq_false (not_lt.mpr (div_pos hpos hunit).le)]
    · rw [signed_true, Int.cast_neg, Int.cast_natCast, neg_div,
        decide_eq_true (neg_lt_zero.mpr (div_pos hpos hunit))]

/-- Every rational has a rounding. -/
theorem exists_isRounding (q : ℚ) : ∃ r, IsRounding q r := by
  have h := isRounding_signed (decide (q.num < 0)) (q.num.natAbs * unitsPerOne) q.den_pos
  have hq : ((signed (decide (q.num < 0)) (q.num.natAbs * unitsPerOne) : ℤ) : ℚ) / q.den /
      unitsPerOne = q := by
    rw [signed_mul, signed_natAbs, Int.cast_mul, Int.cast_natCast, div_right_comm,
      mul_div_cancel_right₀ _ unitsPerOne_ne_zero, Rat.num_div_den]
  rw [hq] at h
  exact ⟨_, h⟩

/-- The sign of a quotient comes from the signs of its parts. -/
theorem signed_bne_div (s t : Bool) (m n : Nat) :
    ((signed (s != t) m : ℤ) : ℚ) / n = (signed s m : ℤ) / (signed t n : ℤ) := by
  cases s <;> cases t <;> simp [neg_div, div_neg]

theorem rounds_zero (negative : Bool) : Rounds 0 (zero negative) := by
  refine ⟨0, isRounding_self representable_zero, fun _ => ⟨rfl, toRat_zero negative⟩, ?_⟩
  intro hge
  rw [abs_zero] at hge
  exact absurd hge (not_le.mpr limit_pos)

theorem rounds_ofInt (n : Int) : Rounds n (ofInt n) := by
  have h := rounds_ofRatio (decide (n < 0)) (n.natAbs * unitsPerOne) Nat.one_pos
  rwa [signed_mul, signed_natAbs, Int.cast_mul, Int.cast_natCast, Nat.cast_one, div_one,
    mul_div_cancel_right₀ _ unitsPerOne_ne_zero] at h

/-- The rounding inside `quotient?`. -/
theorem rounds_quotient (a : Int) {b : Int} (hb : b ≠ 0) :
    Rounds (a / b) (ofRatio (decide (a < 0) != decide (b < 0)) (a.natAbs * unitsPerOne)
      b.natAbs) := by
  have h := rounds_ofRatio (decide (a < 0) != decide (b < 0)) (a.natAbs * unitsPerOne)
    (Int.natAbs_pos.mpr hb)
  rwa [signed_bne_div, signed_mul, signed_natAbs, signed_natAbs, Int.cast_mul, Int.cast_natCast,
    div_right_comm, mul_div_cancel_right₀ _ unitsPerOne_ne_zero] at h

theorem rounds_add {x y : Double} (hx : x.isFinite = true) (hy : y.isFinite = true) :
    Rounds (x.toRat + y.toRat) (x.add y) := by
  obtain ⟨s, m, hm, rfl⟩ := exists_of_isFinite hx
  obtain ⟨t, n, hn, rfl⟩ := exists_of_isFinite hy
  have hsum : toRat (.finite s m hm) + toRat (.finite t n hn) =
      ((signed s m + signed t n : ℤ) : ℚ) / unitsPerOne := by
    rw [toRat, toRat, ← add_div]
    push_cast
    rfl
  rw [hsum]
  simp only [add]
  split
  · rename_i hzero
    rw [hzero, Int.cast_zero, zero_div]
    exact rounds_zero _
  · have h := rounds_ofRatio (decide (signed s m + signed t n < 0))
      (signed s m + signed t n).natAbs Nat.one_pos
    rwa [signed_natAbs, Nat.cast_one, div_one] at h

theorem rounds_div {x y : Double} (hx : x.isFinite = true) (hy : y.isFinite = true)
    (hne : y.toRat ≠ 0) : Rounds (x.toRat / y.toRat) (x.div y) := by
  obtain ⟨s, m, hm, rfl⟩ := exists_of_isFinite hx
  obtain ⟨t, n, hn, rfl⟩ := exists_of_isFinite hy
  have hpos : 0 < n := by
    rw [Nat.pos_iff_ne_zero]
    rintro rfl
    exact hne (toRat_zero t)
  have h := rounds_ofRatio (s != t) (m * unitsPerOne) hpos
  rw [signed_bne_div, signed_mul, Int.cast_mul, Int.cast_natCast, div_right_comm,
    mul_div_cancel_right₀ _ unitsPerOne_ne_zero] at h
  simp only [div, if_neg hpos.ne', toRat]
  rwa [div_div_div_cancel_right₀ unitsPerOne_ne_zero]

/-! ### Conversions -/

theorem eq_of_orFault_eq_ok {fault : Fault} {x y : Double} (h : x.orFault fault = .ok y) :
    y = x := by
  cases x with
  | nan => exact (Except.ok.inj h).symm
  | infinite negative => cases h
  | finite negative units isMagnitude => exact (Except.ok.inj h).symm

/-- The whole part of a rational, toward zero. -/
def towardZero (q : ℚ) : ℤ := if q < 0 then ⌈q⌉ else ⌊q⌋

theorem towardZero_of_nonneg {q : ℚ} (h : 0 ≤ q) : towardZero q = ⌊q⌋ := if_neg (not_lt.mpr h)

@[simp] theorem towardZero_neg (q : ℚ) : towardZero (-q) = -towardZero q := by
  unfold towardZero
  rcases lt_trichotomy q 0 with hneg | rfl | hpos
  · rw [if_neg (by linarith), if_pos hneg, Int.floor_neg]
  · simp
  · rw [if_pos (by linarith), if_neg (by linarith), Int.ceil_neg]

theorem truncate_eq {x : Double} (h : x.isFinite = true) :
    x.truncate = .ok (towardZero x.toRat) := by
  obtain ⟨negative, units, hunits, rfl⟩ := exists_of_isFinite h
  have hnonneg : (0 : ℚ) ≤ units / unitsPerOne := div_nonneg (Nat.cast_nonneg _) unitsPerOne_pos.le
  have hwhole : towardZero (units / unitsPerOne) = (units / unitsPerOne : Nat) := by
    rw [towardZero_of_nonneg hnonneg, Rat.floor_natCast_div_natCast, Int.natCast_ediv]
  cases negative
  · rw [truncate, toRat, signed_false, signed_false, Int.cast_natCast, hwhole]
  · rw [truncate, toRat, signed_true, signed_true, Int.cast_neg, Int.cast_natCast, neg_div,
      towardZero_neg, hwhole]

/-- The whole part of a double is not above its magnitude. -/
theorem abs_towardZero_le (q : ℚ) : |(towardZero q : ℚ)| ≤ |q| := by
  wlog hq : 0 ≤ q
  · have h := this (-q) (by linarith)
    rwa [towardZero_neg, Int.cast_neg, abs_neg, abs_neg] at h
  · rw [towardZero_of_nonneg hq, abs_of_nonneg hq,
      abs_of_nonneg (by exact_mod_cast Int.floor_nonneg.mpr hq)]
    exact Int.floor_le q

theorem natAbs_towardZero_lt (x : Double) : ((towardZero x.toRat).natAbs : ℚ) < limit := by
  have h := lt_of_le_of_lt (abs_towardZero_le x.toRat) (abs_toRat_lt x)
  rwa [← Int.cast_abs, Int.abs_eq_natAbs, Int.cast_natCast] at h

end Double
end Reckoner
