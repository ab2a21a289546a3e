import Mathlib.Data.Int.GCD
import Mathlib.Data.Nat.Prime.Basic
import Mathlib.Data.Nat.Sqrt
import Reckoner.Integer

/-!
# Primality and common divisors

Trial division and repeated remainders are loops.  `endsWithin` runs a loop turn by turn, so that the
number of turns is part of what is shown: trial division of `n` ends within a sixth of the square root
of `n`, repeated remainders within the absolute value of the second argument.

Trial division accepts the primes and nothing else.  The invariant is that no number from two on
below the position divides `n`; a turn of the wheel steps over four numbers without trying them, and
each of these is a multiple of two or three.

Repeated remainders keep the greatest common divisor up to its sign, and they keep the sign of the
second argument as long as it is not zero.  The bound on their turns is not sharp.
-/

namespace Reckoner
namespace Integer

/-! ### Loops -/

section Loops

variable {σ ρ : Type}

/-- The answer of a loop, if it ends within the given number of turns.  A step ends the loop with an
answer, or is a turn to the next state. -/
def endsWithin (step : σ → ρ ⊕ σ) : Nat → σ → Option ρ
  | 0, s => (step s).getLeft?
  | turns + 1, s => (step s).elim some (endsWithin step turns)

/-- A loop ends within as many turns as a measure allows that every turn lowers. -/
theorem endsWithin_eq_some {step : σ → ρ ⊕ σ} {answer : σ → ρ} (measure : σ → Nat)
    (hanswer : ∀ s, answer s = (step s).elim id answer)
    (hmeasure : ∀ s t, step s = .inr t → measure t < measure s) {turns : Nat} {s : σ}
    (h : measure s ≤ turns) : endsWithin step turns s = some (answer s) := by
  induction turns generalizing s with
  | zero =>
      rw [endsWithin, hanswer s]
      cases hstep : step s with
      | inl r => rfl
      | inr t =>
          have hlt := hmeasure s t hstep
          omega
  | succ turns ih =>
      rw [endsWithin, hanswer s]
      cases hstep : step s with
      | inl r => rfl
      | inr t =>
          have hlt := hmeasure s t hstep
          exact ih (by omega)

end Loops

/-! ### Trial division -/

/-- One step of trial division at position `i`. -/
def wheelStep (n i : Nat) : Bool ⊕ Nat :=
  if i * i ≤ n then
    if n % i = 0 ∨ n % (i + 2) = 0 then .inl false else .inr (i + 6)
  else .inl true

theorem noDivisorFrom_eq_elim (n i : Nat) :
    noDivisorFrom n i = (wheelStep n i).elim id (noDivisorFrom n) := by
  rw [noDivisorFrom, wheelStep]
  split
  · split <;> rfl
  · rfl

/-- A turn leaves a position that is not above the square root. -/
theorem of_wheelStep_eq_inr {n i j : Nat} (h : wheelStep n i = .inr j) :
    i ≤ Nat.sqrt n ∧ j = i + 6 := by
  unfold wheelStep at h
  split at h
  · rename_i hle
    split at h
    · cases h
    · cases h
      exact ⟨Nat.le_sqrt.mpr hle, rfl⟩
  · cases h

/-- Trial division makes one turn for every six numbers up to the square root. -/
theorem endsWithin_wheelStep (n i : Nat) :
    endsWithin (wheelStep n) ((Nat.sqrt n + 6 - i) / 6) i = some (noDivisorFrom n i) := by
  apply endsWithin_eq_some (fun i => (Nat.sqrt n + 6 - i) / 6) (noDivisorFrom_eq_elim n) _ le_rfl
  intro i j hstep
  obtain ⟨hle, rfl⟩ := of_wheelStep_eq_inr hstep
  omega

/-- What is known of `n` at a position of the wheel: nothing from two on below it divides `n`. -/
structure Unbroken (n i : Nat) : Prop where
  residue : i % 6 = 5
  not_dvd : ∀ d, 2 ≤ d → d < i → ¬ d ∣ n

theorem unbroken_five {n : Nat} (htwo : ¬ 2 ∣ n) (hthree : ¬ 3 ∣ n) : Unbroken n 5 := by
  refine ⟨rfl, ?_⟩
  intro d hd hlt hdvd
  obtain rfl | rfl | rfl : d = 2 ∨ d = 3 ∨ d = 4 := by omega
  · exact htwo hdvd
  · exact hthree hdvd
  · exact htwo (dvd_trans ⟨2, rfl⟩ hdvd)

/-- A turn that finds no divisor keeps the invariant. -/
theorem Unbroken.next {n i : Nat} (h : Unbroken n i) (hlow : ¬ i ∣ n) (hhigh : ¬ i + 2 ∣ n) :
    Unbroken n (i + 6) := by
  have hres := h.residue
  have htwo : ¬ 2 ∣ n := h.not_dvd 2 le_rfl (by omega)
  have hthree : ¬ 3 ∣ n := h.not_dvd 3 (by omega) (by omega)
  refine ⟨by omega, ?_⟩
  intro d hd hlt hdvd
  rcases Nat.lt_or_ge d i with hbelow | habove
  · exact h.not_dvd d hd hbelow hdvd
  · -- The four numbers that are not tried are multiples of two or of three.
    obtain rfl | rfl | heven | hmultiple : d = i ∨ d = i + 2 ∨ 2 ∣ d ∨ 3 ∣ d := by omega
    · exact hlow hdvd
    · exact hhigh hdvd
    · exact htwo (dvd_trans heven hdvd)
    · exact hthree (dvd_trans hmultiple hdvd)

/-- Beyond the square root nothing needs to be tried: the least divisor of a number that is not prime
is not above it. -/
theorem Unbroken.prime {n i : Nat} (h : Unbroken n i) (hn : 2 ≤ n) (hpast : n < i * i) :
    n.Prime := by
  by_contra hcomposite
  have hleast : n.minFac ^ 2 ≤ n := Nat.minFac_sq_le_self (by omega) hcomposite
  have hlt : n.minFac < i := by
    by_contra hge
    have := Nat.mul_le_mul (not_lt.mp hge) (not_lt.mp hge)
    rw [sq] at hleast
    omega
  exact h.not_dvd n.minFac (Nat.minFac_prime (by omega)).two_le hlt (Nat.minFac_dvd n)

/-- Both numbers tried at a position are smaller than `n`, also where the second one is above the
square root. -/
theorem add_two_lt_of_sq_le {n i : Nat} (hi : 5 ≤ i) (hle : i * i ≤ n) : i + 2 < n := by
  have : 5 * i ≤ i * i := Nat.mul_le_mul_right i hi
  omega

theorem not_prime_of_dvd {n d : Nat} (hd : 2 ≤ d) (hlt : d < n) (hdvd : d ∣ n) : ¬ n.Prime :=
  fun hprime => (Nat.prime_def_lt'.mp hprime).2 d hd hlt hdvd

/-- From a position of the wheel on, trial division finds a divisor exactly if `n` is not prime. -/
theorem noDivisorFrom_eq_true_iff {n i : Nat} (hn : 2 ≤ n) (h : Unbroken n i) :
    noDivisorFrom n i = true ↔ n.Prime := by
  have hres := h.residue
  fun_induction noDivisorFrom n i with
  | case1 i hle hdvd =>
      -- The second number may lie above the square root, and is still a proper divisor.
      have hlt := add_two_lt_of_sq_le (by omega) hle
      simp only [Bool.false_eq_true, false_iff]
      rcases hdvd with hlow | hhigh
      · exact not_prime_of_dvd (by omega) (by omega) (Nat.dvd_of_mod_eq_zero hlow)
      · exact not_prime_of_dvd (by omega) hlt (Nat.dvd_of_mod_eq_zero hhigh)
  | case2 i hle hnone ih =>
      rw [not_or, ← Nat.dvd_iff_mod_eq_zero, ← Nat.dvd_iff_mod_eq_zero] at hnone
      have hnext := h.next hnone.1 hnone.2
      exact ih hnext hnext.residue
  | case3 i hpast => simpa using h.prime hn (not_le.mp hpast)

/-- At least two, and divided by no smaller integer from two on. -/
def Indivisible (n : Int) : Prop := 2 ≤ n ∧ ∀ d, 2 ≤ d → d < n → ¬ d ∣ n

theorem indivisible_natCast (n : Nat) : Indivisible n ↔ n.Prime := by
  rw [Indivisible, Nat.prime_def_lt']
  constructor
  · rintro ⟨hn, hnone⟩
    refine ⟨by omega, fun d hd hlt hdvd => ?_⟩
    exact hnone d (by omega) (by omega) (Int.natCast_dvd_natCast.mpr hdvd)
  · rintro ⟨hn, hnone⟩
    refine ⟨by omega, fun d hd hlt hdvd => ?_⟩
    obtain ⟨d, rfl⟩ := Int.eq_ofNat_of_zero_le (by omega : 0 ≤ d)
    exact hnone d (by omega) (by omega) (Int.natCast_dvd_natCast.mp hdvd)

/-- An integer is taken for a prime exactly if it is one. -/
theorem isPrime_eq_true_iff (n : Int) : isPrime n = true ↔ Indivisible n := by
  rcases lt_or_ge n 2 with hsmall | htwo
  · have hnot : ¬ Indivisible n := fun h => absurd h.1 (by omega)
    simp [isPrime, show n ≤ 1 by omega, hnot]
  · obtain ⟨m, rfl⟩ := Int.eq_ofNat_of_zero_le (by omega : 0 ≤ n)
    rw [indivisible_natCast, isPrime, if_neg (by omega), Int.toNat_natCast]
    split
    · obtain rfl | rfl : m = 2 ∨ m = 3 := by omega
      · simp [Nat.prime_two]
      · simp [Nat.prime_three]
    · split
      · rename_i hdvd
        simp only [Bool.false_eq_true, false_iff]
        rcases hdvd with heven | hmultiple
        · exact not_prime_of_dvd (d := 2) le_rfl (by omega) (by omega)
        · exact not_prime_of_dvd (d := 3) (by omega) (by omega) (by omega)
      · exact noDivisorFrom_eq_true_iff (by omega) (unbroken_five (by omega) (by omega))

theorem mem_primes {lo hi p : Int} : p ∈ primes lo hi ↔ Indivisible p ∧ lo ≤ p ∧ p ≤ hi := by
  rw [primes, List.mem_filter, mem_interval, isPrime_eq_true_iff, and_comm]

theorem pairwise_interval (lo hi : Int) : (interval lo hi).Pairwise (· < ·) :=
  List.pairwise_map.mpr (List.pairwise_lt_range.imp fun h => by omega)

theorem pairwise_primes (lo hi : Int) : (primes lo hi).Pairwise (· < ·) :=
  (pairwise_interval lo hi).filter isPrime

/-- Trial division decides primality for every integer.  It ends within a sixth of the square root,
and the larger number tried at a position never divides a prime, even where it is above the square
root. -/
theorem isPrime_decides_indivisible (n : Int) :
    (isPrime n = true ↔ 2 ≤ n ∧ ∀ d, 2 ≤ d → d < n → ¬ d ∣ n) ∧
      endsWithin (wheelStep n.toNat) ((Nat.sqrt n.toNat + 1) / 6) 5 =
        some (noDivisorFrom n.toNat 5) ∧
      (Indivisible n → ∀ k : Nat, (5 + 6 * k) * (5 + 6 * k) ≤ n.toNat →
        n.toNat % (5 + 6 * k + 2) ≠ 0) := by
  refine ⟨isPrime_eq_true_iff n, endsWithin_wheelStep n.toNat 5, ?_⟩
  intro hprime k hle hzero
  have hlt := add_two_lt_of_sq_le (by omega) hle
  have hdvd : ((5 + 6 * k + 2 : Nat) : Int) ∣ n := by
    rw [← Int.toNat_of_nonneg (by omega : 0 ≤ n)]
    exact Int.natCast_dvd_natCast.mpr (Nat.dvd_of_mod_eq_zero hzero)
  exact hprime.2 _ (by omega) (by omega) hdvd

/-- The first position that tries a number above the square root of a prime. -/
theorem isPrime_twenty_nine : isPrime 29 = true ∧ 29 % 7 ≠ 0 := by
  have h := isPrime_decides_indivisible 29
  have hprime : Indivisible 29 := (indivisible_natCast 29).mpr (by decide)
  exact ⟨h.1.mpr hprime, h.2.2 hprime 0 (by decide)⟩

/-! ### Repeated remainders -/

/-- One step of repeated remainders. -/
def remainderStep : Int × Int → Int ⊕ (Int × Int)
  | (a, b) => if b = 0 then .inl a else .inr (b, a.fmod b)

@[simp] theorem gcd_zero (a : Int) : gcd a 0 = a := by
  rw [gcd, if_pos rfl]

theorem gcd_of_ne_zero (a : Int) {b : Int} (h : b ≠ 0) : gcd a b = gcd b (a.fmod b) := by
  rw [gcd, if_neg h]

/-- Remainders come to zero within the absolute value of the first divisor. -/
theorem endsWithin_remainderStep (a b : Int) :
    endsWithin remainderStep b.natAbs (a, b) = some (gcd a b) := by
  have hanswer (p : Int × Int) :
      gcd p.1 p.2 = (remainderStep p).elim id fun p => gcd p.1 p.2 := by
    obtain ⟨a, b⟩ := p
    by_cases hb : b = 0
    · simp [remainderStep, hb]
    · simp [remainderStep, hb, gcd_of_ne_zero a hb]
  refine endsWithin_eq_some (fun p => p.2.natAbs) hanswer ?_ le_rfl
  · rintro ⟨a, b⟩ t hstep
    by_cases hb : b = 0
    · simp [remainderStep, hb] at hstep
    · simp only [remainderStep, if_neg hb, Sum.inr.injEq] at hstep
      subst hstep
      exact natAbs_fmod_lt a hb

/-- A remainder that is not zero has the sign of the divisor. -/
theorem sign_fmod {a b : Int} (hb : b ≠ 0) (h : a.fmod b ≠ 0) : (a.fmod b).sign = b.sign := by
  rcases lt_or_gt_of_ne hb with hneg | hpos
  · have hflip := Int.fmod_nonneg_of_pos (-a) (Int.neg_pos.mpr hneg)
    rw [Int.neg_fmod_neg] at hflip
    rw [Int.sign_eq_neg_one_of_neg hneg, Int.sign_eq_neg_one_of_neg (by omega)]
  · have hnonneg := Int.fmod_nonneg_of_pos a hpos
    rw [Int.sign_eq_one_of_pos hpos, Int.sign_eq_one_of_pos (by omega)]

/-- A turn keeps the common divisors. -/
theorem gcd_fmod (a b : Int) : Int.gcd b (a.fmod b) = Int.gcd a b := by
  rw [Int.fmod_def, Int.gcd_sub_mul_left_right, Int.gcd_comm]

/-- Up to its sign, the result is the greatest common divisor. -/
theorem natAbs_gcd (a b : Int) : (gcd a b).natAbs = Int.gcd a b := by
  fun_induction gcd a b with
  | case1 a => rw [Int.gcd_zero_right]
  | case2 a b hb ih => rw [ih, gcd_fmod]

/-- The result has the sign of the second argument. -/
theorem sign_gcd (a : Int) {b : Int} (hb : b ≠ 0) : (gcd a b).sign = b.sign := by
  fun_induction gcd a b with
  | case1 a => exact absurd rfl hb
  | case2 a b hne ih =>
      by_cases hzero : a.fmod b = 0
      -- The last turn leaves the divisor itself; every other one leaves a remainder of its sign.
      · rw [hzero, gcd_zero]
      · rw [ih hzero, sign_fmod hne hzero]

theorem gcd_eq_sign_mul (a : Int) {b : Int} (hb : b ≠ 0) :
    gcd a b = b.sign * Int.gcd a b := by
  rw [← natAbs_gcd, ← sign_gcd a hb, Int.sign_mul_natAbs]

theorem gcd_of_nonneg {a b : Int} (ha : 0 ≤ a) (hb : 0 ≤ b) : gcd a b = Int.gcd a b := by
  rcases hb.eq_or_lt with rfl | hpos
  · rw [gcd_zero, Int.gcd_zero_right, Int.natAbs_of_nonneg ha]
  · rw [gcd_eq_sign_mul a hpos.ne', Int.sign_eq_one_of_pos hpos, one_mul]

/-- Repeated remainders end, and their result is the greatest common divisor with the sign of the
second argument: it divides both, every common divisor divides it, and for arguments that are not
negative their order does not matter. -/
theorem gcd_is_signed_common_divisor (a b : Int) :
    endsWithin remainderStep b.natAbs (a, b) = some (gcd a b) ∧
      gcd a b = (if b = 0 then a else b.sign * Nat.gcd a.natAbs b.natAbs) ∧
      (gcd a b ∣ a ∧ gcd a b ∣ b ∧ ∀ d, d ∣ a → d ∣ b → d ∣ gcd a b) ∧
      (0 ≤ a → 0 ≤ b → gcd a b = gcd b a) := by
  refine ⟨endsWithin_remainderStep a b, ?_, ⟨?_, ?_, ?_⟩, ?_⟩
  · split
    · rename_i hb
      rw [hb, gcd_zero]
    · rename_i hb
      exact gcd_eq_sign_mul a hb
  · rw [← Int.natAbs_dvd, natAbs_gcd]
    exact Int.gcd_dvd_left a b
  · rw [← Int.natAbs_dvd, natAbs_gcd]
    exact Int.gcd_dvd_right a b
  · intro d ha hb
    rw [← Int.dvd_natAbs, natAbs_gcd]
    exact Int.dvd_coe_gcd ha hb
  · intro ha hb
    rw [gcd_of_nonneg ha hb, gcd_of_nonneg hb ha, Int.gcd_comm]

/-- The sign comes from the second argument alone. -/
theorem gcd_forty_eight_neg_eighteen : gcd 48 (-18) = -6 ∧ gcd (-18) 48 = 6 :=
  ⟨(gcd_is_signed_common_divisor 48 (-18)).2.1.trans (by decide),
    (gcd_is_signed_common_divisor (-18) 48).2.1.trans (by decide)⟩

end Integer
end Reckoner
