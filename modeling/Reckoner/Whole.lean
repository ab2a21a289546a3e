/-!
# Whole numbers

A sign and a natural number make an integer.  The sign of zero is lost here; doubles keep it
beside their magnitude.  Powers of two, five and ten are the scales of doubles and of decimals.

`roundDiv num den` is the whole number nearest to `num / den`; a quotient that lies halfway
between two whole numbers goes to the even one.  Two bounds say that the result is never more
than half a step away.  Nothing is said about a zero denominator.
-/

namespace Reckoner

/-! ### Signs -/

/-- The integer with the given sign and absolute value. -/
def signed (negative : Bool) (n : Nat) : Int := if negative then -(n : Int) else n

@[simp] theorem signed_false (n : Nat) : signed false n = n := rfl

@[simp] theorem signed_true (n : Nat) : signed true n = -(n : Int) := rfl

@[simp] theorem natAbs_signed (negative : Bool) (n : Nat) : (signed negative n).natAbs = n := by
  cases negative <;> simp

/-- Every integer is its sign and its absolute value. -/
@[simp] theorem signed_natAbs (n : Int) : signed (decide (n < 0)) n.natAbs = n := by
  unfold signed
  by_cases h : n < 0
  · rw [decide_eq_true h, if_pos rfl]
    omega
  · rw [decide_eq_false h, if_neg Bool.false_ne_true]
    omega

/-! ### Powers -/

/-- Two to the given power. -/
def twoPow (n : Nat) : Nat := Nat.pow 2 n

/-- Five to the given power. -/
def fivePow (n : Nat) : Nat := Nat.pow 5 n

/-- Ten to the given power. -/
def tenPow (n : Nat) : Nat := Nat.pow 10 n

@[simp] theorem twoPow_zero : twoPow 0 = 1 := rfl

theorem twoPow_succ (n : Nat) : twoPow (n + 1) = twoPow n * 2 := rfl

theorem twoPow_pos (n : Nat) : 0 < twoPow n := Nat.two_pow_pos n

theorem twoPow_add (m n : Nat) : twoPow (m + n) = twoPow m * twoPow n := Nat.pow_add 2 m n

theorem twoPow_le_twoPow {m n : Nat} (h : m ≤ n) : twoPow m ≤ twoPow n :=
  Nat.pow_le_pow_right Nat.two_pos h

theorem twoPow_lt_twoPow {m n : Nat} (h : m < n) : twoPow m < twoPow n :=
  Nat.pow_lt_pow_right Nat.one_lt_two h

theorem tenPow_pos (n : Nat) : 0 < tenPow n := Nat.pow_pos (Nat.succ_pos 9)

/-- A positive number has one bit more than its binary logarithm. -/
theorem lt_twoPow_log2_succ (n : Nat) : n < twoPow (Nat.log2 n + 1) := Nat.lt_log2_self

/-! ### Rounded quotients -/

/-- The whole number nearest to `num / den`, a half going to the even neighbour. -/
def roundDiv (num den : Nat) : Nat :=
  if 2 * (num % den) < den then num / den
  else if den < 2 * (num % den) then num / den + 1
  else num / den + num / den % 2

/-- Rounding moves a quotient up by at most one whole number. -/
theorem roundDiv_le (num den : Nat) : roundDiv num den ≤ num / den + 1 := by
  unfold roundDiv
  split
  · omega
  · split <;> omega

/-- Rounding never falls below the whole part. -/
theorem le_roundDiv (num den : Nat) : num / den ≤ roundDiv num den := by
  unfold roundDiv
  split
  · omega
  · split <;> omega

/-- A rounded quotient is at most half a step above the exact one. -/
theorem two_mul_roundDiv_mul_le (num : Nat) {den : Nat} (hden : 0 < den) :
    2 * (roundDiv num den * den) ≤ 2 * num + den := by
  have hsplit := Nat.div_add_mod num den
  have hmod := Nat.mod_lt num hden
  rw [Nat.mul_comm den] at hsplit
  unfold roundDiv
  split
  · omega
  · split
    · rw [Nat.add_mul, Nat.one_mul]; omega
    · rcases Nat.mod_two_eq_zero_or_one (num / den) with h | h
      · rw [h, Nat.add_zero]; omega
      · rw [h, Nat.add_mul, Nat.one_mul]; omega

/-- A rounded quotient is at most half a step below the exact one. -/
theorem two_mul_le_roundDiv_mul (num : Nat) {den : Nat} (hden : 0 < den) :
    2 * num ≤ 2 * (roundDiv num den * den) + den := by
  have hsplit := Nat.div_add_mod num den
  have hmod := Nat.mod_lt num hden
  rw [Nat.mul_comm den] at hsplit
  unfold roundDiv
  split
  · omega
  · split
    · rw [Nat.add_mul, Nat.one_mul]; omega
    · rw [Nat.add_mul]; omega

end Reckoner
