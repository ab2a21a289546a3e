import Reckoner.Outcome

/-!
# Integer arithmetic

Sums, differences and products are those of the integers.  A power with an exponent of zero or
less is one.  Division gives the double nearest to the exact quotient, and an error outcome when
the divisor is zero.

Primality is decided by trial division: by two, by three, and then by the two numbers next to each
multiple of six, as long as the lower of them is not above the square root.  The greatest common
divisor is found by repeated remainders.  Remainders have the sign of the divisor, so the greatest
common divisor of two integers has the sign of the second one, and of the first when the second is
zero.
-/

namespace Reckoner
namespace Integer

/-- The base multiplied by itself as often as the exponent says. -/
def power (base exponent : Int) : Int := Int.pow base exponent.toNat

/-- The whole number that stands in the place of pi before the point. -/
def piWhole : Int := 3

/-- The whole number that stands in the place of pi after the point. -/
def piFraction : Int := 14

/-- The stand-in for the area of a circle: both parts of pi multiply the squared radius. -/
def circleArea (radius : Int) : Int := piWhole * piFraction * (radius * radius)

/-- The quotient of two integers. -/
def divide (a b : Int) : Except Fault Outcome :=
  if b = 0 then .ok (.failure .divisionByZero)
  else (Double.quotient? a b).map fun q => .success (.double q)

/-! ### Divisors -/

/-- Whether no divisor is found among `i`, `i + 2`, `i + 6`, `i + 8` and so on. -/
def noDivisorFrom (n i : Nat) : Bool :=
  if i * i ≤ n then
    if n % i = 0 ∨ n % (i + 2) = 0 then false else noDivisorFrom n (i + 6)
  else true
termination_by n + 1 - i
decreasing_by
  have := Nat.le_mul_self i
  omega

/-- Whether an integer is prime. -/
def isPrime (n : Int) : Bool :=
  if n ≤ 1 then false
  else if n ≤ 3 then true
  else if n % 2 = 0 ∨ n % 3 = 0 then false
  else noDivisorFrom n.toNat 5

/-- The integers from `lo` to `hi`, both included. -/
def interval (lo hi : Int) : List Int :=
  (List.range (hi + 1 - lo).toNat).map fun (i : Nat) => lo + i

theorem mem_interval {lo hi n : Int} : n ∈ interval lo hi ↔ lo ≤ n ∧ n ≤ hi := by
  simp only [interval, List.mem_map, List.mem_range]
  constructor
  · rintro ⟨i, hi, rfl⟩
    omega
  · rintro ⟨hlo, hhi⟩
    exact ⟨(n - lo).toNat, by omega, by omega⟩

/-- The primes from `lo` to `hi`, in ascending order. -/
def primes (lo hi : Int) : List Int := (interval lo hi).filter isPrime

/-- A remainder is smaller than its divisor. -/
theorem natAbs_fmod_lt (a : Int) {b : Int} (h : b ≠ 0) : (a.fmod b).natAbs < b.natAbs := by
  rw [Int.fmod_eq_emod]
  have hnonneg := Int.emod_nonneg a h
  have hlt := Int.emod_lt a h
  split
  · omega
  · rename_i hcase
    have hne : a % b ≠ 0 := fun hmod => hcase (.inr (Int.dvd_of_emod_eq_zero hmod))
    omega

/-- The greatest common divisor, by repeated remainders. -/
def gcd (a b : Int) : Int :=
  if b = 0 then a else gcd b (a.fmod b)
termination_by b.natAbs
decreasing_by exact natAbs_fmod_lt a (by assumption)

end Integer
end Reckoner
