import Reckoner.Fault
import Reckoner.Double.Basic

/-!
# Arithmetic on doubles

Each operation computes the exact result in least units and rounds once.  Infinities and
not-a-number pass through; a sum that cancels is the positive zero.

Going from integers to doubles rounds once and refuses to become infinite; going back drops the
fraction.  A quotient of integers is rounded from its exact value, not from two rounded operands.
-/

namespace Reckoner
namespace Double

/-- The sum.  Two negative zeros add up to the negative zero, opposite infinities to
not-a-number. -/
def add : Double → Double → Double
  | .nan, _ => .nan
  | _, .nan => .nan
  | .infinite s, .infinite t => if s == t then .infinite s else .nan
  | .infinite s, .finite .. => .infinite s
  | .finite .., .infinite t => .infinite t
  | .finite s m _, .finite t n _ =>
    let total := signed s m + signed t n
    if total = 0 then zero (s && t) else ofRatio (decide (total < 0)) total.natAbs 1

/-- The difference. -/
def sub (x y : Double) : Double := add x y.neg

/-- The quotient.  A finite number over a zero is an infinity, a zero over a zero
not-a-number. -/
def div : Double → Double → Double
  | .nan, _ => .nan
  | _, .nan => .nan
  | .infinite _, .infinite _ => .nan
  | .infinite s, .finite t _ _ => .infinite (s != t)
  | .finite s _ _, .infinite t => zero (s != t)
  | .finite s m _, .finite t n _ =>
    if n = 0 then
      if m = 0 then .nan else .infinite (s != t)
    else ofRatio (s != t) (m * unitsPerOne) n

/-- The double two. -/
def two : Double := ofInt 2

/-! ### Conversions between integers and doubles -/

/-- A finite double, or the given fault in place of an infinity. -/
def orFault (fault : Fault) : Double → Except Fault Double
  | .infinite _ => .error fault
  | x => .ok x

theorem orFault_of_isFinite {fault : Fault} {x : Double} (h : x.isFinite = true) :
    x.orFault fault = .ok x := by
  cases x with
  | nan => rfl
  | infinite negative => cases h
  | finite negative units isMagnitude => rfl

theorem eq_of_orFault_eq_error {fault other : Fault} {x : Double}
    (h : x.orFault fault = .error other) : other = fault := by
  cases x with
  | nan => cases h
  | infinite negative => exact (Except.error.inj h).symm
  | finite negative units isMagnitude => cases h

/-- An integer as a double, unless it is too large. -/
def ofInt? (n : Int) : Except Fault Double := (ofInt n).orFault .integerTooLarge

/-- The double nearest to a quotient of integers.  A zero quotient is negative when exactly one
operand is. -/
def quotient? (a b : Int) : Except Fault Double :=
  (ofRatio (decide (a < 0) != decide (b < 0)) (a.natAbs * unitsPerOne) b.natAbs).orFault
    .quotientTooLarge

/-- The whole part, rounding toward zero. -/
def truncate : Double → Except Fault Int
  | .nan => .error .truncatedNaN
  | .infinite _ => .error .truncatedInfinity
  | .finite negative units _ => .ok (signed negative (units / unitsPerOne))

end Double
end Reckoner
