import Reckoner.Double.Basic
import Reckoner.Decimal.Numeral

/-!
# Scaled decimals and the fewest digits that read back

A scaled decimal is a natural coefficient with a power of ten.  Its value is rounded to a double
once, from the exact ratio.  Exponents far outside the range of doubles are decided before any
power is formed, so a short text with a huge exponent costs nothing.

For a positive magnitude, `Shortest.decimal` tries one digit, two digits, and so on.  On each
decimal grid only the two neighbours of the exact value can be nearest to it; a neighbour counts
when it rounds to the magnitude again.  The first grid with such a neighbour wins, of two the
nearer, and of two equally near the even one.

Seventeen digits are enough for every double.  The search does not rely on that: should no grid
up to seventeen digits have a neighbour that reads back, the exact decimal expansion is taken, so
the result reads back in every case.
-/

namespace Reckoner

/-- The number `coefficient * 10 ^ exponent`. -/
structure Scaled where
  coefficient : Nat
  exponent : Int
  deriving DecidableEq

namespace Scaled

/-- The value in least units of a double, as a numerator and a denominator. -/
def ratio (d : Scaled) : Nat × Nat :=
  if 0 ≤ d.exponent then
    (d.coefficient * tenPow d.exponent.toNat * Double.unitsPerOne, 1)
  else
    (d.coefficient * Double.unitsPerOne, tenPow (-d.exponent).toNat)

/-- One more than the decimal exponent of the leading digit. -/
def point (d : Scaled) : Int := d.exponent + (Numeral.digits d.coefficient).length

/-- The double nearest to a scaled decimal, ties to the even significand.  Values from `10 ^ 309`
are infinite and values below `10 ^ -324` are zero, whatever their digits. -/
def toDouble (negative : Bool) (d : Scaled) : Double :=
  if d.coefficient = 0 then .zero negative
  else if 309 < d.point then .infinite negative
  else if d.point < -323 then .zero negative
  else .ofRatio negative d.ratio.1 d.ratio.2

end Scaled

namespace Shortest

/-- Whether a scaled decimal rounds to the given magnitude. -/
def readsBack (units : Nat) (d : Scaled) : Bool :=
  Double.roundUnits d.ratio.1 d.ratio.2 == units

/-- The decimal exponent of the leading digit of a positive magnitude.  Every magnitude is above
`10 ^ -324`, so the digits of its multiple by `10 ^ 324` count it. -/
def leadingExponent (units : Nat) : Int :=
  (Numeral.digits (units * tenPow 324 / Double.unitsPerOne)).length - 325

/-- A numerator and a denominator of the magnitude measured in steps of `10 ^ exponent`. -/
def inSteps (units : Nat) (exponent : Int) : Nat × Nat :=
  if 0 ≤ exponent then (units, tenPow exponent.toNat * Double.unitsPerOne)
  else (units * tenPow (-exponent).toNat, Double.unitsPerOne)

/-- Of the two neighbours of `num / den` steps the one that is accepted, and of two accepted ones
the nearer. -/
def neighbour? (accepts : Scaled → Bool) (num den : Nat) (exponent : Int) : Option Scaled :=
  match accepts ⟨num / den, exponent⟩, accepts ⟨num / den + 1, exponent⟩ with
  | false, false => none
  | true, false => some ⟨num / den, exponent⟩
  | false, true => some ⟨num / den + 1, exponent⟩
  | true, true => some ⟨roundDiv num den, exponent⟩

/-- The decimal with the given number of digits that reads back and is nearest to the
magnitude. -/
def onGrid? (units : Nat) (count : Nat) : Option Scaled :=
  let exponent := leadingExponent units + 1 - count
  let steps := inSteps units exponent
  neighbour? (readsBack units) steps.1 steps.2 exponent

/-- The exact decimal expansion of a magnitude. -/
def exact (units : Nat) : Scaled := ⟨units * fivePow 1074, -1074⟩

/-- A decimal with the fewest digits among those that read back. -/
def decimal (units : Nat) : Scaled :=
  ((List.range 17).findSome? fun i => onGrid? units (i + 1)).getD (exact units)

end Shortest

end Reckoner
