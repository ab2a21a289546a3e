import Reckoner.Double.Arithmetic
import Reckoner.Outcome

/-!
# Square roots by Newton's method

The first guess is half the number; each further guess is the mean of the last one and the number
divided by it.  The search ends when two guesses in a row differ by less than the precision, or
when the iterations are used up.  All guesses are doubles, and the precision is compared with
their rounded difference by exact value.

The result is an approximation: nothing here bounds its distance from the root.
-/

namespace Reckoner
namespace SquareRoot

/-- The precision used when none is given. -/
def defaultPrecision : Double := .thousandth

/-- The number of iterations used when none is given. -/
def defaultIterations : Int := 20

/-- The guess after the given one. -/
def next (value guess : Double) : Double := (guess.add (value.div guess)).div .two

/-- Whether two guesses differ by less than the precision. -/
def converged (previous current : Double) (precision : Number) : Bool :=
  (Number.double (current.sub previous).abs).lt precision

/-- Refines a guess until two in a row are close, at most as often as the budget says.  A guess of
zero cannot be refined. -/
def refine (value : Double) (precision : Number) : Nat → Double → Except Fault Double
  | 0, guess => .ok guess
  | budget + 1, guess =>
    if guess.isZero then .error .zeroDivisor
    else
      let refined := next value guess
      if converged guess refined precision then .ok refined
      else refine value precision budget refined

/-- Refuses a parameter that is not finite or not above zero. -/
def requirePositive (parameter : String) (x : Number) : Except Fault Unit := do
  let finite ← x.isFinite?
  if !finite then x.refuse (.notFinite parameter)
  else if (Number.int 0).lt x then pure ()
  else x.refuse (.notPositive parameter)

/-- Refuses a budget without an iteration. -/
def requireIterations (iterations : Int) : Except Fault Unit :=
  if 1 ≤ iterations then .ok () else (Number.int iterations).refuse .tooFewIterations

/-- The approximate square root of a number.  The parameters are checked before the number. -/
def root (number precision : Number) (iterations : Int) : Except Fault Outcome := do
  requirePositive "precision" precision
  requireIterations iterations
  if number.lt (.int 0) then pure (.failure .negativeSquareRoot)
  else if number.eq (.int 0) then pure (.success (.double (.zero false)))
  else
    let value ← number.toDouble
    let result ← refine value precision iterations.toNat (value.div .two)
    pure (.success (.double result))

end SquareRoot
end Reckoner
