import Reckoner.Integer
import Reckoner.Report.Line

/-!
# The demonstration

Six sections, each with a heading and an empty line at its end, between a title and a closing line.
Every section also makes one log entry before it writes anything.  A fault in a section stops the
demonstration; what was written until then stays written.
-/

namespace Reckoner
namespace Demonstration

open Settings (Calculator Display)

/-- The first line. -/
def title : String := "=== Advanced Calculator ==="

/-- The last line. -/
def closing : String := "Calculator operations completed!"

/-- Bases and exponents of the shown powers. -/
def powerCases : List (Int × Int) := [(2, 3), (5, 4), (10, 0)]

/-- The numbers whose square roots are shown. -/
def rootCases : List Int := [16, 25, 10]

/-- The pairs whose greatest common divisors are shown. -/
def divisorCases : List (Int × Int) := [(48, 18), (100, 25), (17, 13)]

/-- A log entry of the demonstration. -/
def log (message : Except Fault String) : Transcript Unit :=
  .log .debug .demonstration message

/-- Sum, difference, product and quotient of the two input numbers. -/
def arithmetic (settings : Calculator) (display : Display) : Transcript Unit := do
  let m := settings.inputs.first
  let n := settings.inputs.second
  log do
    return "Section: basic arithmetic (num1=" ++ (← Numeral.show? m) ++
      ", num2=" ++ (← Numeral.show? n) ++ ")"
  Report.line "Basic Arithmetic:"
  Report.result display "First number" (.int m)
  Report.result display "Second number" (.int n)
  Report.blank
  Report.result display "Addition" (.int (m + n))
  Report.result display "Subtraction" (.int (m - n))
  Report.result display "Multiplication" (.int (m * n))
  let quotient ← Integer.divide m n
  Report.outcome display "Division" quotient
  Report.blank

/-- A few powers. -/
def powers (_ : Calculator) (display : Display) : Transcript Unit := do
  log (.ok "Section: power")
  Report.line "Power Calculations:"
  powerCases.forM fun (base, exponent) =>
    Report.result display (Numeral.ofInt base ++ "^" ++ Numeral.ofInt exponent)
      (.int (Integer.power base exponent))
  Report.blank

/-- A few square roots, with the parameters of the settings. -/
def squareRoots (settings : Calculator) (display : Display) : Transcript Unit := do
  let precision := Number.double settings.kernel.precision
  let iterations := settings.kernel.iterations
  log do
    return "Section: square roots (precision=" ++ (← precision.text) ++
      ", max_iterations=" ++ (← Numeral.show? iterations) ++ ")"
  Report.line "Square Root Approximations:"
  rootCases.forM fun n => do
    let root ← SquareRoot.root (.int n) precision iterations
    Report.outcome display ("sqrt(" ++ Numeral.ofInt n ++ ")") root
  Report.blank

/-- The primes up to the limit of the settings. -/
def primes (settings : Calculator) (_ : Display) : Transcript Unit := do
  let limit := settings.inputs.primeLimit
  log do return "Section: primes up to " ++ (← Numeral.show? limit)
  Report.line "Prime Number Checking:"
  (Integer.primes 2 limit).forM fun p => do
    let text ← Numeral.show? p
    Report.line (text ++ " is prime")
  Report.blank

/-- A few greatest common divisors. -/
def commonDivisors (_ : Calculator) (display : Display) : Transcript Unit := do
  log (.ok "Section: gcd")
  Report.line "Greatest Common Divisor:"
  divisorCases.forM fun (a, b) =>
    Report.result display
      ("GCD(" ++ Numeral.ofInt a ++ ", " ++ Numeral.ofInt b ++ ")") (.int (Integer.gcd a b))
  Report.blank

/-- A sum of a product and a halved number whose fraction is dropped, and the stand-in for the area
of a circle. -/
def combined (settings : Calculator) (_ : Display) : Transcript Unit := do
  let inputs := settings.inputs
  log (.ok "Section: complex calculations")
  Report.line "Complex Calculations:"
  let quotient ← Integer.divide inputs.c 2
  let half ← Report.recover quotient
  let whole ← half.truncate
  let a ← Numeral.show? inputs.a
  let b ← Numeral.show? inputs.b
  let c ← Numeral.show? inputs.c
  let sum ← Numeral.show? (inputs.a * inputs.b + whole)
  Report.line ("(" ++ a ++ " * " ++ b ++ ") + (" ++ c ++ " / 2) = " ++ sum)
  let radius ← Numeral.show? inputs.radius
  let area ← Numeral.show? (Integer.circleArea inputs.radius)
  Report.line ("Approximate area of circle (r=" ++ radius ++ "): " ++ area)
  Report.blank

/-- The sections. -/
inductive Section where
  | arithmetic
  | powers
  | squareRoots
  | primes
  | commonDivisors
  | combined
  deriving DecidableEq

/-- All sections in their order. -/
def Section.all : List Section :=
  [.arithmetic, .powers, .squareRoots, .primes, .commonDivisors, .combined]

/-- Runs a section. -/
def Section.run (settings : Calculator) (display : Display) : Section → Transcript Unit
  | arithmetic => Demonstration.arithmetic settings display
  | powers => Demonstration.powers settings display
  | squareRoots => Demonstration.squareRoots settings display
  | primes => Demonstration.primes settings display
  | commonDivisors => Demonstration.commonDivisors settings display
  | combined => Demonstration.combined settings display

/-- The whole demonstration; its result is the exit code. -/
def run (settings : Calculator) (display : Display) : Transcript Int := do
  Report.line title
  Report.blank
  Section.all.forM (Section.run settings display)
  Report.line closing
  log (.ok "Demo sequence completed")
  return 0

end Demonstration
end Reckoner
