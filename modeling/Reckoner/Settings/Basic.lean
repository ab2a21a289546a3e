import Reckoner.SquareRoot
import Reckoner.Style

/-!
# Settings

The parameters of the square-root search, of the display, and of the demonstration, with their
defaults.  The bounds on them are part of the types, so every settings value is a valid one.  The
bound on the precision does not exclude an infinite precision.
-/

namespace Reckoner
namespace Settings

theorem zero_lt_thousandth : (Double.zero false).lt .thousandth = true := by decide +kernel

/-- The parameters of the square-root search. -/
structure Kernel where
  precision : Double := SquareRoot.defaultPrecision
  iterations : Int := SquareRoot.defaultIterations
  zero_lt_precision : (Double.zero false).lt precision = true := by exact zero_lt_thousandth
  one_le_iterations : 1 ≤ iterations := by decide
  deriving DecidableEq

/-- The default parameters of the search. -/
def Kernel.standard : Kernel := {}

/-- How results are displayed. -/
structure Display where
  style : Style := .fixed
  separator : String := ": "
  deriving DecidableEq

/-- The numbers that the demonstration works on. -/
structure Inputs where
  first : Int := 15
  second : Int := 4
  a : Int := 12
  b : Int := 8
  c : Int := 5
  primeLimit : Int := 17
  radius : Int := 5
  two_le_primeLimit : 2 ≤ primeLimit := by decide
  zero_le_radius : 0 ≤ radius := by decide
  deriving DecidableEq

/-- The default numbers. -/
def Inputs.standard : Inputs := {}

/-- All settings. -/
structure Calculator where
  kernel : Kernel := .standard
  display : Display := {}
  inputs : Inputs := .standard
  deriving DecidableEq

end Settings
end Reckoner
