import Reckoner.Double.Arithmetic
import Reckoner.Decimal.Layout

/-!
# Numbers

A number is an integer of any size or a double, and stays what it is.  Comparisons are by exact
value: an integer is never rounded to be compared with a double.
-/

namespace Reckoner

/-- An integer or a double. -/
inductive Number where
  | int (n : Int)
  | double (x : Double)
  deriving DecidableEq

namespace Number

/-- Doubles in messages are positional for decimal exponents from -4 to 15; exponents have at
least two digits. -/
def layout : Layout := ⟨-4, 16, 2⟩

/-- The text of a number. -/
def text : Number → Except Fault String
  | int n => Numeral.show? n
  | double x => .ok (layout.text x)

/-- A fault that shows a number, or the fault of showing it. -/
def refuse {α : Type} (x : Number) (fault : String → Fault) : Except Fault α :=
  x.text.bind fun shown => .error (fault shown)

/-- The exact value. -/
def exact : Number → Exact
  | int n => .units (n * Double.unitsPerOne)
  | double x => x.exact

/-- Strictly below, by exact value. -/
def lt (x y : Number) : Bool := x.exact.lt y.exact

/-- Equal by exact value; not-a-number equals nothing. -/
def eq (x y : Number) : Bool := x.exact.eq y.exact

/-- A number as a double. -/
def toDouble : Number → Except Fault Double
  | int n => Double.ofInt? n
  | double x => .ok x

/-- The whole part of a number. -/
def truncate : Number → Except Fault Int
  | int n => .ok n
  | double x => x.truncate

/-- Whether a number is finite; asking it of an integer too large for a double is a fault. -/
def isFinite? (x : Number) : Except Fault Bool := x.toDouble.map Double.isFinite

end Number
end Reckoner
