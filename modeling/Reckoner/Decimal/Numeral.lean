import Reckoner.Fault
import Reckoner.Whole

/-!
# Decimal numerals of integers

Integers are written with a minus sign and without leading zeros.  Texts meant for people hold at
most `digitLimit` digits; a longer integer is a fault there, not a longer text.

Strict reading accepts what is written and `-0`, up to the same number of digits.
-/

namespace Reckoner
namespace Numeral

/-- The decimal digits of a natural number, most significant first. -/
def digits (n : Nat) : List Char := Nat.toDigits 10 n

/-- The natural number that a list of decimal digits denotes. -/
def value (ds : List Char) : Nat := Nat.ofDigitChars 10 ds 0

/-- Writing a natural number and reading its digits gives the number back. -/
@[simp] theorem value_digits (n : Nat) : value (digits n) = n :=
  Nat.ofDigitChars_toDigits (by decide) (by decide)

/-- A minus sign for the negative. -/
def sign (negative : Bool) : String := if negative then "-" else ""

/-- The numeral of an integer, of any length. -/
def ofInt (n : Int) : String :=
  sign (decide (n < 0)) ++ String.ofList (digits n.natAbs)

/-- The most digits that a shown integer may have. -/
def digitLimit : Nat := 4300

/-- Few enough digits to be shown; the sign does not count. -/
def Fits (n : Int) : Prop := n.natAbs < tenPow digitLimit

instance (n : Int) : Decidable (Fits n) := inferInstanceAs (Decidable (_ < _))

/-- The numeral of an integer that is shown. -/
def show? (n : Int) : Except Fault String :=
  if Fits n then .ok (ofInt n) else .error .numeralTooLong

theorem show?_of_fits {n : Int} (h : Fits n) : show? n = .ok (ofInt n) := if_pos h

theorem show?_of_not_fits {n : Int} (h : ¬ Fits n) : show? n = .error .numeralTooLong := if_neg h

/-- Splits one leading minus off; the flag says whether there was one. -/
def splitMinus : List Char → Bool × List Char
  | '-' :: rest => (true, rest)
  | rest => (false, rest)

/-- Splits one leading sign off; the flag says whether it was a minus. -/
def splitSign : List Char → Bool × List Char
  | '+' :: rest => (false, rest)
  | rest => splitMinus rest

/-- The integer that digits denote, after a minus at most. -/
def toInt (text : List Char) : Int :=
  let (negative, ds) := splitMinus text
  signed negative (value ds)

/-- A non-empty run of decimal digits. -/
def isDigits (text : List Char) : Bool := !text.isEmpty && text.all Char.isDigit

/-- Digits without superfluous zeros in front. -/
def isWhole : List Char → Bool
  | ['0'] => true
  | '0' :: _ => false
  | text => isDigits text

/-- Digits without superfluous zeros in front, few enough to be shown. -/
def isShort (text : List Char) : Bool := isWhole text && decide (text.length ≤ digitLimit)

/-- Reads an integer strictly: a minus at most, and a short run of digits. -/
def strict? (text : List Char) : Option Int :=
  if isShort (splitMinus text).2 then some (toInt text) else none

end Numeral
end Reckoner
