import Reckoner.Decimal.Numeral
import Reckoner.Text.Character

/-!
# Lenient numerals

A text meant as an integer is tidied and then read strictly.  Tidying removes the blanks around the
text, a plus sign, the zeros in front together with all underscores among them, a fraction of
zeros, and single underscores elsewhere.

The zeros in front end at the first other digit, and also at a minus sign: what follows them is
read as if they were not there, so that `0-7` is read as `-7`.
-/

namespace Reckoner
namespace Numeral

/-- Whether each underscore stands between two other characters.  The flag says that the character
before is missing or an underscore. -/
def isGroupedFrom (edge : Bool) : List Char → Bool
  | [] => !edge
  | c :: rest => if c = '_' then !edge && isGroupedFrom true rest else isGroupedFrom false rest

/-- A text without its underscores, if each of them stands between two other characters. -/
def ungroup? (text : List Char) : Option (List Char) :=
  if isGroupedFrom true text then some (text.filter (· != '_')) else none

/-- Whether a character is a digit other than zero. -/
def isNonzeroDigit (c : Char) : Bool := c.isDigit && c != '0'

/-- Drops zeros and underscores up to another digit or a minus.  When only a point or nothing
follows, the character dropped last is kept. -/
def dropZerosAfter? (last : Char) : List Char → Option (List Char)
  | [] => some [last]
  | c :: rest =>
    if c = '0' ∨ c = '_' then dropZerosAfter? c rest
    else if c = '.' then some (last :: c :: rest)
    else if isNonzeroDigit c ∨ c = '-' then some (c :: rest)
    else none

/-- Drops the superfluous zeros in front of a text, which has to begin with a digit. -/
def dropZeros? : List Char → Option (List Char)
  | [] => none
  | c :: rest =>
    if c = '0' then dropZerosAfter? c rest
    else if isNonzeroDigit c then some (c :: rest)
    else none

/-- Nothing but zeros, and at least one. -/
def isZeros (text : List Char) : Bool := !text.isEmpty && text.all (· == '0')

/-- Drops the first point and all that follows, if only zeros follow. -/
def dropZeroFraction (text : List Char) : List Char :=
  if isZeros ((text.dropWhile (· != '.')).drop 1) then text.takeWhile (· != '.') else text

/-- The text that is read strictly in place of a given one. -/
def tidy? (text : List Char) : Option (List Char) :=
  let (negative, body) := splitSign (Text.trim text)
  (dropZeros? body).map fun body =>
    let whole := dropZeroFraction (if negative then '-' :: body else body)
    (ungroup? whole).getD whole

/-- Reads an integer leniently. -/
def ofText? (text : List Char) : Option Int := (tidy? text).bind strict?

/-- Whether a text begins with more digits than can be read, after a minus at most and without
zeros in front.  What follows the digits does not matter. -/
def isOverlong (text : List Char) : Bool :=
  let ds := (splitMinus text).2.takeWhile Char.isDigit
  ds.head? != some '0' && decide (digitLimit < ds.length)

end Numeral
end Reckoner
