import Reckoner.Decimal.Lenient
import Reckoner.Decimal.Scaled

/-!
# Reading doubles from text

A decimal text has a whole part, a fraction after a point and an exponent after `e`, each optional
in some grammar.  `Parts.ofText` only cuts the text; which parts may be missing is for the reader.
`Double.ofText?` is the lenient reader: one sign, either part of the mantissa missing, and the
names of the infinities and of not-a-number in any case.  Around such a text there may be blanks,
or inside it single underscores at any place.
-/

namespace Reckoner

/-- The parts of a decimal text, uncut marks removed. -/
structure Parts where
  whole : List Char
  fraction? : Option (List Char)
  exponent? : Option (List Char)
  deriving DecidableEq

namespace Parts

/-- Whether an exponent begins here. -/
def isExponentMark (c : Char) : Bool := c == 'e' || c == 'E'

/-- What follows the first character that satisfies a test. -/
def after? (p : Char → Bool) (text : List Char) : Option (List Char) :=
  match text.dropWhile (!p ·) with
  | [] => none
  | _ :: rest => some rest

/-- Cuts a text at its first exponent mark, and what stands before it at its first point. -/
def ofText (text : List Char) : Parts :=
  let mantissa := text.takeWhile (!isExponentMark ·)
  { whole := mantissa.takeWhile (· != '.')
    fraction? := after? (· == '.') mantissa
    exponent? := after? isExponentMark text }

/-- The number with the given digits before and after the point. -/
def scaled (whole fraction : List Char) (exponent : Int) : Scaled :=
  ⟨Numeral.value (whole ++ fraction), exponent - fraction.length⟩

/-- The exponent that a text denotes: a sign at most, and digits. -/
def exponentOf? (text : List Char) : Option Int :=
  let (negative, ds) := Numeral.splitSign text
  if Numeral.isDigits ds then some (signed negative (Numeral.value ds)) else none

/-- The exponent; a missing one is zero. -/
def exponent (parts : Parts) : Option Int := (parts.exponent?.map exponentOf?).getD (some 0)

/-- The number that the parts denote to a lenient reader: one of whole part and fraction may be
missing. -/
def lenient? (parts : Parts) : Option Scaled :=
  let fraction := parts.fraction?.getD []
  if Numeral.isDigits (parts.whole ++ fraction) then
    parts.exponent.map (scaled parts.whole fraction)
  else none

end Parts

namespace Double

/-- Reads a double without blanks or underscores. -/
def plain? (text : List Char) : Option Double :=
  let (negative, body) := Numeral.splitSign text
  let name := String.ofList (body.map Char.toLower)
  if name = "inf" ∨ name = "infinity" then some (.infinite negative)
  else if name = "nan" then some .nan
  else (Parts.ofText body).lenient?.map (Scaled.toDouble negative)

/-- Reads a double leniently: blanks around it are skipped, or else underscores are removed. -/
def ofText? (text : List Char) : Option Double :=
  (plain? (Text.trim text)).or ((Numeral.ungroup? text).bind plain?)

end Double

end Reckoner
