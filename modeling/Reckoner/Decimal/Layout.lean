import Reckoner.Decimal.Scaled

/-!
# Texts of doubles

A layout says which decimal exponents are written positionally and how wide an exponent is.  The
digits are always the fewest that read back, so a layout never changes the number that is shown.
Positional texts keep at least one digit after the point.

Text with a fixed number of places does change it: the exact magnitude is rounded once to a whole
number of the last place, a half going to the even digit.  The sign is the sign of the double, so a
negative number that rounds to zero keeps its minus sign.
-/

namespace Reckoner

/-- How the digits of a double are laid out. -/
structure Layout where
  /-- The least decimal exponent that is written positionally. -/
  positionalFrom : Int
  /-- The first decimal exponent above the positional ones. -/
  positionalBelow : Int
  /-- The least number of digits in an exponent. -/
  exponentWidth : Nat

namespace Layout

/-- Digits without the zeros at their end. -/
def dropTrailingZeros (ds : List Char) : List Char :=
  (ds.reverse.dropWhile (· == '0')).reverse

/-- Digits with zeros in front, up to a width. -/
def padLeft (width : Nat) (ds : List Char) : List Char :=
  List.replicate (width - ds.length) '0' ++ ds

/-- Positional text of `0.ds` times a power of ten. -/
def positional (ds : List Char) (point : Int) : List Char :=
  if point ≤ 0 then '0' :: '.' :: List.replicate (-point).toNat '0' ++ ds
  else if point.toNat < ds.length then
    ds.take point.toNat ++ '.' :: ds.drop point.toNat
  else ds ++ List.replicate (point.toNat - ds.length) '0' ++ ['.', '0']

/-- The text of an exponent, always with a sign. -/
def exponentText (layout : Layout) (exponent : Int) : List Char :=
  (if exponent < 0 then '-' else '+') ::
    padLeft layout.exponentWidth (Numeral.digits exponent.natAbs)

/-- Text with an exponent: one digit, the others after a point, the exponent. -/
def withExponent (layout : Layout) (ds : List Char) (exponent : Int) : List Char :=
  match ds with
  | [] => []
  | [d] => d :: 'e' :: layout.exponentText exponent
  | d :: rest => d :: '.' :: rest ++ 'e' :: layout.exponentText exponent

/-- The text of a positive magnitude. -/
def magnitude (layout : Layout) (units : Nat) : List Char :=
  let d := Shortest.decimal units
  let ds := dropTrailingZeros (Numeral.digits d.coefficient)
  let exponent := d.point - 1
  if layout.positionalFrom ≤ exponent ∧ exponent < layout.positionalBelow then
    positional ds d.point
  else layout.withExponent ds exponent

/-- The text of a double. -/
def text (layout : Layout) : Double → String
  | .nan => "nan"
  | .infinite negative => Numeral.sign negative ++ "inf"
  | .finite negative units _ =>
    Numeral.sign negative ++
      if units = 0 then "0.0" else String.ofList (layout.magnitude units)

end Layout

namespace Fixed

/-- A magnitude in steps of the last of the given places. -/
def steps (places units : Nat) : Nat := roundDiv (units * tenPow places) Double.unitsPerOne

/-- A whole number of steps as whole part, point and places. -/
def ofSteps (places n : Nat) : List Char :=
  Numeral.digits (n / tenPow places) ++
    '.' :: Layout.padLeft places (Numeral.digits (n % tenPow places))

/-- The text of a double with a fixed number of places. -/
def text (places : Nat) : Double → String
  | .nan => "nan"
  | .infinite negative => Numeral.sign negative ++ "inf"
  | .finite negative units _ =>
    Numeral.sign negative ++ String.ofList (ofSteps places (steps places units))

end Fixed

end Reckoner
