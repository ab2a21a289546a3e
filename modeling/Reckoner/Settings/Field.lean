import Reckoner.Json.Token
import Reckoner.Decimal.Reading
import Reckoner.Double.Arithmetic
import Reckoner.Settings.Complaint
import Reckoner.Style

/-!
# Reading single fields

Fields are read leniently: an integer may be given as an integer, a truth value, a double without
a fraction, or a text; a double as any number, a truth value or a text.  Bounds are checked last,
and an accepted value carries its bound.
-/

namespace Reckoner
namespace Settings
namespace Field

/-- Doubles from here on are too large to be read as integers. -/
def doubleLimit : Nat := twoPow 63

/-- A double without a fraction as an integer. -/
def integerOfDouble : Double → Except Problem Int
  | .finite negative units _ =>
    if units % Double.unitsPerOne ≠ 0 then .error .integerFraction
    else if units / Double.unitsPerOne < doubleLimit then
      .ok (signed negative (units / Double.unitsPerOne))
    else .error .integerSize
  | _ => .error .notFinite

/-- A text as an integer.  Its length is checked before its form. -/
def integerOfText (text : String) : Except Problem Int :=
  if Numeral.isOverlong text.toList then .error .integerSize
  else (Numeral.ofText? text.toList).elim (.error .integerText) .ok

/-- An integer. -/
def integer : Data → Except Problem Int
  | .int n => .ok n
  | .bool b => .ok (if b then 1 else 0)
  | .double x => integerOfDouble x
  | .string text => integerOfText text
  | _ => .error .notInteger

/-- An integer with a lower bound. -/
def integerFrom (bound : Int) (data : Data) : Except Problem { n : Int // bound ≤ n } :=
  (integer data).bind fun n => if h : bound ≤ n then .ok ⟨n, h⟩ else .error (.below bound)

/-- An integer as a double.  One that is too large is infinite when it comes from a text, and no
number otherwise. -/
def doubleOfInteger (source : Source) (n : Int) : Except Problem Double :=
  match source with
  | .text => .ok (.ofInt n)
  | .data => (Double.ofInt? n).mapError fun _ => .notNumber

/-- A double. -/
def double (source : Source) : Data → Except Problem Double
  | .double x => .ok x
  | .bool b => .ok (.ofInt (if b then 1 else 0))
  | .int n => doubleOfInteger source n
  | .string text => (Double.ofText? text.toList).elim (.error .numberText) .ok
  | _ => .error .notNumber

/-- A double above zero; not-a-number is not. -/
def positive (source : Source) (data : Data) :
    Except Problem { x : Double // (Double.zero false).lt x = true } :=
  (double source data).bind fun x =>
    if h : (Double.zero false).lt x = true then .ok ⟨x, h⟩ else .error .notAboveZero

/-- A result style, by its exact name. -/
def style : Data → Except Problem Style
  | .string text => (Style.ofName? text).elim (.error .unknownStyle) .ok
  | _ => .error .unknownStyle

/-- A text. -/
def string : Data → Except Problem String
  | .string text => .ok text
  | _ => .error .notString

/-- A field of a record: its default when it is missing, and complaints below its name. -/
def read {α : Type} (fields : List (String × Data)) (name : String) (default : α)
    (reader : Data → Checked α) : Checked α :=
  match Data.lookup name fields with
  | none => .ok default
  | some data => (reader data).under name

end Field
end Settings
end Reckoner
