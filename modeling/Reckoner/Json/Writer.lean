import Reckoner.Decimal.Layout
import Reckoner.Json.Token

/-!
# Writing JSON texts

A data tree is written without blanks, its fields in order.  What is written for infinities and
not-a-number is for the caller to say: the format itself has no text for them, the reader has
three names, and a dump writes `null`.
-/

namespace Reckoner
namespace Json

/-- Doubles are positional for decimal exponents from -5 to 15; exponents are as short as
possible. -/
def layout : Layout := ⟨-5, 16, 1⟩

/-- A string between its quotes. -/
def stringText (text : String) : List Char :=
  '"' :: StringLiteral.encode text.toList ++ ['"']

/-- The names that the reader knows for the doubles without digits. -/
def nonFiniteName : Double → String
  | .infinite false => "Infinity"
  | .infinite true => "-Infinity"
  | _ => "NaN"

mutual

/-- A data tree as text. -/
def write (nonFinite : Double → String) : Data → List Char
  | .null => "null".toList
  | .bool b => (if b then "true" else "false").toList
  | .int n => (Numeral.ofInt n).toList
  | .double x => (if x.isFinite then layout.text x else nonFinite x).toList
  | .string text => stringText text
  | .array items => '[' :: writeItems nonFinite items ++ [']']
  | .object fields => '\x7b' :: writeFields nonFinite fields ++ ['\x7d']

/-- The items of an array, with commas between them. -/
def writeItems (nonFinite : Double → String) : List Data → List Char
  | [] => []
  | [item] => write nonFinite item
  | item :: items => write nonFinite item ++ ',' :: writeItems nonFinite items

/-- The fields of an object, with commas between them. -/
def writeFields (nonFinite : Double → String) : List (String × Data) → List Char
  | [] => []
  | [(key, value)] => stringText key ++ ':' :: write nonFinite value
  | (key, value) :: fields =>
    stringText key ++ ':' :: write nonFinite value ++ ',' :: writeFields nonFinite fields

end

/-- The text that the reader reads back, infinities and not-a-number included. -/
def compact (data : Data) : String := String.ofList (write nonFiniteName data)

/-- The text of a dump: `null` for what has no digits. -/
def dump (data : Data) : String := String.ofList (write (fun _ => "null") data)

end Json
end Reckoner
