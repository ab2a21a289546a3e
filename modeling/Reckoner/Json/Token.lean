import Reckoner.Decimal.Reading
import Reckoner.Json.StringLiteral

/-!
# Data trees and the tokens of JSON text

A data tree is a dynamic value: what a JSON text denotes, with integers and doubles kept apart.  An
object keeps its fields in the order in which they were given and may repeat a name; looking a name
up finds its last binding.

A text is cut into brackets, braces, colons, commas, strings, and bare words between them; a bare
word is a number or one of the names.  Beside the names of the format, `NaN`, `Infinity` and
`-Infinity` are read.

A number with a fraction or an exponent is a double, rounded from its exact value; any other is an
integer.  Before the point or the exponent a number has at most `Numeral.digitLimit` digits.
-/

namespace Reckoner

/-- A data tree. -/
inductive Data where
  | null
  | bool (b : Bool)
  | int (n : Int)
  | double (x : Double)
  | string (s : String)
  | array (items : List Data)
  | object (fields : List (String × Data))
  deriving Inhabited

namespace Data

/-- The last value bound to a name. -/
def lookup (name : String) : List (String × Data) → Option Data
  | [] => none
  | (key, value) :: fields =>
    (lookup name fields).or (if key = name then some value else none)

end Data

namespace Json

/-- A token. -/
inductive Token where
  | beginObject
  | endObject
  | beginArray
  | endArray
  | colon
  | comma
  | string (text : String)
  | literal (value : Data)

/-- A number without its minus sign. -/
def unsigned? (negative : Bool) (parts : Parts) : Option Data :=
  if !Numeral.isShort parts.whole then none
  else
    match parts.fraction?, parts.exponent? with
    | none, none => some (.int (signed negative (Numeral.value parts.whole)))
    | fraction?, _ =>
      if !(fraction?.map Numeral.isDigits).getD true then none
      else
        parts.exponent.map fun exponent =>
          .double ((Parts.scaled parts.whole (fraction?.getD []) exponent).toDouble negative)

/-- A number. -/
def number? (text : List Char) : Option Data :=
  let (negative, body) := Numeral.splitMinus text
  unsigned? negative (.ofText body)

/-- A bare word. -/
def literal? (text : List Char) : Option Data :=
  match String.ofList text with
  | "null" => some .null
  | "true" => some (.bool true)
  | "false" => some (.bool false)
  | "NaN" => some (.double .nan)
  | "Infinity" => some (.double (.infinite false))
  | "-Infinity" => some (.double (.infinite true))
  | _ => number? text

/-- The characters that may stand between tokens. -/
def isBlank (c : Char) : Bool := c == ' ' || c == '\t' || c == '\n' || c == '\r'

/-- The tokens of one character. -/
def mark? : Char → Option Token
  | '\x7b' => some .beginObject
  | '\x7d' => some .endObject
  | '[' => some .beginArray
  | ']' => some .endArray
  | ':' => some .colon
  | ',' => some .comma
  | _ => none

/-- What has been read of a token that is not complete; characters are kept in reverse. -/
inductive Pending where
  | nothing
  | bare (read : List Char)
  | quoted (read : List Char)
  | escaped (read : List Char)

namespace Pending

/-- Whether a character ends a bare word. -/
def endsBare (c : Char) : Bool := isBlank c || c == '"' || (mark? c).isSome

/-- A character outside of strings and bare words. -/
def start (c : Char) : Pending × List Token :=
  if isBlank c then (nothing, [])
  else
    match mark? c with
    | some token => (nothing, [token])
    | none => if c = '"' then (quoted [], []) else (bare [c], [])

/-- One more character, with the tokens that it completes. -/
def next : Pending → Char → Option (Pending × List Token)
  | nothing, c => some (start c)
  | bare read, c =>
    if endsBare c then
      (literal? read.reverse).map fun value =>
        ((start c).1, .literal value :: (start c).2)
    else some (bare (c :: read), [])
  | quoted read, c =>
    if c = '"' then
      (StringLiteral.decode read.reverse).map fun text =>
        (nothing, [.string (String.ofList text)])
    else if c = '\\' then some (escaped (c :: read), [])
    else some (quoted (c :: read), [])
  | escaped read, c => some (quoted (c :: read), [])

/-- The tokens that the end of the text completes. -/
def finish : Pending → Option (List Token)
  | nothing => some []
  | bare read => (literal? read.reverse).map fun value => [.literal value]
  | _ => none

/-- The tokens of a text, after what is pending. -/
def scan (pending : Pending) : List Char → Option (List Token)
  | [] => pending.finish
  | c :: text =>
    (pending.next c).bind fun (pending, tokens) => (scan pending text).map (tokens ++ ·)

/-- A character that completes no token only changes what is pending. -/
theorem scan_cons {pending after : Pending} {c : Char} (h : pending.next c = some (after, []))
    (text : List Char) : scan pending (c :: text) = scan after text := by
  rw [scan, h, Option.bind_some]
  exact Option.map_id'

end Pending

/-- The tokens of a text. -/
def tokens? (text : List Char) : Option (List Token) := Pending.nothing.scan text

end Json
end Reckoner
