import Reckoner.Number
import Reckoner.Decimal.Layout
import Reckoner.Text.Character

/-!
# Result styles

A style says how a double is displayed: with six places, or as its whole part.  Integers are
displayed the same way in both styles.
-/

namespace Reckoner

/-- How the doubles among the results are displayed. -/
inductive Style where
  | fixed
  | truncated
  deriving DecidableEq

namespace Style

/-- The name by which a style is chosen. -/
def name : Style → String
  | fixed => "fixed"
  | truncated => "truncated"

/-- The name of a style in descriptions. -/
def label : Style → String
  | fixed => "FIXED"
  | truncated => "TRUNCATED"

/-- All styles, in the order in which they are listed to the user. -/
def all : List Style := [fixed, truncated]

/-- The style with exactly this name. -/
def ofName? (text : String) : Option Style := all.find? (·.name == text)

/-- The style with exactly this name, or a fault that shows the text. -/
def ofName (text : String) : Except Fault Style :=
  match ofName? text with
  | some style => .ok style
  | none => .error (.unknownStyle (Text.quoted text))

/-- The description of a style, with its name quoted. -/
def description (style : Style) : String :=
  "<FloatStyle." ++ style.label ++ ": " ++ Text.quoted style.name ++ ">"

/-- Displayed doubles have six places. -/
def places : Nat := 6

/-- The displayed text of a number. -/
def format (style : Style) : Number → Except Fault String
  | .int n => Numeral.show? n
  | .double x =>
    match style with
    | fixed => .ok (Fixed.text places x)
    | truncated => x.truncate.bind Numeral.show?

end Style
end Reckoner
