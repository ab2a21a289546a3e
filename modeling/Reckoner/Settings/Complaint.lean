import Reckoner.Decimal.Numeral

/-!
# Complaints about settings

A complaint is a problem with the path of the field it concerns.  Checks are combined so that every
complaint is kept, in the order of the checks; `Checked.ap` is where that happens.
-/

namespace Reckoner
namespace Settings

/-- Where a data tree comes from. -/
inductive Source where
  | data
  | text
  deriving DecidableEq

/-- What can be wrong with a field. -/
inductive Problem where
  | invalidText
  | notObject (source : Source) (record : String)
  | notInteger
  | integerText
  | integerSize
  | integerFraction
  | notFinite
  | notNumber
  | numberText
  | notString
  | unknownStyle
  | notAboveZero
  | below (bound : Int)
  | immutable
  deriving DecidableEq

namespace Problem

/-- The code of a problem. -/
def code : Problem → String
  | invalidText => "json_invalid"
  | notObject .. => "model_type"
  | notInteger => "int_type"
  | integerText => "int_parsing"
  | integerSize => "int_parsing_size"
  | integerFraction => "int_from_float"
  | notFinite => "finite_number"
  | notNumber => "float_type"
  | numberText => "float_parsing"
  | notString => "string_type"
  | unknownStyle => "enum"
  | notAboveZero => "greater_than"
  | below _ => "greater_than_equal"
  | immutable => "frozen_instance"

/-- The wording of a problem; a text that cannot be read has none of its own. -/
def message? : Problem → Option String
  | invalidText => none
  | notObject .data record =>
    some ("Input should be a valid dictionary or instance of " ++ record)
  | notObject .text _ => some "Input should be an object"
  | notInteger => some "Input should be a valid integer"
  | integerText => some "Input should be a valid integer, unable to parse string as an integer"
  | integerSize => some "Unable to parse input string as an integer, exceeded maximum size"
  | integerFraction =>
    some "Input should be a valid integer, got a number with a fractional part"
  | notFinite => some "Input should be a finite number"
  | notNumber => some "Input should be a valid number"
  | numberText => some "Input should be a valid number, unable to parse string as a number"
  | notString => some "Input should be a valid string"
  | unknownStyle => some "Input should be 'fixed' or 'truncated'"
  | notAboveZero => some "Input should be greater than 0"
  | below bound => some ("Input should be greater than or equal to " ++ Numeral.ofInt bound)
  | immutable => some "Instance is frozen"

end Problem

/-- A problem and the field it concerns. -/
structure Complaint where
  path : List String
  problem : Problem
  deriving DecidableEq

/-- A value, or what is wrong with it. -/
abbrev Checked (α : Type) : Type := Except (List Complaint) α

namespace Checked

variable {α β : Type}

/-- A value with a single problem of its own. -/
def ofExcept : Except Problem α → Checked α
  | .ok x => .ok x
  | .error problem => .error [⟨[], problem⟩]

/-- Moves complaints below a field. -/
def under (name : String) : Checked α → Checked α
  | .ok x => .ok x
  | .error complaints =>
    .error (complaints.map fun complaint => { complaint with path := name :: complaint.path })

/-- Applies a checked function to a checked value, keeping the complaints of both in order. -/
def ap : Checked (α → β) → Checked α → Checked β
  | .ok f, .ok x => .ok (f x)
  | .ok _, .error complaints => .error complaints
  | .error complaints, .ok _ => .error complaints
  | .error before, .error after => .error (before ++ after)

end Checked
end Settings
end Reckoner
