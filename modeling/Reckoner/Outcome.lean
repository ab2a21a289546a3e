import Reckoner.Number
import Reckoner.Text.Character

/-!
# Outcomes

An outcome is a value, or a recoverable error with a zero in place of the value.  The zero may be
the integer or either double zero; the type guarantees that it is one of them.

Outcomes are compared by exact value, so two outcomes can be equal and still be described
differently (`0`, `0.0` and `-0.0`).
-/

namespace Reckoner

/-- The errors after which a calculation goes on. -/
inductive ErrorKind where
  | divisionByZero
  | negativeSquareRoot
  deriving DecidableEq

namespace ErrorKind

/-- The name of an error kind. -/
def code : ErrorKind → String
  | divisionByZero => "DIVISION_BY_ZERO"
  | negativeSquareRoot => "NEGATIVE_SQRT_INPUT"

/-- What is reported for an error kind. -/
def message : ErrorKind → String
  | divisionByZero => "Error: Division by zero!"
  | negativeSquareRoot => "Error: Cannot calculate square root of negative number!"

/-- All error kinds. -/
def all : List ErrorKind := [divisionByZero, negativeSquareRoot]

/-- The error kind with exactly this name, or a fault that shows the text. -/
def ofCode (text : String) : Except Fault ErrorKind :=
  match all.find? (·.code == text) with
  | some kind => .ok kind
  | none => .error (.unknownErrorKind (Text.quoted text))

/-- The description of an error kind, with its name quoted. -/
def description (kind : ErrorKind) : String :=
  "<CalcErrorKind." ++ kind.code ++ ": " ++ Text.quoted kind.code ++ ">"

end ErrorKind

/-- The value that stands for a missing result. -/
def sentinel : Number := .double (.zero false)

/-- A value, or an error with a zero. -/
structure Outcome where
  value : Number
  error : Option ErrorKind
  zero_of_error : error ≠ none → value.eq sentinel = true
  deriving DecidableEq

namespace Outcome

/-- A result. -/
def success (value : Number) : Outcome := ⟨value, none, fun h => absurd rfl h⟩

/-- An error. -/
def failure (kind : ErrorKind) : Outcome := ⟨sentinel, some kind, fun _ => by decide⟩

/-- Puts a value and an error together; an error admits only a zero. -/
def make (value : Number) (error : Option ErrorKind) : Except Fault Outcome :=
  if h : error ≠ none → value.eq sentinel = true then .ok ⟨value, error, h⟩
  else value.refuse .sentinelNotZero

/-- Whether an outcome is a result. -/
def isOk (outcome : Outcome) : Bool := outcome.error.isNone

/-- What is reported for an outcome, if anything. -/
def message (outcome : Outcome) : Option String := outcome.error.map ErrorKind.message

/-- The same error and values that are equal as exact numbers. -/
def eq (x y : Outcome) : Bool := x.value.eq y.value && x.error == y.error

/-- The description of an outcome. -/
def description (outcome : Outcome) : Except Fault String :=
  outcome.value.text.map fun value =>
    "CalcOutcome(value=" ++ value ++ ", error=" ++
      (outcome.error.map ErrorKind.description).getD "None" ++ ")"

/-- No part of an outcome can be replaced. -/
def assign (_ : Outcome) (field : String) : Except Fault Outcome :=
  .error (.immutableField (Text.quoted field))

end Outcome
end Reckoner
