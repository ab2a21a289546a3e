/-!
# Faults

What can go wrong in a calculation apart from the two recoverable error kinds, with the wording
shown for each.  A fault that shows a number carries its text, because writing the number can
itself fail.
-/

namespace Reckoner

/-- The reasons for which a calculation stops. -/
inductive Fault where
  /-- An integer has too many digits to be written. -/
  | numeralTooLong
  /-- A quotient of integers is beyond every finite double. -/
  | quotientTooLarge
  /-- An integer is beyond every finite double. -/
  | integerTooLarge
  /-- Not-a-number has no whole part. -/
  | truncatedNaN
  /-- An infinity has no whole part. -/
  | truncatedInfinity
  /-- A double was divided by zero. -/
  | zeroDivisor
  /-- A parameter must be finite. -/
  | notFinite (parameter shown : String)
  /-- A parameter must be above zero. -/
  | notPositive (parameter shown : String)
  /-- A search needs at least one iteration. -/
  | tooFewIterations (shown : String)
  /-- A failed outcome carries zero and nothing else. -/
  | sentinelNotZero (shown : String)
  /-- No result style has this name. -/
  | unknownStyle (quoted : String)
  /-- No error kind has this name. -/
  | unknownErrorKind (quoted : String)
  /-- Outcomes are immutable. -/
  | immutableField (quoted : String)
  deriving DecidableEq

/-- The classes of faults that callers tell apart. -/
inductive FaultClass where
  /-- A value was refused, or has too many digits. -/
  | value
  /-- A result is beyond every finite double. -/
  | overflow
  /-- A double was divided by zero. -/
  | zeroDivision
  /-- A part of an outcome was to be replaced. -/
  | assignment
  deriving DecidableEq

namespace Fault

/-- The class of a fault. -/
def category : Fault → FaultClass
  | quotientTooLarge => .overflow
  | integerTooLarge => .overflow
  | truncatedInfinity => .overflow
  | zeroDivisor => .zeroDivision
  | immutableField _ => .assignment
  | numeralTooLong => .value
  | truncatedNaN => .value
  | notFinite .. => .value
  | notPositive .. => .value
  | tooFewIterations _ => .value
  | sentinelNotZero _ => .value
  | unknownStyle _ => .value
  | unknownErrorKind _ => .value

/-- The wording of a fault. -/
def message : Fault → String
  | numeralTooLong => "Exceeds the limit (4300 digits) for integer string conversion; " ++
      "use sys.set_int_max_str_digits() to increase the limit"
  | quotientTooLarge => "integer division result too large for a float"
  | integerTooLarge => "int too large to convert to float"
  | truncatedNaN => "cannot convert float NaN to integer"
  | truncatedInfinity => "cannot convert float infinity to integer"
  | zeroDivisor => "float division by zero"
  | notFinite parameter shown =>
      parameter ++ " must be a valid float (not NaN/Inf), got " ++ shown
  | notPositive parameter shown => parameter ++ " must be positive, got " ++ shown
  | tooFewIterations shown => "max_iterations must be >= 1, got " ++ shown
  | sentinelNotZero shown => "Failed outcome must carry sentinel 0.0, got " ++ shown
  | unknownStyle quoted => quoted ++ " is not a valid FloatStyle"
  | unknownErrorKind quoted => quoted ++ " is not a valid CalcErrorKind"
  | immutableField quoted => "cannot assign to field " ++ quoted

end Fault
end Reckoner
