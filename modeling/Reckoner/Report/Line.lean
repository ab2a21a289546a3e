import Reckoner.Report.Transcript
import Reckoner.Settings.Basic
import Reckoner.Text.ControlSequence

/-!
# Reported lines

Every line is written without its terminal control sequences and ends with a line break.  A result
is its label, the separator and the displayed number.  A failed outcome is logged and reported, and
its zero is then used as if it were the result.
-/

namespace Reckoner
namespace Report

open Settings (Display)

/-- Writes a line. -/
def line (text : String) : Transcript Unit :=
  .write (ControlSequence.stripText text ++ "\n")

/-- Writes an empty line. -/
def blank : Transcript Unit := line ""

/-- The text of a result with its label; control sequences stay in it. -/
def resultText (display : Display) (label : String) (value : Number) : Except Fault String :=
  (display.style.format value).map fun text => label ++ display.separator ++ text

/-- Writes a result with its label. -/
def result (display : Display) (label : String) (value : Number) : Transcript Unit := do
  let text ← resultText display label value
  line text

/-- Writes a result as a double. -/
def doubleResult (display : Display) (label : String) (value : Number) : Transcript Unit := do
  let x ← value.toDouble
  result display label (.double x)

/-- The log message for an outcome that failed. -/
def recoveryMessage (kind : ErrorKind) (value : Number) : Except Fault String :=
  value.text.map fun text =>
    "Recovered domain error " ++ kind.code ++ ", using sentinel " ++ text

/-- Reports an outcome that failed, and gives the value to go on with. -/
def recover (outcome : Outcome) : Transcript Number :=
  match outcome.error with
  | none => pure outcome.value
  | some kind => do
    Transcript.log .warning .report (recoveryMessage kind outcome.value)
    line kind.message
    return outcome.value

/-- Reports an outcome and writes its value with a label. -/
def outcome (display : Display) (label : String) (outcome : Outcome) : Transcript Unit := do
  let value ← recover outcome
  doubleResult display label value

end Report
end Reckoner
