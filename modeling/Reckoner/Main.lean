import Reckoner.CommandLine.Response

/-!
# The program

Prints the response to its arguments.
-/

/-- Runs the command line. -/
def main (arguments : List String) : IO UInt32 := do
  let response := Reckoner.CommandLine.respond arguments
  (← IO.getStdout).putStr response.output
  (← IO.getStderr).putStr response.errors
  return UInt32.ofNat response.exitCode
