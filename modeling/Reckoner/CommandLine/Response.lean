import Reckoner.CommandLine.Arguments
import Reckoner.Demonstration
import Reckoner.Settings.Schema

/-!
# Responses to the command line

A response is an exit code and the texts on the two output streams.  Mistakes in the argument list
come first, then the version or the help, then a wrong style, then extra arguments; only then is
the demonstration run.  Log entries go to the error stream, the unimportant ones only on request.
-/

namespace Reckoner
namespace CommandLine

/-- What the program answers. -/
structure Response where
  exitCode : Nat
  output : String
  errors : String
  deriving DecidableEq

/-- The name of the program. -/
def programName : String := "advanced-calc"

/-- The version text. -/
def versionText : String := programName ++ ", version 0.1.0\n"

/-- The first line of the help and of most complaints. -/
def usageLine : String := "Usage: " ++ programName ++ " [OPTIONS]\n"

/-- The help text. -/
def helpText : String :=
  usageLine ++ "\n" ++
  "  Print the advanced calculator demonstration results.\n\n" ++
  "Options:\n" ++
  "  --version                       Show the version and exit.\n" ++
  "  --float-style [fixed|truncated]\n" ++
  "                                  How division and square-root results are\n" ++
  "                                  displayed  [default: fixed]\n" ++
  "  -v, --verbose                   Enable verbose logging\n" ++
  "  --help                          Show this message and exit.\n"

namespace UsageError

/-- The wording of a mistake. -/
def message : UsageError → String
  | missingValue name => "Option " ++ Text.quoted name ++ " requires an argument."
  | unexpectedValue name => "Option " ++ Text.quoted name ++ " does not take a value."
  | unknownOption name => "No such option " ++ Text.quoted name ++ "."
  | invalidStyle value =>
    "Invalid value for '--float-style': " ++ Text.quoted value ++ " is not one of " ++
      ", ".intercalate (Style.all.map fun style => Text.quoted style.name) ++ "."
  | extraArguments arguments =>
    "Got unexpected extra argument" ++ (if arguments.length = 1 then "" else "s") ++
      " (" ++ " ".intercalate arguments ++ ")"

/-- Whether the usage is shown with a mistake; a wrong use of a value is shown alone. -/
def showsUsage : UsageError → Bool
  | missingValue _ => false
  | unexpectedValue _ => false
  | _ => true

/-- The response to a mistake.  Arguments are shown without their control sequences. -/
def response (error : UsageError) : Response where
  exitCode := 2
  output := ""
  errors :=
    (if error.showsUsage then
      usageLine ++ "Try '" ++ programName ++ " --help' for help.\n\n"
    else "") ++ "Error: " ++ ControlSequence.stripText error.message ++ "\n"

end UsageError

/-- Whether a log entry is shown. -/
def isShown (verbose : Bool) (entry : LogEntry) : Bool :=
  verbose || entry.level != .debug

/-- The line of a log entry. -/
def logLine (entry : LogEntry) : String :=
  entry.channel.name ++ " - " ++ entry.level.name ++ " - " ++ entry.message?.getD "" ++ "\n"

/-- The demonstration with its announcement in the log. -/
def demonstration (style : Style) : Transcript Int := do
  let settings : Settings.Calculator := { display := { style } }
  Transcript.log .debug .commandLine
    ((Settings.Calculator.schema.description settings).map ("Running demo with " ++ ·))
  Demonstration.run settings settings.display

/-- The response that a transcript amounts to. -/
def transcriptResponse (verbose : Bool) (transcript : Transcript Int) : Response :=
  let logged := String.join ((transcript.entries.filter (isShown verbose)).map logLine)
  match transcript.result with
  | .ok code => ⟨code.toNat, transcript.written, logged⟩
  | .error fault => ⟨1, transcript.written, logged ++ fault.message ++ "\n"⟩

/-- The response to arguments without mistakes in their form. -/
def respondTo (given : Arguments) : Response :=
  match given.action? with
  | some .version => ⟨0, versionText, ""⟩
  | some .help => ⟨0, helpText, ""⟩
  | none =>
    match given.style with
    | .error error => error.response
    | .ok style =>
      if given.extras.isEmpty then transcriptResponse given.verbose (demonstration style)
      else (UsageError.extraArguments given.extras).response

/-- The response to an argument list. -/
def respond (arguments : List String) : Response :=
  match Arguments.parse arguments with
  | .error error => error.response
  | .ok given => respondTo given

end CommandLine
end Reckoner
