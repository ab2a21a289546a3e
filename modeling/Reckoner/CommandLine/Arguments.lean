import Reckoner.Style

/-!
# Command-line arguments

One option takes a value, the result style; the others are flags.  Arguments are read from left to
right and the first mistake ends the reading.  An option with a value takes the next argument
whatever it looks like, unless its value is attached with `=`; of several values the last counts.
After two dashes everything is an extra argument.  Whether a value is sensible is not checked here.
-/

namespace Reckoner
namespace CommandLine

/-- What is done instead of the demonstration. -/
inductive Action where
  | version
  | help
  deriving DecidableEq

/-- The options. -/
inductive Switch where
  | style
  | verbose
  | act (action : Action)
  deriving DecidableEq

/-- The option with this long name. -/
def Switch.ofName? : String → Option Switch
  | "--float-style" => some .style
  | "--verbose" => some .verbose
  | "--version" => some (.act .version)
  | "--help" => some (.act .help)
  | _ => none

/-- The option with this letter. -/
def Switch.ofLetter? : Char → Option Switch
  | 'v' => some .verbose
  | _ => none

/-- The mistakes in an argument list. -/
inductive UsageError where
  | missingValue (name : String)
  | unexpectedValue (name : String)
  | unknownOption (name : String)
  | invalidStyle (value : String)
  | extraArguments (arguments : List String)
  deriving DecidableEq

/-- What an argument list asks for. -/
structure Arguments where
  style? : Option String := none
  verbose : Bool := false
  action? : Option Action := none
  extras : List String := []
  deriving DecidableEq

/-- The kinds of arguments. -/
inductive Argument where
  | extra
  | long (name : String) (value? : Option String)
  | letters (letters : List Char)
  deriving DecidableEq

namespace Argument

/-- What follows the first equals sign. -/
def attached? (text : List Char) : Option String :=
  match text.dropWhile (· != '=') with
  | [] => none
  | _ :: value => some (String.ofList value)

/-- The kind of an argument. -/
def ofText (text : String) : Argument :=
  match text.toList with
  | '-' :: '-' :: _ =>
    .long (String.ofList (text.toList.takeWhile (· != '='))) (attached? text.toList)
  | '-' :: c :: rest => .letters (c :: rest)
  | _ => .extra

end Argument

namespace Arguments

/-- Turns a flag on.  Of several actions the first one counts. -/
def setFlag (given : Arguments) : Switch → Arguments
  | .style => given
  | .verbose => { given with verbose := true }
  | .act action => { given with action? := given.action?.or (some action) }

/-- Reads a group of letters. -/
def setLetters (given : Arguments) : List Char → Except UsageError Arguments
  | [] => .ok given
  | c :: letters =>
    match Switch.ofLetter? c with
    | none => .error (.unknownOption (String.ofList ['-', c]))
    | some switch => (given.setFlag switch).setLetters letters

/-- Reads arguments after what has been given. -/
def read (given : Arguments) : List String → Except UsageError Arguments
  | [] => .ok given
  | "--" :: rest => .ok { given with extras := given.extras ++ rest }
  | argument :: rest =>
    match Argument.ofText argument with
    | .extra => read { given with extras := given.extras ++ [argument] } rest
    | .letters letters => (given.setLetters letters).bind fun given => read given rest
    | .long name value? =>
      match Switch.ofName? name with
      | none => .error (.unknownOption name)
      | some .style =>
        match value? with
        | some value => read { given with style? := some value } rest
        | none =>
          match rest with
          | value :: rest => read { given with style? := some value } rest
          | [] => .error (.missingValue name)
      | some switch =>
        match value? with
        | some _ => .error (.unexpectedValue name)
        | none => read (given.setFlag switch) rest

/-- Reads an argument list. -/
def parse (arguments : List String) : Except UsageError Arguments := read {} arguments

/-- The style that is asked for. -/
def style (given : Arguments) : Except UsageError Style :=
  match given.style? with
  | none => .ok .fixed
  | some name => (Style.ofName? name).elim (.error (.invalidStyle name)) .ok

end Arguments
end CommandLine
end Reckoner
