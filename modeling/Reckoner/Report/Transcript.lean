import Reckoner.Fault

/-!
# Transcripts

A transcript is what a piece of reporting wrote and logged, in order, and how it ended: with a
result or with a fault.  What was written before a fault stays written.  Running one transcript
after another appends their events, and the second one runs only if the first one has a result.
-/

namespace Reckoner

/-- How important a log entry is. -/
inductive Level where
  | debug
  | warning
  deriving DecidableEq

/-- The name of a level. -/
def Level.name : Level → String
  | debug => "DEBUG"
  | warning => "WARNING"

/-- Which part of the program a log entry comes from. -/
inductive Channel where
  | commandLine
  | demonstration
  | report
  deriving DecidableEq

/-- The name of a channel. -/
def Channel.name : Channel → String
  | commandLine => "src.cli"
  | demonstration => "src.demo.driver"
  | report => "src.reporter.display"

/-- A log entry.  An entry whose message cannot be built has none. -/
structure LogEntry where
  level : Level
  channel : Channel
  message? : Option String
  deriving DecidableEq

/-- Something that a piece of reporting did. -/
inductive Event where
  | wrote (text : String)
  | logged (entry : LogEntry)
  deriving DecidableEq

/-- The written text of an event, if it wrote. -/
def Event.text? : Event → Option String
  | wrote text => some text
  | logged _ => none

/-- The log entry of an event, if it logged. -/
def Event.entry? : Event → Option LogEntry
  | wrote _ => none
  | logged entry => some entry

/-- The events of a piece of reporting and how it ended. -/
structure Transcript (α : Type) where
  events : List Event
  result : Except Fault α

namespace Transcript

variable {α β : Type}

/-- A transcript without events. -/
protected def pure (x : α) : Transcript α := ⟨[], .ok x⟩

/-- One transcript after another. -/
protected def bind (first : Transcript α) (next : α → Transcript β) : Transcript β :=
  match first.result with
  | .ok x =>
    let second := next x
    ⟨first.events ++ second.events, second.result⟩
  | .error fault => ⟨first.events, .error fault⟩

instance : Monad Transcript where
  pure := Transcript.pure
  bind := Transcript.bind

@[simp] theorem pure_eq (x : α) : (pure x : Transcript α) = ⟨[], .ok x⟩ := rfl

/-- After a result, the events of both parts stand one after the other. -/
theorem bind_of_ok {first : Transcript α} {x : α} (h : first.result = .ok x)
    (next : α → Transcript β) :
    first >>= next = ⟨first.events ++ (next x).events, (next x).result⟩ := by
  change Transcript.bind first next = _
  simp only [Transcript.bind, h]

/-- After a fault, nothing more happens. -/
theorem bind_of_error {first : Transcript α} {fault : Fault} (h : first.result = .error fault)
    (next : α → Transcript β) : first >>= next = ⟨first.events, .error fault⟩ := by
  change Transcript.bind first next = _
  simp only [Transcript.bind, h]

/-- A calculation without events. -/
def ofExcept (x : Except Fault α) : Transcript α := ⟨[], x⟩

instance : MonadLift (Except Fault) Transcript := ⟨ofExcept⟩

/-- Writes a text. -/
def write (text : String) : Transcript Unit := ⟨[.wrote text], .ok ()⟩

/-- Makes a log entry.  A fault in its message does not stop the program. -/
def log (level : Level) (channel : Channel) (message : Except Fault String) : Transcript Unit :=
  ⟨[.logged ⟨level, channel, message.toOption⟩], .ok ()⟩

/-- The written texts, in order. -/
def texts (transcript : Transcript α) : List String := transcript.events.filterMap Event.text?

/-- All that was written. -/
def written (transcript : Transcript α) : String := String.join transcript.texts

/-- The log entries, in order. -/
def entries (transcript : Transcript α) : List LogEntry :=
  transcript.events.filterMap Event.entry?

end Transcript
end Reckoner
