import Planfile.Processing

/-!
# Planfile — what a command writes

A command writes to its output and to its error output. Log events go there too, if the console is
asked for them: errors to the error output and all others to the output.

Main results:

* `Run.flush_flush` — what has been written is not written again.
-/

namespace Planfile.Command

open Log (Event)

/-- What a command has written. -/
structure Console where
  output : String
  errors : String
  deriving DecidableEq, Repr

namespace Console

/-- Nothing written. -/
def empty : Console := ⟨"", ""⟩

/-- Writes to the output. -/
def write (c : Console) (text : String) : Console := { c with output := c.output ++ text }

/-- Writes to the error output. -/
def writeError (c : Console) (text : String) : Console := { c with errors := c.errors ++ text }

/-- A line for an event that happened `now`, in seconds; structured lines are stored values. -/
def eventLine (structured : Bool) (now : Nat) (e : Event) : String :=
  if structured then (e.stored [("timestamp", .nat now)]).compact else e.line

/-- Writes an event. -/
def writeEvent (structured : Bool) (now : Nat) (c : Console) (e : Event) : Console :=
  let line := eventLine structured now e ++ "\n"
  if e.level = .error then c.writeError line else c.write line

end Console

/-- A session and what has been written about it. -/
structure Run where
  session : Session
  console : Console

namespace Run

/-- Writes a line to the output. -/
def print (r : Run) (line : String) : Run := { r with console := r.console.write (line ++ "\n") }

/-- Writes to the error output. -/
def complain (r : Run) (text : String) : Run := { r with console := r.console.writeError text }

/-- Writes what the session has reported since the last time. -/
def flush (r : Run) (now : Nat) : Run :=
  let structured := r.session.preferences.logging.structured
  let events := r.session.journal.events.reverse
  { session := { r.session with journal := { r.session.journal with events := [] } }
    console := events.foldl (Console.writeEvent structured now) r.console }

/-- What has been written is not written again. -/
theorem flush_flush (r : Run) (now later : Nat) : (r.flush now).flush later = r.flush now := rfl

end Run

end Planfile.Command
