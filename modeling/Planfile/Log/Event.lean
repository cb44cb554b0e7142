import Planfile.Json
import Planfile.Log.Code
import Planfile.Settings.Limits
import Planfile.Source.Text

/-!
# Planfile — log events

What a run reports while it goes on. An event has a level, a code and a message of bounded length,
and may carry a span and named values.

Main results:

* `cutMessage_of_le` — a message within the bound is kept as it is.
* `Level.order_le_order_debug` — debug is the most talkative level.
* `Journal.file_record` — recording an event changes no file.
-/

namespace Planfile.Log

/-! ## Levels -/

/-- How much a run tells: a level includes all levels before it. -/
inductive Level where
  | error
  | warning
  | info
  | debug
  deriving DecidableEq, Repr

/-- The place of a level in the order of talkativeness. -/
def Level.order : Level → Nat
  | .error => 0
  | .warning => 1
  | .info => 2
  | .debug => 3

/-- Whether a run of the level `least` tells events of the level `l`. -/
def Level.admits (least l : Level) : Bool := l.order ≤ least.order

/-- No level tells more than debug does. -/
theorem Level.order_le_order_debug (l : Level) : l.order ≤ Level.debug.order := by
  cases l <;> decide

/-- The name of a level at the head of a log line. -/
def Level.name : Level → String
  | .error => "ERROR"
  | .warning => "WARN"
  | .info => "INFO"
  | .debug => "DEBUG"

/-- The level that a word or a digit stands for. -/
def Level.ofWord? (word : String) : Option Level :=
  let word := String.ofList (word.toList.map Char.toLower)
  if word = "error" ∨ word = "0" then some .error
  else if word = "warning" ∨ word = "warn" ∨ word = "1" then some .warning
  else if word = "info" ∨ word = "2" then some .info
  else if word = "debug" ∨ word = "3" then some .debug
  else none

/-! ## Messages of bounded length -/

/-- Goes back in a text from an offset in bytes, byte by byte, to one at which no character is cut in two. Nothing is
found if the search would have to go on in front of the text. -/
def lastBoundary? (text : String) (offset : Nat) : Option Nat :=
  if String.Pos.Raw.isValid text ⟨offset⟩ then some offset
  else match offset with
    | 0 => none
    | offset + 1 => lastBoundary? text offset

/-- A message within the bound. Of any other one the characters that end within the bound, and three dots. -/
def cutMessage (message : String) : String :=
  if message.utf8ByteSize ≤ Limits.logMessageLength then message
  else match lastBoundary? message Limits.logMessageLength with
    | some cut => String.ofList (byteSlice 0 cut message.toList) ++ "..."
    -- the search never ends like this, since every text starts at a boundary
    | none => message

/-- A message within the bound is kept as it is. -/
theorem cutMessage_of_le {message : String}
    (h : message.utf8ByteSize ≤ Limits.logMessageLength) : cutMessage message = message := by
  simp [cutMessage, h]

/-! ## Events -/

/-- Named values, names in ascending order. -/
abbrev Details := List (String × String)

/-- Sets a named value; the latest value of a name counts. -/
def Details.set (name value : String) : Details → Details
  | [] => [(name, value)]
  | (other, old) :: rest =>
    if name = other then (name, value) :: rest
    else if name < other then (name, value) :: (other, old) :: rest
    else (other, old) :: Details.set name value rest

/-- The value of a name. -/
def Details.get? (details : Details) (name : String) : Option String :=
  (details.find? (·.1 == name)).map (·.2)

/-- Something a run reports. -/
structure Event where
  level : Level
  code : Code
  message : String
  span : Option Span
  details : Details
  deriving DecidableEq, Repr

namespace Event

/-- An event without span and values. -/
def of (level : Level) (code : Code) (message : String) : Event :=
  ⟨level, code, cutMessage message, none, []⟩

/-- An error. -/
def error (code : Code) (message : String) : Event := of .error code message

/-- A warning; a general one has a code of its own. -/
def warning (code : Option Code) (message : String) : Event :=
  of .warning (code.getD ⟨"W000"⟩) message

/-- A report of success. -/
def success (code : Code) (message : String) : Event := of .info code message

/-- A note of general interest. -/
def info (message : String) : Event := of .info ⟨"I000"⟩ message

/-- A note for developers. -/
def debug (message : String) : Event := of .debug ⟨"D000"⟩ message

/-- The event with a span. -/
def spanning (e : Event) (span : Span) : Event := { e with span := some span }

/-- The event with one more named value. -/
def detail (e : Event) (name value : String) : Event :=
  { e with details := e.details.set name value }

/-- The event with more named values. -/
def detailed (e : Event) (details : List (String × String)) : Event :=
  details.foldl (fun e d => e.detail d.1 d.2) e

/-! ## Writing events -/

/-- The line of an event: level, code and message, with the place if there is a span. -/
def line (e : Event) : String :=
  let file := match e.details.get? "file" with
    | some file => file ++ ":"
    | none => ""
  let place := match e.span with
    | some span => s!" at {file}{span.start.text}"
    | none => ""
  s!"[{e.level.name}] {e.code.text} - {e.message}{place}"

/-- The truth values of a report. -/
private def truth (b : Bool) : String := if b then "true" else "false"

/-- The line of an event and all that is known about its code. -/
def report (e : Event) : String :=
  let halt := if e.level = .error then
      [s!"Recoverable: {truth e.code.recoverable}", s!"Requires halt: {truth e.code.requiresHalt}"]
    else []
  let known := match e.code.entry? with
    | some entry =>
      [s!"Description: {entry.description}", s!"Recommended action: {entry.action}"]
    | none => []
  let details := if e.details.isEmpty then []
    else "Context:" :: e.details.map fun d => s!"  {d.1}: {d.2}"
  let lines := [s!"Category: {e.code.category}", s!"Severity: {e.code.severity.name}"] ++ halt ++
    known ++ details
  lines.foldl (fun out l => out ++ "\n  " ++ l) e.line

/-- The event as a stored value with fields in ascending order; `clock` gives the field for the
time at which it happened. -/
def stored (e : Event) (clock : List (String × Json)) : Json :=
  let known : List (String × Json) := if e.level = .error then
      [("error_metadata", .object [
        ("description", .text e.code.description),
        ("recommended_action", .text e.code.action),
        ("recoverable", .bool e.code.recoverable),
        ("requires_halt", .bool e.code.requiresHalt)])]
    else []
  let span : List (String × Json) := match e.span with
    | some s => [("span", .object [
        ("end_column", .nat s.stop.column), ("end_line", .nat s.stop.line),
        ("start_column", .nat s.start.column), ("start_line", .nat s.start.line)])]
    | none => []
  let details : List (String × Json) := if e.details.isEmpty then []
    else [("context", .object (e.details.map fun d => (d.1, .text d.2)))]
  .object <| [("category", .text e.code.category), ("code", .text e.code.text)] ++ details ++
    known ++ [("level", .text e.level.name), ("message", .text e.message),
      ("severity", .text e.code.severity.name)] ++ span ++ clock

end Event

end Planfile.Log

/-!
## The journal of a run

A run keeps what it reports in a journal. The journal takes the events that its level admits and
adds to each the file that is being worked on, unless the event names a file itself.
-/

namespace Planfile.Log

/-- The file that is being worked on, and its place in the nesting of files. -/
structure FileContext where
  path : String
  id : Nat
  deriving DecidableEq, Repr

/-- What a run has reported so far. -/
structure Journal where
  /-- What is admitted; without a level nobody listens. -/
  level : Option Level
  /-- Whether events are told the file that is being worked on. -/
  namesFile : Bool
  file : Option FileContext
  /-- The events, the latest first. -/
  events : List Event
  deriving DecidableEq, Repr

namespace Journal

/-- A journal that takes nothing. -/
def silent : Journal := ⟨none, true, none, []⟩

/-- Whether events of a level are taken. -/
def admits (j : Journal) (l : Level) : Bool := j.level.any (·.admits l)

/-- The event with the file that is being worked on. -/
def attachFile (j : Journal) (e : Event) : Event :=
  match j.namesFile, e.details.get? "file", j.file with
  | true, none, some file => e.detail "file" file.path
  | _, _, _ => e

/-- Takes an event that is admitted. -/
def record (j : Journal) (e : Event) : Journal :=
  if j.admits e.level then { j with events := j.attachFile e :: j.events } else j

/-- Takes several events. -/
def recordAll (j : Journal) (es : List Event) : Journal := es.foldl record j

/-- Goes on with another file. -/
def enter (j : Journal) (file : FileContext) : Journal := { j with file := some file }

/-- Goes on without a file. -/
def leave (j : Journal) : Journal := { j with file := none }

/-- Goes back to the file at which an earlier journal was. -/
def backTo (j earlier : Journal) : Journal := { j with file := earlier.file }

/-- Taking an event changes no file. -/
theorem file_record (j : Journal) (e : Event) : (j.record e).file = j.file := by
  unfold record
  split <;> rfl

end Journal

end Planfile.Log
