import Planfile.Command.Console
import Planfile.Plan.Stored

/-!
# Planfile — commands

Three commands: checking plans, writing the project of a plan as JSON, and listing the rules of the
grammar. What they need to know about time they ask a clock, which is the only thing they depend on
besides files and environment.

Main results:

* `Invocation.ofArguments?_grammar` — how a command is asked for.
-/

namespace Planfile.Command

open Log (Event)
open Plan (Project)

/-! ## Invocations -/

/-- What is to be done. -/
inductive Task where
  | check (files : List String)
  | dump (file : String) (pretty : Bool)
  | grammar
  deriving DecidableEq, Repr

/-- The plans that a task is about. -/
def Task.plans : Task → List String
  | .check files => files
  | .dump file _ => [file]
  | .grammar => []

/-- A task and how much is told about it: `1` tells what is of interest, `2` everything. -/
structure Invocation where
  verbosity : Nat
  task : Task
  deriving DecidableEq, Repr

/-- How often an argument asks to tell more: once for each `v`. -/
def verbosityOf (argument : String) : Nat :=
  if argument = "--verbose" then 1
  else
    match argument.toList with
    | '-' :: letters => if letters.all (· == 'v') then letters.length else 0
    | _ => 0

/-- The task that the words of a command line ask for. -/
def Task.ofWords? : List String → Option Task
  | "check" :: file :: files => some (.check (file :: files))
  | ["dump", file] => some (.dump file false)
  | ["dump", file, "--pretty"] | ["dump", "--pretty", file] => some (.dump file true)
  | ["grammar"] => some .grammar
  | _ => none

/-- What the arguments of a command line ask for; how much is told can be said anywhere. -/
def Invocation.ofArguments? (arguments : List String) : Option Invocation :=
  let verbosity := arguments.foldl (fun n argument => n + verbosityOf argument) 0
  (Task.ofWords? (arguments.filter (verbosityOf · == 0))).map (Invocation.mk verbosity)

/-- How much is told can be said before the task. -/
theorem Invocation.ofArguments?_grammar : ofArguments? ["-vv", "grammar"] = some ⟨2, .grammar⟩ := by
  decide

/-- The preferences of an invocation: who wants to be told everything gets it on the console. -/
def Invocation.preferences (i : Invocation) (env : Settings.Environment) :
    Settings.Preferences :=
  let p := Settings.Preferences.ofEnvironment env
  if 2 ≤ i.verbosity then { p with logging := { p.logging with console := true, level := .debug } }
  else p

/-- The journal of a run, which nobody listens to without a console. -/
def journalFor (p : Settings.LoggingPreferences) : Log.Journal :=
  ⟨if p.console then some p.level else none, p.fileContext, none, []⟩

/-- A run in which only its start has been reported. -/
def Run.start (p : Settings.Preferences) (files : File.System) : Run :=
  let session := Session.start p files (journalFor p.logging)
  let ready := Limits.leaveRoomForLog && Code.lexical.all Code.isKnown
  ⟨if ready then session.record (.success .initialized "Global logging system initialized")
    else session, .empty⟩

/-! ## Reports about plans -/

/-- The summary of a plan that took `elapsed` nanoseconds. -/
def summary (file : String) (p : Processed) (elapsed : Nat) : List String :=
  let q := p.project
  let counts := s!"scenarios: {q.scenarios.length}  tasks: {q.tasks.length}"
  let more := s!"resources: {q.resources.length}  reports: {q.reports.length}"
  [s!"ok     {file}",
    s!"    project:   {q.id} \"{q.name}\" {q.version}",
    s!"    timeframe: {q.start.summaryText} - {q.stop.summaryText}",
    s!"    {counts}  {more}"] ++
  (if p.included.isEmpty then [] else [s!"    includes:  {p.included.length}"]) ++
  [s!"    tokens:    {p.tokenCount} in {Number.fixedText 2 elapsed 1000000} ms"]

/-- What is said about a plan that failed: an error in a plan with the line that it is in, if the
file can be read again. -/
def failure (files : File.System) (file : String) (e : ProcessError) : String :=
  match e with
  | .parse p =>
    let l := p.location
    let text := match files.lookup l.file with
      | some ⟨_, .file content⟩ => String.fromUTF8? content
      | _ => none
    let shown := match text with
      | some content => (⟨l.file, content⟩ : SourceText).excerpt l.line l.column p.message
      | none => s!"Error: {p.message}\n  --> {l.text}\n"
    shown ++ s!"FAILED {file} [{e.code.text}]\n"
  | _ => s!"FAILED {file}: [{e.code.text}] {e.message}\n"

/-! ## Commands -/

section

variable {m : Type → Type} [Monad m]

/-- Nanoseconds in a second. -/
def second : Nat := 1000000000

/-- Processes a plan and tells the time it took, in nanoseconds. -/
def process (clock : m Nat) (file : String) (r : Run) :
    m (Except ProcessError Processed × Nat × Run) := do
  let started ← clock
  let (outcome, session) := r.session.processFile file
  let stopped ← clock
  let elapsed := stopped - started
  let session := match outcome with
    | .ok p => session.record (p.event file elapsed)
    | .error _ => session
  return (outcome, elapsed, { r with session }.flush (stopped / second))

/-- Checks a plan; the answer is whether it is sound. -/
def checkFile (clock : m Nat) (i : Invocation) (file : String) (r : Run) : m (Bool × Run) := do
  let r := if 2 ≤ i.verbosity then r.complain s!"[DEBUG tjp] Checking {file}\n" else r
  let (outcome, elapsed, r) ← process clock file r
  match outcome with
  | .ok p => return (true, (summary file p elapsed).foldl Run.print r)
  | .error e => return (false, r.complain (failure r.session.files file e))

/-- Checks plans; the answer is the number of plans that failed. -/
def checkFiles (clock : m Nat) (i : Invocation) : List String → Run → m (Nat × Run)
  | [], r => return (0, r)
  | file :: rest, r => do
    let (sound, r) ← checkFile clock i file r
    let (failed, r) ← checkFiles clock i rest r
    return (if sound then failed else failed + 1, r)

/-- Checks plans and counts them. -/
def check (clock : m Nat) (i : Invocation) (files : List String) (r : Run) : m (Bool × Run) := do
  let (failed, r) ← checkFiles clock i files r
  let total := files.length
  let passed := total - failed
  return (failed == 0, r.print s!"\n{total} file(s) checked, {passed} passed, {failed} failed")

/-- Writes the project of a plan. -/
def dump (clock : m Nat) (file : String) (pretty : Bool) (r : Run) : m (Bool × Run) := do
  let (outcome, _, r) ← process clock file r
  match outcome with
  | .error e => return (false, r.complain (failure r.session.files file e))
  | .ok p =>
    let stored := Plan.storeProject p.project
    return (true, r.print (if pretty then stored.pretty else stored.compact))

/-- Lists the rules of the grammar. -/
def listGrammar (i : Invocation) (now : Nat) (r : Run) : Bool × Run :=
  let r := { r with session := r.session.withGrammar }.flush now
  match Language.grammar with
  | .error e => (false, r.complain s!"Grammar defect [{e.code.text}]: {e.message}\n")
  | .ok table =>
    let r := table.listing.foldl Run.print r
    (true, if 1 ≤ i.verbosity then r.complain s!"[INFO  tjp] {table.rules.size} rules\n" else r)

/-- Carries out an invocation; the answer is whether all went well. -/
def run (clock : m Nat) (i : Invocation) (env : Settings.Environment) (files : File.System) :
    m (Bool × Console) := do
  let now := (← clock) / second
  let r := (Run.start (i.preferences env) files).flush now
  let (sound, r) ← match i.task with
    | .check paths => check clock i paths r
    | .dump path pretty => dump clock path pretty r
    | .grammar => pure (listGrammar i now r)
  return (sound, r.console)

end

end Planfile.Command
