import Planfile.Command
import Planfile.Command.Reach
import Std.Time.DateTime.Timestamp

/-!
# Planfile — the program

The program reads the files that its arguments lead to, carries out what it is asked for and writes
what there is to say. All decisions are made in `Planfile.Command`; what is here asks the system for
files, variables and the time.
-/

open Planfile

namespace Planfile.Command

/-- How the program is called. -/
def usage : String := "usage: tjp [-v] check FILE... | dump [--pretty] FILE | grammar"

/-- What a path leads to; what is there but cannot be read counts as a directory. -/
def entryAt (path : String) : IO (Option File.Entry) := do
  let .ok canonical ← (IO.FS.realPath path).toBaseIO | return none
  let .ok content ← (IO.FS.readBinFile path).toBaseIO
    | return some ⟨toString canonical, .directory⟩
  return some ⟨toString canonical, .file content⟩

/-- Looks at all paths that a run may look at. -/
partial def explore (p : Settings.LexicalPreferences) (r : Reach) : IO Reach := do
  match r.next? with
  | none => return r
  | some path => explore p (r.add p path (← entryAt path))

/-- The variables of the environment that count. -/
def environment : IO Settings.Environment :=
  Settings.variableNames.filterMapM fun name => do
    return (← IO.getEnv name).map fun value => (name, value)

/-- The time in nanoseconds. -/
def clock : IO Nat := do
  return (← Std.Time.Timestamp.now).toNanosecondsSinceUnixEpoch.val.toNat

/-- Carries out what the arguments ask for; the answer is the exit code. -/
def runProgram (arguments : List String) : IO UInt32 := do
  match Invocation.ofArguments? arguments with
  | none =>
    IO.eprintln usage
    return 2
  | some invocation =>
    let env ← environment
    let reach ← explore (invocation.preferences env).lexical (.start invocation.task.plans)
    let (sound, console) ← run clock invocation env reach.system
    IO.print console.output
    IO.eprint console.errors
    return if sound then 0 else 1

end Planfile.Command

/-- The entry of the program. -/
def main (arguments : List String) : IO UInt32 := Command.runProgram arguments
