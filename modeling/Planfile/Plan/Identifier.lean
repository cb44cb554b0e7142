import Planfile.Plan.PropertySet

/-!
# Planfile — identifiers of several parts

An identifier can be a path of parts with dots between them. In the body of a task the id of another
task may be relative: each `!` before it leads one level up from the task.

Main results:

* `joinParts_parts` — the parts of an identifier, joined by dots, are the identifier.
* `climb_none` — outside of tasks there is no level to leave.
-/

namespace Planfile.Plan

/-! ## Parts -/

/-- The parts between the dots. -/
def parts : List Char → List (List Char)
  | [] => [[]]
  | c :: rest =>
    if c = '.' then [] :: parts rest
    else
      match parts rest with
      | [] => [[c]]
      | first :: others => (c :: first) :: others

/-- Parts with dots between them. -/
def joinParts : List (List Char) → List Char
  | [] => []
  | [p] => p
  | p :: q :: others => p ++ '.' :: joinParts (q :: others)

/-- An identifier has at least one part, which may be empty. -/
theorem parts_ne_nil (cs : List Char) : parts cs ≠ [] := by
  cases cs with
  | nil => simp [parts]
  | cons c rest =>
    simp only [parts]
    split
    · simp
    · split <;> simp

/-- The parts, joined by dots, are the identifier. -/
theorem joinParts_parts (cs : List Char) : joinParts (parts cs) = cs := by
  induction cs with
  | nil => rfl
  | cons c rest ih =>
    simp only [parts]
    split
    · next h =>
      subst h
      cases hp : parts rest with
      | nil => exact absurd hp (parts_ne_nil rest)
      | cons p others =>
        rw [hp] at ih
        simp [joinParts, ih]
    · cases hp : parts rest with
      | nil => exact absurd hp (parts_ne_nil rest)
      | cons p others =>
        rw [hp] at ih
        cases others with
        | nil => simpa [joinParts] using ih
        | cons q others => simpa [joinParts] using ih

/-- The parts of an identifier as texts. -/
def idParts (id : String) : List String := (parts id.toList).map String.ofList

/-! ## Relative ids -/

/-- Goes up one level for each `!`, as long as there is a task to start from. -/
def climb (tasks : PropertySet) : Option Nat → List Char → Option Nat × List Char
  | some task, '!' :: rest => climb tasks ((tasks.get? task).bind (·.parent)) rest
  | task, rest => (task, rest)

/-- Outside of tasks there is no level to leave. -/
theorem climb_none (tasks : PropertySet) (cs : List Char) : climb tasks none cs = (none, cs) := by
  simp [climb]

/-- The id that a relative one stands for in the body of the task `current`, unless it leads too far
up. -/
def resolveRelative? (tasks : PropertySet) (current : Option Nat) (id : String) : Option String :=
  match climb tasks current id.toList with
  | (_, '!' :: _) => none
  | (task, rest) =>
    match task.bind tasks.get? with
    | some base => some (base.id ++ "." ++ String.ofList rest)
    | none => some (String.ofList rest)

end Planfile.Plan
