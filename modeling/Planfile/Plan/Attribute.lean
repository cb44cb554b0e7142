import Planfile.Calendar.DateTime
import Planfile.Calendar.WorkingHours
import Planfile.Plan.Allocation

/-!
# Planfile — attributes of tasks and resources

Tasks and resources carry named values. A schema says which names there are, what kind of value
each has, whether children start with the value of their parent, and whether it has one value for
each scenario.

Main results:

* `nodup_withFlags` — adding flags repeats none.
* `AttributeTable.get?_set_self`, `AttributeTable.get?_set_ne` — setting a value changes that
  value alone.
-/

namespace Planfile.Plan

/-- Tasks and resources share one model. -/
inductive PropertyKind where
  | task
  | resource
  deriving DecidableEq, Repr

/-- The word for a kind. -/
def PropertyKind.word : PropertyKind → String
  | .task => "task"
  | .resource => "resource"

/-- The word for a kind at the start of a sentence. -/
def PropertyKind.title : PropertyKind → String
  | .task => "Task"
  | .resource => "Resource"

/-- The kinds of values. -/
inductive AttributeKind where
  | date
  | text
  | reference
  | duration
  | integer
  | boolean
  | flags
  | allocations
  | dependencies
  | intervals
  | workingHours
  deriving DecidableEq, Repr

/-- The value of an attribute. -/
inductive AttributeValue where
  | date (value : Calendar.DateTime)
  | text (value : String)
  | reference (url : String) (label : Option String)
  /-- A length in scheduling ticks. -/
  | duration (ticks : Int)
  | integer (value : Int)
  | boolean (value : Bool)
  | flags (names : List String)
  | allocations (items : List Allocation)
  | dependencies (items : List TaskDependency)
  | intervals (items : List Calendar.Interval)
  | workingHours (hours : Calendar.WorkingHours)
  deriving DecidableEq, Repr

/-- The kind of a value. -/
def AttributeValue.kind : AttributeValue → AttributeKind
  | .date _ => .date
  | .text _ => .text
  | .reference _ _ => .reference
  | .duration _ => .duration
  | .integer _ => .integer
  | .boolean _ => .boolean
  | .flags _ => .flags
  | .allocations _ => .allocations
  | .dependencies _ => .dependencies
  | .intervals _ => .intervals
  | .workingHours _ => .workingHours

/-- A list of flags with others added at its end, each that is not yet there once. -/
def withFlags (known added : List String) : List String :=
  added.foldl (fun known flag => if known.contains flag then known else known ++ [flag]) known

/-- Adding flags repeats none. -/
theorem nodup_withFlags {known : List String} (h : known.Nodup) (added : List String) :
    (withFlags known added).Nodup := by
  unfold withFlags
  induction added generalizing known with
  | nil => exact h
  | cons flag rest ih =>
    apply ih
    dsimp only
    split
    · exact h
    · next hf =>
      have fresh : ∀ other ∈ known, other ≠ flag := by
        intro other ho e
        exact hf (List.contains_iff_mem.mpr (e ▸ ho))
      simpa [List.nodup_append, h] using fresh

/-- An entry of a schema. -/
structure AttributeDefinition where
  id : String
  name : String
  kind : AttributeKind
  /-- Whether children start with the value of their parent. -/
  inherit : Bool
  /-- Whether there is a value for each scenario. -/
  scenarioSpecific : Bool
  userDefined : Bool
  deriving DecidableEq, Repr

/-- The attributes that every task or resource can have. -/
def builtinDefinitions : PropertyKind → List AttributeDefinition
  | .task => [
    ⟨"allocate", "Allocations", .allocations, true, true, false⟩,
    ⟨"depends", "Dependencies", .dependencies, false, true, false⟩,
    ⟨"duration", "Duration", .duration, false, true, false⟩,
    ⟨"effort", "Effort", .duration, false, true, false⟩,
    ⟨"end", "End", .date, false, true, false⟩,
    ⟨"flags", "Flags", .flags, true, true, false⟩,
    ⟨"forward", "Scheduling", .boolean, true, true, false⟩,
    ⟨"length", "Length", .duration, false, true, false⟩,
    ⟨"priority", "Priority", .integer, true, true, false⟩,
    ⟨"start", "Start", .date, false, true, false⟩]
  | .resource => [
    ⟨"flags", "Flags", .flags, true, true, false⟩,
    ⟨"vacations", "Vacations", .intervals, true, true, false⟩,
    ⟨"workinghours", "Working Hours", .workingHours, true, false, false⟩]

/-! ## Tables of values -/

/-- Values by name, names in ascending order. -/
abbrev AttributeTable := List (String × AttributeValue)

namespace AttributeTable

/-- The value of a name. -/
def get? (t : AttributeTable) (id : String) : Option AttributeValue := t.lookup id

/-- The table with a value set. -/
def set (id : String) (value : AttributeValue) : AttributeTable → AttributeTable
  | [] => [(id, value)]
  | (other, old) :: rest =>
    if id = other then (id, value) :: rest
    -- names stay in ascending order
    else if id < other then (id, value) :: (other, old) :: rest
    else (other, old) :: set id value rest

/-- The value that is set is the one that is found. -/
theorem get?_set_self (t : AttributeTable) (id : String) (value : AttributeValue) :
    (t.set id value).get? id = some value := by
  unfold get?
  induction t with
  | nil => simp [set]
  | cons entry rest ih =>
    obtain ⟨other, old⟩ := entry
    simp only [set]
    split
    · simp
    · split
      · simp
      · next h _ => simp [List.lookup_cons, beq_eq_false_iff_ne.mpr h, ih]

/-- All other values stay. -/
theorem get?_set_ne (t : AttributeTable) {id other : String} (value : AttributeValue)
    (h : other ≠ id) : (t.set id value).get? other = t.get? other := by
  unfold get?
  induction t with
  | nil => simp [set, List.lookup_cons, beq_eq_false_iff_ne.mpr h]
  | cons entry rest ih =>
    obtain ⟨key, old⟩ := entry
    simp only [set]
    split
    · next e =>
      subst e
      simp [List.lookup_cons, beq_eq_false_iff_ne.mpr h]
    · split
      · simp [List.lookup_cons, beq_eq_false_iff_ne.mpr h]
      · simp only [List.lookup_cons, ih]

/-- The value that is set last counts. -/
theorem set_set (t : AttributeTable) (id : String) (first value : AttributeValue) :
    (t.set id first).set id value = t.set id value := by
  induction t with
  | nil => simp [set]
  | cons entry rest ih =>
    obtain ⟨other, old⟩ := entry
    simp only [set]
    split
    · simp [set]
    · next differs =>
      split
      · simp [set]
      · next above => simp [set, differs, above, ih]

end AttributeTable

end Planfile.Plan
