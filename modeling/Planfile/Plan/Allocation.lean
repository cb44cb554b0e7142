/-!
# Planfile — allocations and dependencies

A task is worked on by resources and waits for other tasks.
-/

namespace Planfile.Plan

/-- How one of several resources is chosen. -/
inductive SelectionMode where
  | maxLoaded
  | minLoaded
  | minAllocated
  | order
  | random
  deriving DecidableEq, Repr

namespace SelectionMode

/-- All modes. -/
def all : List SelectionMode := [.maxLoaded, .minLoaded, .minAllocated, .order, .random]

/-- The word for a mode. -/
def word : SelectionMode → String
  | .maxLoaded => "maxloaded"
  | .minLoaded => "minloaded"
  | .minAllocated => "minallocated"
  | .order => "order"
  | .random => "random"

/-- The mode that a word stands for. -/
def ofWord? (word : String) : Option SelectionMode := all.find? (·.word == word)

/-- The words of all modes. -/
def wordList : String := String.intercalate ", " (all.map word)

end SelectionMode

/-- The resources of a task; the first candidate is the preferred one. -/
structure Allocation where
  candidates : List String
  mode : SelectionMode
  persistent : Bool
  mandatory : Bool
  deriving DecidableEq, Repr

/-- A task that has to be done before; the task need not be known yet. -/
structure TaskDependency where
  task : String
  deriving DecidableEq, Repr

end Planfile.Plan
