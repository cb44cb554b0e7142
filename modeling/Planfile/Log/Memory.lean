import Planfile.Log.Event

/-!
# Planfile — remembered events

Events can be kept for later inspection. A memory holds a bounded number of events; when it is full,
the oldest one makes room. A recorder passes on to its memories what its level and theirs admit.

Main results:

* `Memory.size_remember_le` — a memory stays within its bound.
* `Memory.toList_remember_of_lt` — below the bound nothing is forgotten.
-/

namespace Planfile.Log

/-- The events that are remembered, the oldest first. -/
structure Memory where
  events : Array Event
  deriving Repr

namespace Memory

/-- A memory of nothing. -/
def empty : Memory := ⟨#[]⟩

/-- The remembered events, the oldest first. -/
def toList (m : Memory) : List Event := m.events.toList

/-- The number of remembered events. -/
def size (m : Memory) : Nat := m.events.size

/-- The memory with one more event. -/
def remember (m : Memory) (e : Event) : Memory :=
  if m.size < Limits.logBuffer then ⟨m.events.push e⟩
  else ⟨(m.events.extract (m.size - Limits.logBuffer + 1) m.size).push e⟩

/-- Below the bound the event is added and nothing is forgotten. -/
theorem toList_remember_of_lt {m : Memory} (h : m.size < Limits.logBuffer) (e : Event) :
    (m.remember e).toList = m.toList ++ [e] := by
  simp [remember, h, toList]

/-- A memory within its bound stays there. -/
theorem size_remember_le {m : Memory} (h : m.size ≤ Limits.logBuffer) (e : Event) :
    (m.remember e).size ≤ Limits.logBuffer := by
  unfold remember
  split
  · next hs => simpa [size] using Nat.succ_le_of_lt hs
  · next hs =>
    have bound : 0 < Limits.logBuffer := by decide
    simp only [size, Array.size_push, Array.size_extract] at *
    omega

/-- The remembered errors. -/
def errors (m : Memory) : List Event := m.toList.filter (·.level == .error)

/-- The remembered warnings. -/
def warnings (m : Memory) : List Event := m.toList.filter (·.level == .warning)

/-- The remembered events with a code. -/
def withCode (m : Memory) (code : Code) : List Event := m.toList.filter (·.code == code)

/-- Whether an error with a code is remembered. -/
def hasError (m : Memory) (code : Code) : Bool := m.errors.any (·.code == code)

/-- Whether a success with a code is remembered. -/
def hasSuccess (m : Memory) (code : Code) : Bool :=
  m.toList.any fun e => e.level == .info && e.code == code

end Memory

/-! ## Memories that are written to -/

/-- Memories behind a level. Each of them gets every event that the level admits. -/
structure FanOut where
  level : Level
  memories : List Memory

namespace FanOut

/-- Hands on an event that is admitted. -/
def log (f : FanOut) (e : Event) : FanOut :=
  if f.level.admits e.level then { f with memories := f.memories.map (·.remember e) } else f

/-- The same memories with nothing remembered. -/
def clear (f : FanOut) : FanOut := { f with memories := f.memories.map fun _ => .empty }

end FanOut

/-- What takes the events of a run. It has a level of its own, so that an event has to be admitted twice. -/
structure Recorder where
  level : Level
  target : FanOut

namespace Recorder

/-- Whether the recorder takes events of a level. -/
def admits (r : Recorder) (l : Level) : Bool := r.level.admits l

/-- Takes an event that is admitted. -/
def record (r : Recorder) (e : Event) : Recorder :=
  if r.admits e.level then { r with target := r.target.log e } else r

/-- Takes one event after the other. -/
def recordAll (r : Recorder) (es : List Event) : Recorder := es.foldl record r

/-- The recorder with nothing remembered. -/
def clear (r : Recorder) : Recorder := { r with target := r.target.clear }

end Recorder

end Planfile.Log
