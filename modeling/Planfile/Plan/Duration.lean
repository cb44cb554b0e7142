import Planfile.Number.Whole

/-!
# Planfile — durations

A duration is a number with a unit. Calendar durations count wall-clock time and are cut to whole
scheduling ticks; working durations count working time, which the daily hours and the yearly days
of a project define, and are rounded.
-/

namespace Planfile.Plan

/-- The units of a duration. -/
inductive DurationUnit where
  | minute
  | hour
  | day
  | week
  | month
  | year
  deriving DecidableEq, Repr

namespace DurationUnit

/-- All units. -/
def all : List DurationUnit := [.minute, .hour, .day, .week, .month, .year]

/-- The word for a unit. -/
def word : DurationUnit → String
  | .minute => "min"
  | .hour => "h"
  | .day => "d"
  | .week => "w"
  | .month => "m"
  | .year => "y"

/-- The unit that a word stands for. -/
def ofWord? (word : String) : Option DurationUnit := all.find? (·.word == word)

/-- Every unit is found by its word. -/
theorem ofWord?_word (u : DurationUnit) : ofWord? u.word = some u := by
  cases u <;> rfl

/-- The words of all units. -/
def wordList : String := String.intercalate ", " (all.map word)

/-- Seconds of wall-clock time in a unit. -/
def calendarFactor : DurationUnit → Float
  | .minute => 60.0
  | .hour => 3600.0
  | .day => 86400.0
  | .week => 86400.0 * 7.0
  | .month => 86400.0 * 30.4167
  | .year => 86400.0 * 365.0

/-- Seconds of working time in a unit. -/
def workingFactor (dailyHours yearlyDays : Float) : DurationUnit → Float
  | .minute => 60.0
  | .hour => 3600.0
  | .day => 3600.0 * dailyHours
  | .week => 3600.0 * dailyHours * (yearlyDays / 52.1429)
  | .month => 3600.0 * dailyHours * (yearlyDays / 12.0)
  | .year => 3600.0 * dailyHours * yearlyDays

end DurationUnit

/-- A calendar duration in ticks of `granularity` seconds, cut. -/
def calendarTicks (value : Float) (unit : DurationUnit) (granularity : Int) : Int :=
  Number.truncated (value * unit.calendarFactor / Float.ofInt granularity)

/-- A working duration in ticks of `granularity` seconds, rounded. -/
def workingTicks (value : Float) (unit : DurationUnit) (dailyHours yearlyDays : Float)
    (granularity : Int) : Int :=
  Number.rounded (value * unit.workingFactor dailyHours yearlyDays / Float.ofInt granularity)

/-- The length of an interval in seconds. -/
def intervalSeconds (value : Int) (unit : DurationUnit) : Int :=
  Number.truncated (Float.ofInt value * unit.calendarFactor)

end Planfile.Plan
