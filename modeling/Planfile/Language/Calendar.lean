import Planfile.Grammar.Declaration

/-!
# Planfile — the language: dates, times and lengths

Intervals run from a date to another one, or for a length. Working hours are given for days of the
week. Lengths are numbers with a unit.
-/

namespace Planfile.Language

open PatternDeclaration RuleDeclaration

/-- The rules of intervals and working hours. -/
def calendarRules : List RuleDeclaration :=
  [once "interval" [acting ["$DATE", "!intervalEnd"] (.calendar .interval)],
    once "intervalEnd" [
      acting ["_-", "$DATE"] (.calendar .endDate),
      acting ["_+", "!intervalDuration"] (.calendar .endSeconds)]] ++
  listOf "intervals" "!interval" ++
  [once "valDate" [acting ["$DATE"] (.calendar .projectDate)],
    once "valInterval" [acting ["$DATE", "!intervalEnd"] (.calendar .projectInterval)],
    once "workinghours" [
      acting ["_workinghours", "!listOfDays", "!listOfTimes"] (.calendar .workingHours)]] ++
  commaListOf "weekDayIntervals" "!weekDayInterval" ++
  [once "listOfDays" [acting ["!weekDayIntervals"] (.calendar .daySet)],
    once "weekDayInterval" [acting ["$ID", "!weekDayIntervalEnd"] (.calendar .dayRange)],
    optionally "weekDayIntervalEnd" [acting ["_-", "$ID"] (.value 1)],
    once "listOfTimes" [acting ["_off"] (.calendar .noTimes), single "!timeIntervals"]] ++
  commaListOf "timeIntervals" "!timeInterval" ++
  [once "timeInterval" [acting ["$TIME", "_-", "$TIME"] (.calendar .timeRange)]]

/-- The rules of numbers with units. -/
def durationRules : List RuleDeclaration := [
  choice "number" ["$INTEGER", "$FLOAT"],
  once "durationUnit" [acting ["$ID"] (.calendar .unit)],
  once "calendarDuration" [acting ["!number", "!durationUnit"] (.calendar .calendarTicks)],
  once "workingDuration" [acting ["!number", "!durationUnit"] (.calendar .workingTicks)],
  once "intervalDuration" [acting ["$INTEGER", "!durationUnit"] (.calendar .intervalSeconds)]]

end Planfile.Language
