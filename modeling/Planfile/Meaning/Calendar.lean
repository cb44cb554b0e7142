import Planfile.Parse.Context

/-!
# Planfile — the meaning of dates, times and lengths

Intervals are given by two dates or by a date and a length. Some statements take only dates within
the project. Working hours are set for several days of the week at once, for a resource or, outside
of resources, for the project.

Main results:

* `intervalOf_start` — an interval starts where it says.
-/

namespace Planfile

open Calendar (DateTime DaySet Interval TimeRange WorkingHours)
open Plan (DurationUnit)

/-! ## Intervals -/

/-- The moment that is given as the end of an interval. -/
def endOf (start : DateTime) : Value → Except SemanticFault DateTime
  | .intervalEnd (.date d) => .ok d
  | .intervalEnd (.seconds n) =>
    match start.addSeconds? n with
    | some d => .ok d
    | none => .error .intervalOutOfRange
  | other => .error (.intervalEndExpected other.typeName)

/-- The interval from a date to what is given as its end. -/
def intervalOf (start : DateTime) (stop : Value) : Except SemanticFault Interval := do
  let stop ← endOf start stop
  if stop ≤ start then .error (.intervalReversed stop start) else .ok ⟨start, stop⟩

/-- An interval starts where it says. -/
theorem intervalOf_start {start : DateTime} {stop : Value} {i : Interval}
    (h : intervalOf start stop = .ok i) : i.start = start := by
  unfold intervalOf at h
  cases hs : endOf start stop with
  | error e => simp [hs, bind, Except.bind] at h
  | ok d =>
    simp only [hs, bind, Except.bind] at h
    split at h
    · cases h
    · simp only [Except.ok.injEq] at h
      rw [← h]

namespace Matcher

/-- The interval of a matched date and end. -/
def matchedInterval (v : Values) : Matcher Interval := do
  let start ← .take v (v.date 0)
  let stop ← .take v (v.required 1)
  match intervalOf start stop with
  | .ok i => return i
  | .error fault => .fail fault

/-- A matched date, which has to lie within the project. -/
def projectDate (v : Values) : Matcher DateTime := do
  let date ← .take v (v.date 0)
  let p ← Matcher.project
  if p.interval.contains date then return date
  else .fail (.dateOutsideProject p.start p.stop)

/-- A matched interval, which has to lie within the project. -/
def projectInterval (v : Values) : Matcher Interval := do
  let i ← .matchedInterval v
  let p ← Matcher.project
  if i.start < p.start ∨ p.stop ≤ i.start then .fail (.startOutsideProject i.start)
  else if i.stop ≤ p.start ∨ p.stop < i.stop then .fail (.endOutsideProject i.stop)
  else return i

/-! ## Working hours -/

/-- The place of a day in the week. -/
def weekday (name : String) : Matcher Nat :=
  .orFail (Calendar.weekdayIndex? name) (.weekDayExpected name)

/-- The days from one to another; without the other there is one day. -/
def dayRange (v : Values) : Matcher DaySet := do
  let first ← .weekday (← .take v (v.string 0))
  match v.value? 1 with
  | some (.str name) => return .range first (← .weekday name)
  | _ => return .range first first

/-- A range of the day. -/
def timeRange (v : Values) : Matcher TimeRange := do
  let start ← .take v (v.time 0)
  let stop ← .take v (v.time 2)
  if stop ≤ start then .fail .timesReversed else return ⟨start, stop⟩

/-- Sets the hours of some days. A resource that has no hours of its own starts with those of the
project. -/
def setWorkingHours (days : DaySet) (ranges : List TimeRange) : Matcher Unit := do
  match (← get).property with
  | none =>
    .modifySettings fun s => { s with workingHours := s.workingHours.setAll days ranges }
  | some _ =>
    -- from its first statement on a resource has hours of its own
    let hours ← match (← Matcher.currentProperty).get? "workinghours" with
      | some (.workingHours hours) => pure hours
      | _ => pure (← Matcher.project).settings.workingHours
    .modifyProperty (·.set "workinghours" (.workingHours (hours.setAll days ranges)))

/-- What a statement about working hours does. -/
def workingHours (v : Values) : Matcher Unit := do
  match ← .take v (v.required 1) with
  | .weekDays days => .setWorkingHours days ((v.list 2).filterMap (·.timeRange?))
  | other => .fail (.weekDaysExpected other.typeName)

end Matcher

/-! ## Actions -/

/-- The value of a date, time or length. -/
def CalendarAction.perform (v : Values) : CalendarAction → Matcher (Option Value)
  | .interval => do return some (.interval (← .matchedInterval v))
  | .endDate => do return some (.intervalEnd (.date (← .take v (v.date 1))))
  | .endSeconds => do return some (.intervalEnd (.seconds (← .take v (v.int 1))))
  | .projectDate => do return some (.date (← .projectDate v))
  | .projectInterval => do return some (.interval (← .projectInterval v))
  | .workingHours => do
    .workingHours v
    return none
  | .daySet =>
    return some (.weekDays (((v.list 0).filterMap (·.weekDays?)).foldl .union .empty))
  | .dayRange => do return some (.weekDays (← .dayRange v))
  | .noTimes => return some (.list [])
  | .timeRange => do return some (.timeRange (← .timeRange v))
  | .unit => do
    let unit ← .orFail (DurationUnit.ofWord? (← .take v (v.string 0))) .unitExpected
    return some (.unit unit)
  | .calendarTicks => do
    let s := (← Matcher.project).settings
    let ticks := Plan.calendarTicks (← .take v (v.number 0)) (← .take v (v.unit 1))
      s.scheduleGranularity
    return some (.int ticks)
  | .workingTicks => do
    let s := (← Matcher.project).settings
    let ticks := Plan.workingTicks (← .take v (v.number 0)) (← .take v (v.unit 1))
      s.dailyWorkingHours s.yearlyWorkingDays s.scheduleGranularity
    return some (.int ticks)
  | .intervalSeconds => do
    let seconds := Plan.intervalSeconds (← .take v (v.int 0)) (← .take v (v.unit 1))
    return some (.int seconds)

end Planfile
