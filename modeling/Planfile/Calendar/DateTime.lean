import Planfile.Text.Digits

/-!
# Planfile — dates and times of day

Plans speak of moments by date and time of day in the proleptic Gregorian calendar, without zones.
A moment is kept by its components; order, distance and shifting go through the number of seconds
since the start of the year 0.

Main results:

* `DateTime.ofParts?_eq_some_iff` — components make a moment exactly when they are valid.
* `DateTime.lt_irrefl`, `DateTime.lt_trans` — moments are ordered by their seconds.
-/

namespace Planfile.Calendar

/-- A moment by its components. -/
structure DateTime where
  year : Int
  month : Nat
  day : Nat
  hour : Nat
  minute : Nat
  second : Nat
  deriving DecidableEq, Repr, Inhabited

/-! ## Valid components -/

/-- Every fourth year is a leap year, but of full centuries only every fourth. -/
def isLeapYear (year : Int) : Bool :=
  (year % 4 == 0 && year % 100 != 0) || year % 400 == 0

/-- The number of days of a month; no month has days outside of `1 … 12`. -/
def daysInMonth (year : Int) (month : Nat) : Nat :=
  if month = 2 then (if isLeapYear year then 29 else 28)
  else if month = 4 ∨ month = 6 ∨ month = 9 ∨ month = 11 then 30
  else if 1 ≤ month ∧ month ≤ 12 then 31
  else 0

/-- Whether month, day and time of day exist in the year. -/
def DateTime.Valid (d : DateTime) : Prop :=
  1 ≤ d.day ∧ d.day ≤ daysInMonth d.year d.month ∧ d.hour < 24 ∧ d.minute < 60 ∧ d.second < 60

instance (d : DateTime) : Decidable d.Valid := by unfold DateTime.Valid; infer_instance

/-- The moment with the given components, if there is one. -/
def DateTime.ofParts? (year : Int) (month day hour minute second : Nat) : Option DateTime :=
  if DateTime.Valid ⟨year, month, day, hour, minute, second⟩ then
    some ⟨year, month, day, hour, minute, second⟩
  else none

/-- Components make a moment exactly when they are valid. -/
theorem DateTime.ofParts?_eq_some_iff {year : Int} {month day hour minute second : Nat}
    {d : DateTime} :
    DateTime.ofParts? year month day hour minute second = some d ↔
      d.Valid ∧ d = ⟨year, month, day, hour, minute, second⟩ := by
  unfold DateTime.ofParts?
  split
  · next h =>
    constructor
    · intro e
      cases e
      exact ⟨h, rfl⟩
    · rintro ⟨_, rfl⟩
      rfl
  · next h =>
    constructor
    · intro e
      cases e
    · rintro ⟨hv, rfl⟩
      exact absurd hv h

/-! ## Counting days and seconds

Years are counted from March, so that the leap day is the last day of its year; 400 years have
146097 days. -/

/-- The number of days from the first of March of the year 0. -/
def dayNumber (year : Int) (month day : Nat) : Int :=
  let y := if month ≤ 2 then year - 1 else year
  let era := y / 400
  let yearOfEra := y % 400
  -- March is month 0, and months from March on have lengths in a cycle of five
  let monthFromMarch : Int := ((month + 9) % 12 : Nat)
  let dayOfYear := (153 * monthFromMarch + 2) / 5 + day - 1
  era * 146097 + yearOfEra * 365 + yearOfEra / 4 - yearOfEra / 100 + dayOfYear

/-- Year, month and day of a day number. -/
def dateOfDayNumber (n : Int) : Int × Nat × Nat :=
  let era := n / 146097
  let dayOfEra := n % 146097
  let yearOfEra := (dayOfEra - dayOfEra / 1460 + dayOfEra / 36524 - dayOfEra / 146096) / 365
  let dayOfYear := dayOfEra - (365 * yearOfEra + yearOfEra / 4 - yearOfEra / 100)
  let monthFromMarch := (5 * dayOfYear + 2) / 153
  let day := dayOfYear - (153 * monthFromMarch + 2) / 5 + 1
  let month := if monthFromMarch < 10 then monthFromMarch + 3 else monthFromMarch - 9
  let year := yearOfEra + era * 400
  (if month ≤ 2 then year + 1 else year, month.toNat, day.toNat)

/-- The seconds of a moment since the first of March of the year 0. -/
def DateTime.toSeconds (d : DateTime) : Int :=
  dayNumber d.year d.month d.day * 86400 + d.hour * 3600 + d.minute * 60 + d.second

/-- The moment that lies a number of seconds after the first of March of the year 0. -/
def DateTime.ofSeconds (n : Int) : DateTime :=
  let date := dateOfDayNumber (n / 86400)
  let time := (n % 86400).toNat
  ⟨date.1, date.2.1, date.2.2, time / 3600, time / 60 % 60, time % 60⟩

instance : LT DateTime := ⟨fun a b => a.toSeconds < b.toSeconds⟩
instance : LE DateTime := ⟨fun a b => a.toSeconds ≤ b.toSeconds⟩
instance (a b : DateTime) : Decidable (a < b) :=
  inferInstanceAs (Decidable (a.toSeconds < b.toSeconds))
instance (a b : DateTime) : Decidable (a ≤ b) :=
  inferInstanceAs (Decidable (a.toSeconds ≤ b.toSeconds))

/-- No moment comes before itself. -/
theorem DateTime.lt_irrefl (a : DateTime) : ¬a < a := Int.lt_irrefl a.toSeconds

/-- What comes before an earlier moment comes before a later one. -/
theorem DateTime.lt_trans {a b c : DateTime} (h : a < b) (h' : b < c) : a < c :=
  Int.lt_trans (show a.toSeconds < b.toSeconds from h) h'

/-! ## Shifting -/

/-- The first and the last year of the calendar. -/
def firstYear : Int := -262143
def lastYear : Int := 262142

/-- The longest shift, in seconds. -/
def longestShift : Int := 9223372036854775

/-- The moment `n` seconds later, if the shift and the calendar allow it. -/
def DateTime.addSeconds? (d : DateTime) (n : Int) : Option DateTime :=
  if n < -longestShift ∨ longestShift < n then none
  else
    let moved := DateTime.ofSeconds (d.toSeconds + n)
    if moved.year < firstYear ∨ lastYear < moved.year then none else some moved

/-! ## Writing -/

/-- A year has four digits or, outside of `0 … 9999`, a sign and at least four digits. -/
def yearText (year : Int) : String :=
  if 0 ≤ year ∧ year ≤ 9999 then Text.Digits.padded 4 year.toNat
  else (if year < 0 then "-" else "+") ++ Text.Digits.padded 4 year.natAbs

/-- Year, month and day joined by `-`. -/
def DateTime.dateText (d : DateTime) : String :=
  yearText d.year ++ "-" ++ Text.Digits.padded 2 d.month ++ "-" ++ Text.Digits.padded 2 d.day

/-- Hour and minute joined by `:`. -/
def DateTime.minuteText (d : DateTime) : String :=
  Text.Digits.padded 2 d.hour ++ ":" ++ Text.Digits.padded 2 d.minute

/-- Hour, minute and second joined by `:`. -/
def DateTime.secondText (d : DateTime) : String :=
  d.minuteText ++ ":" ++ Text.Digits.padded 2 d.second

/-- The form of a plan file, which names no seconds: `2024-01-15-09:30`. -/
def DateTime.planText (d : DateTime) : String := d.dateText ++ "-" ++ d.minuteText

/-- The form of stored projects: `2024-01-15T09:30:00`. -/
def DateTime.storedText (d : DateTime) : String := d.dateText ++ "T" ++ d.secondText

/-- The form of summaries: `2024-01-15 09:30:00`. -/
def DateTime.summaryText (d : DateTime) : String := d.dateText ++ " " ++ d.secondText

end Planfile.Calendar

/-!
## Spans of calendar time

A project, a vacation and a report each cover the time between two moments.
-/

namespace Planfile.Calendar

/-- The time from one moment to another. -/
structure Interval where
  start : DateTime
  stop : DateTime
  deriving DecidableEq, Repr, Inhabited

/-- Whether a moment lies in the interval, ends included. -/
def Interval.contains (i : Interval) (d : DateTime) : Bool := i.start ≤ d && d ≤ i.stop

/-- The length of the interval in seconds. -/
def Interval.seconds (i : Interval) : Int := i.stop.toSeconds - i.start.toSeconds

/-- Both ends belong to an interval. -/
theorem Interval.contains_iff {i : Interval} {d : DateTime} :
    i.contains d = true ↔ i.start ≤ d ∧ d ≤ i.stop := by
  simp [Interval.contains]

end Planfile.Calendar
