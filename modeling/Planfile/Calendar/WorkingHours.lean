/-!
# Planfile — working hours of a week

A week has seven days, counted from Sunday. Each day has a list of time ranges in which work is
done, and a statement of a plan sets the ranges of several days at once.

Main results:

* `WorkingHours.on_set`, `WorkingHours.on_set_ne` — setting a day changes that day alone.
* `WorkingHours.on_setAll` — setting a set of days.
-/

namespace Planfile.Calendar

/-- A range of the day in seconds after midnight. -/
structure TimeRange where
  start : Nat
  stop : Nat
  deriving DecidableEq, Repr, Inhabited

/-! ## Days -/

/-- The names of the days, from Sunday on. -/
def weekdayNames : List String := ["sun", "mon", "tue", "wed", "thu", "fri", "sat"]

/-- The place of a day's name in the week. -/
def weekdayIndex? (name : String) : Option Nat := weekdayNames.findIdx? (· == name)

/-- A set of days of the week. -/
abbrev DaySet := Vector Bool 7

/-- The empty set of days. -/
def DaySet.empty : DaySet := Vector.replicate 7 false

/-- The days of either set. -/
def DaySet.union (a b : DaySet) : DaySet := Vector.zipWith (· || ·) a b

/-- The days from `first` to `last`, both included, going on past Saturday where necessary: those
that are at most as many steps after `first` as `last` is. -/
def DaySet.range (first last : Nat) : DaySet :=
  Vector.ofFn fun day => (day.val + 7 - first % 7) % 7 ≤ (last % 7 + 7 - first % 7) % 7

/-- A day is in the union when it is in either set. -/
theorem DaySet.getElem_union {a b : DaySet} {day : Nat} (h : day < 7) :
    (a.union b)[day] = (a[day] || b[day]) := by
  simp [DaySet.union]

/-! ## Hours -/

/-- The ranges in which work is done, day by day. -/
structure WorkingHours where
  days : Vector (List TimeRange) 7
  deriving DecidableEq, Repr

/-- The ranges of a day; a number that is no day has none. -/
def WorkingHours.on (w : WorkingHours) (day : Nat) : List TimeRange := w.days[day]?.getD []

/-- Whether any work is done on a day. -/
def WorkingHours.isWorkingDay (w : WorkingHours) (day : Nat) : Bool := !(w.on day).isEmpty

/-- The hours with the ranges of one day replaced. -/
def WorkingHours.set (w : WorkingHours) (day : Nat) (ranges : List TimeRange) : WorkingHours :=
  ⟨w.days.setIfInBounds day ranges⟩

/-- The hours with the ranges of every day of a set replaced. -/
def WorkingHours.setAll (w : WorkingHours) (days : DaySet) (ranges : List TimeRange) :
    WorkingHours :=
  ⟨Vector.zipWith (fun selected old => if selected then ranges else old) days w.days⟩

/-- Monday to Friday, from nine to twelve and from one to six. -/
def WorkingHours.office : WorkingHours :=
  let day : List TimeRange := [⟨9 * 3600, 12 * 3600⟩, ⟨13 * 3600, 18 * 3600⟩]
  ⟨#v[[], day, day, day, day, day, []]⟩

instance : Inhabited WorkingHours := ⟨WorkingHours.office⟩

/-- The day that is set gets the new ranges. -/
theorem WorkingHours.on_set {w : WorkingHours} {day : Nat} {ranges : List TimeRange}
    (h : day < 7) : (w.set day ranges).on day = ranges := by
  simp [WorkingHours.on, WorkingHours.set, h]

/-- Every other day keeps its ranges. -/
theorem WorkingHours.on_set_ne {w : WorkingHours} {day other : Nat} {ranges : List TimeRange}
    (h : day ≠ other) : (w.set day ranges).on other = w.on other := by
  simp [WorkingHours.on, WorkingHours.set, h]

/-- The days of the set get the new ranges and all others keep theirs. -/
theorem WorkingHours.on_setAll {w : WorkingHours} {days : DaySet} {ranges : List TimeRange}
    {day : Nat} (h : day < 7) :
    (w.setAll days ranges).on day = if days[day] then ranges else w.on day := by
  simp [WorkingHours.on, WorkingHours.setAll, h]

end Planfile.Calendar
