import Planfile.Proofs.Hours.Table
import Planfile.Proofs.Statement.Spelling

/-!
# Planfile — how statements about working hours are read

A statement names its days and the ranges of each as lists with commas. Rules read the elements one by one
and give them as values of their own, which the rules above put together, until the action of the statement
finds a set of days and a list of ranges. Here it is shown what the text of a statement says, and that these
values say the same.

Main results:

* `spells_days`, `spells_times` — what the lists of a statement say.
* `Course.of_isHours` — a statement reads what it says, and sets hours accordingly.
-/

namespace Planfile

open Matcher
open Calendar (DaySpan HoursStatement TimeRange)

/-! ## Texts -/

namespace Calendar

/-- The name of a day. -/
def dayName (day : Fin 7) : String := weekdayNames[day]

/-- A day is found by its name. -/
theorem dayName_of_weekdayIndex? {name : String} {i : Nat} (h : weekdayIndex? name = some i) :
    ∃ day : Fin 7, name = dayName day ∧ i = day := by
  obtain ⟨inside, named, -⟩ := List.findIdx?_eq_some_iff_getElem.mp h
  exact ⟨⟨i, inside⟩, (beq_iff_eq.mp named).symm, rfl⟩

/-- How days are named. -/
inductive DaySpan.Written : DaySpan → List Token → Prop
  | day (day : Fin 7) : Written ⟨day, none⟩ [.id (dayName day)]
  | span (first last : Fin 7) {dash : Token} (isDash : dash.matchesLiteral "-" = true) :
    Written ⟨first, some last⟩ [.id (dayName first), dash, .id (dayName last)]

/-- How a range is written. -/
inductive TimeRange.Written : TimeRange → List Token → Prop
  | range {start stop : Nat} (forward : start < stop) {dash : Token} (isDash : dash.matchesLiteral "-" = true) :
    Written ⟨start, stop⟩ [.time start, dash, .time stop]

/-- How the ranges of a statement are written: one word writes that there are none. -/
inductive RangesWritten : List TimeRange → List Token → Prop
  | off : RangesWritten [] [.id "off"]
  | ranges {ranges : List TimeRange} {text : List Token} (listed : Listed TimeRange.Written ranges text) :
    RangesWritten ranges text

/-- How a statement is written. -/
inductive HoursStatement.Written : HoursStatement → List Token → Prop
  | statement {days : List DaySpan} {ranges : List TimeRange} {first second : List Token}
    (listed : Listed DaySpan.Written days first) (times : RangesWritten ranges second) :
    Written ⟨days, ranges⟩ (.id "workinghours" :: (first ++ second))

end Calendar

/-! ## Forms of rules -/

open GrammarTable (isForm)

namespace GrammarTable

variable (t : GrammarTable) (id : RuleId)

/-- Whether a rule is for a range of the day. -/
def isTimeRange : Bool :=
  t.isSingle id && (t.rule id).patterns.all
    (· == ⟨[.tokenClass .time, .literal "-", .tokenClass .time], some (.calendar .timeRange)⟩)

/-- Whether a rule is for the ranges of a statement. -/
def isTimes : Bool :=
  t.isSingle id && (t.rule id).patterns.all fun p =>
    p == ⟨[.literal "off"], some (.calendar .noTimes)⟩ ||
      isForm [.rule (t.isCommaList t.isTimeRange)] (.value 0) p

/-- Whether a rule is for the day up to which others go on, if there is one. -/
def isDayEnd : Bool := t.isMaybe (· == ⟨[.literal "-", .tokenClass .id], some (.value 1)⟩) id

/-- Whether a rule is for a day or several ones. -/
def isDaySpan : Bool :=
  t.isSingle id && (t.rule id).patterns.all
    (isForm [.terminal (.tokenClass .id), .rule t.isDayEnd] (.calendar .dayRange))

/-- Whether a rule is for the days of a statement. -/
def isDays : Bool :=
  t.isSingle id && (t.rule id).patterns.all
    (isForm [.rule (t.isCommaList t.isDaySpan)] (.calendar .daySet))

/-- Whether a rule is for statements about working hours. -/
def isHours : Bool :=
  t.isSingle id && (t.rule id).patterns.all
    (isForm [.terminal (.literal "workinghours"), .rule t.isDays, .rule t.isTimes] (.calendar .workingHours))

end GrammarTable

/-! ## Ranges and days -/

theorem Token.exists_of_class?_time {token : Token} (h : token.class? = some .time) :
    ∃ seconds, token = .time seconds := by
  cases token with
  | time seconds => exact ⟨seconds, rfl⟩
  | _ => cases h

section
variable {ofRule : RuleId → Shape} {effects : Effects} {env : Surroundings} {c d : Context} {id : RuleId}

section
variable {v : Values}

/-- A range has to end behind its start. -/
theorem ends_timeRange {start stop : Nat} (first : v.time 0 = .ok start) (second : v.time 2 = .ok stop) :
    Ends (fun o d => start < stop ∧ o = some (.timeRange ⟨start, stop⟩) ∧ d = c)
      (CalendarAction.timeRange.perform v) env c := by
  simp only [CalendarAction.perform, timeRange, ends_bind, ends_take, ends_ite, ends_fail, ends_pure, first,
    second]
  rintro _ ⟨⟩ _ ⟨⟩
  split
  · trivial
  · next forward => exact ⟨Nat.lt_of_not_le forward, rfl, trivial⟩

/-- The days that are named have to be days of the week. -/
theorem ends_dayRange (first : String) (last : Option String) (start : v.string 0 = .ok first)
    (stop : v.value? 1 = last.map .str) :
    Ends (fun o d => ∃ span : DaySpan, first = Calendar.dayName span.first ∧
      last = span.last.map Calendar.dayName ∧ o = some (.weekDays span.daySet) ∧ d = c)
      (CalendarAction.dayRange.perform v) env c := by
  simp only [CalendarAction.perform, dayRange, weekday, ends_bind, ends_take, ends_orFail, start]
  rintro _ ⟨⟩ i found
  obtain ⟨day, rfl, rfl⟩ := Calendar.dayName_of_weekdayIndex? found
  cases last with
  | none =>
    rw [stop]
    exact ⟨⟨day, none⟩, rfl, rfl, rfl, rfl⟩
  | some other =>
    rw [stop]
    simp only [Option.map_some, ends_bind, ends_orFail, ends_pure]
    intro j known
    obtain ⟨last, rfl, rfl⟩ := Calendar.dayName_of_weekdayIndex? known
    exact ⟨⟨day, some last⟩, rfl, rfl, rfl, trivial⟩

end

/-- A range is read as it is written. -/
theorem spells_timeRange (h : env.grammar.isTimeRange id = true) :
    Spells ofRule effects env id TimeRange.Written fun r => some (.timeRange r) := by
  intro c v d course
  obtain ⟨p, noted, x, form, rfl, mem, inner⟩ := course.of_single h
  obtain rfl := beq_iff_eq.mp form
  have terminals : [Symbol.tokenClass .time, .literal "-", .tokenClass .time].map (·.terminal?) =
      [Terminal.tokenClass .time, .literal "-", .tokenClass .time].map some := rfl
  obtain ⟨text, tokens, journal, matchRule, fits, reads, -, acted⟩ := inner.of_terminalPattern rfl terminals
  have word (added : List (RuleId × Pattern)) : LiveGrammar.Derives ⟨env.grammar, added⟩ [.rule id] text :=
    .alternative (mem added) (.of_terminals terminals fits)
  rcases fits with _ | ⟨isStart, _ | ⟨isDash, _ | ⟨isStop, ⟨⟩⟩⟩⟩
  obtain ⟨start, rfl⟩ := Token.exists_of_class?_time (by simpa [Terminal.accepts] using isStart)
  obtain ⟨stop, rfl⟩ := Token.exists_of_class?_time (by simpa [Terminal.accepts] using isStop)
  obtain ⟨forward, rfl, rfl⟩ := (ends_timeRange rfl rfl).of_ok acted
  exact ⟨⟨start, stop⟩, _, .range forward isDash, rfl, ⟨reads, _, _, _, _, rfl⟩, word⟩

/-- The ranges of a statement are a list, or there are none. -/
theorem spells_times (h : env.grammar.isTimes id = true) :
    Spells ofRule effects env id Calendar.RangesWritten fun rs => some (.list (rs.map .timeRange)) := by
  intro c v d course
  obtain ⟨p, noted, x, form, rfl, mem, inner⟩ := course.of_single h
  rcases Bool.or_eq_true_iff.mp form with off | listed
  · -- no hours at all
    obtain rfl := beq_iff_eq.mp off
    have terminals : [Symbol.literal "off"].map (·.terminal?) = [Terminal.literal "off"].map some := rfl
    obtain ⟨text, tokens, journal, matchRule, fits, reads, -, acted⟩ := inner.of_terminalPattern rfl terminals
    have word (added : List (RuleId × Pattern)) : LiveGrammar.Derives ⟨env.grammar, added⟩ [.rule id] text :=
      .alternative (mem added) (.of_terminals terminals fits)
    rcases fits with _ | ⟨isOff, ⟨⟩⟩
    obtain rfl := Token.eq_of_matchesLiteral isOff (by decide)
    cases acted
    exact ⟨[], _, .off, rfl, ⟨reads, _, _, _, _, rfl⟩, word⟩
  · -- a list of ranges
    obtain ⟨_, rfl, fits⟩ := GrammarTable.exists_of_isForm listed
    rcases fits with _ | ⟨list, ⟨⟩⟩
    obtain ⟨other, rfl, isList⟩ := Piece.exists_of_fits list
    obtain ⟨items, y, journal, matchRule, symbols, -, acted⟩ := inner.of_acting rfl
    cases symbols with
    | terminal hs => cases hs
    | reference course rest =>
      cases rest
      obtain ⟨ranges, text, written, rfl, reads, word⟩ :=
        Spells.commaList (fun _ => spells_timeRange) (fun _ => rfl) isList course
      cases acted
      exact ⟨ranges, text, .ranges written, rfl, reads.noise (c := c) _ _ _,
        fun added => .alternative (mem added) (word added)⟩

/-- How it is written up to which day others go on. -/
inductive EndWritten : Option String → List Token → Prop
  | none : EndWritten none []
  | some (name : String) {dash : Token} (isDash : dash.matchesLiteral "-" = true) :
    EndWritten (some name) [dash, .id name]

/-- The day up to which others go on is read, if there is one. -/
theorem spells_dayEnd (h : env.grammar.isDayEnd id = true) :
    Spells ofRule effects env id EndWritten fun last => last.map .str := by
  intro c v d course
  rcases course.of_isMaybe h with ⟨rfl, reads, word⟩ | ⟨p, noted, x, form, rfl, mem, inner⟩
  · exact ⟨none, [], .none, rfl, reads, word⟩
  · obtain rfl := beq_iff_eq.mp form
    have terminals : [Symbol.literal "-", .tokenClass .id].map (·.terminal?) =
        [Terminal.literal "-", .tokenClass .id].map some := rfl
    obtain ⟨text, tokens, journal, matchRule, fits, reads, -, acted⟩ := inner.of_terminalPattern rfl terminals
    have word (added : List (RuleId × Pattern)) : LiveGrammar.Derives ⟨env.grammar, added⟩ [.rule id] text :=
      .alternative (mem added) (.of_terminals terminals fits)
    rcases fits with _ | ⟨isDash, _ | ⟨isName, ⟨⟩⟩⟩
    obtain ⟨name, rfl⟩ := Token.exists_of_class?_id (by simpa [Terminal.accepts] using isName)
    cases acted
    exact ⟨some name, _, .some name isDash, rfl, ⟨reads, _, _, _, _, rfl⟩, word⟩

/-- Days are read as they are named. -/
theorem spells_daySpan (h : env.grammar.isDaySpan id = true) :
    Spells ofRule effects env id DaySpan.Written fun span => some (.weekDays span.daySet) := by
  intro c v d course
  obtain ⟨p, noted, x, form, rfl, mem, inner⟩ := course.of_single h
  obtain ⟨_, rfl, fits⟩ := GrammarTable.exists_of_isForm form
  rcases fits with _ | ⟨name, _ | ⟨stop, ⟨⟩⟩⟩
  obtain rfl := Piece.eq_of_fits name
  obtain ⟨other, rfl, isEnd⟩ := Piece.exists_of_fits stop
  obtain ⟨items, y, journal, matchRule, symbols, -, acted⟩ := inner.of_acting rfl
  cases symbols with
  | terminal hs isName rest =>
    cases hs
    cases rest with
    | terminal hs => cases hs
    | reference course rest =>
      cases rest
      obtain ⟨last, text, written, rfl, reads, word⟩ := spells_dayEnd isEnd course
      have all := (Context.Reads.next isName env).append reads
      have words (added : List (RuleId × Pattern)) : LiveGrammar.Derives ⟨env.grammar, added⟩
          [.tokenClass .id, .rule other] (_ :: text) := .terminal rfl isName (word added)
      obtain ⟨first, same⟩ := Token.exists_of_class?_id (by simpa [Terminal.accepts] using isName)
      rw [same] at all acted words
      -- the names have been accepted, so both are days
      obtain ⟨span, rfl, rfl, rfl, rfl⟩ := (ends_dayRange first last rfl rfl).of_ok acted
      refine ⟨span, _, ?_, rfl, all.noise (c := c) _ _ _, fun added => .alternative (mem added) (words added)⟩
      obtain ⟨day, stop⟩ := span
      cases stop <;> cases written
      · exact .day day
      · next isDash => exact .span day _ isDash

/-- The days of a statement are a list. -/
theorem spells_days (h : env.grammar.isDays id = true) :
    Spells ofRule effects env id (Listed DaySpan.Written) fun spans =>
      some (.weekDays ((spans.map (·.daySet)).foldl .union .empty)) := by
  intro c v d course
  obtain ⟨p, noted, x, form, rfl, mem, inner⟩ := course.of_single h
  obtain ⟨_, rfl, fits⟩ := GrammarTable.exists_of_isForm form
  rcases fits with _ | ⟨list, ⟨⟩⟩
  obtain ⟨other, rfl, isList⟩ := Piece.exists_of_fits list
  obtain ⟨items, y, journal, matchRule, symbols, -, acted⟩ := inner.of_acting rfl
  cases symbols with
  | terminal hs => cases hs
  | reference course rest =>
    cases rest
    obtain ⟨spans, text, written, rfl, reads, word⟩ :=
      Spells.commaList (fun _ => spells_daySpan) (fun _ => rfl) isList course
    have sets : (spans.map fun span => Value.weekDays span.daySet).filterMap (·.weekDays?) =
        spans.map (·.daySet) := by
      rw [List.filterMap_map]
      exact congrFun List.filterMap_eq_map spans
    cases acted
    exact ⟨spans, text, written, congrArg (fun sets => some (Value.weekDays (sets.foldl .union .empty))) sets,
      reads.noise (c := c) _ _ _, fun added => .alternative (mem added) (word added)⟩

/-! ## Statements -/

/-- A statement reads what it says and sets hours accordingly, where it may stand. -/
theorem Course.of_isHours (h : env.grammar.isHours id = true) {v : Option Value}
    (course : Course ofRule effects env (.rule id) c v d) :
    ∃ (s : HoursStatement) (text : List Token) (x y : Context), s.Written text ∧ c.Reads text x ∧
      (∀ added, LiveGrammar.Derives ⟨env.grammar, added⟩ [.rule id] text) ∧
      x.Allows (.calendar .workingHours) ∧ setWorkingHours s.daySet s.ranges env x = (.ok (), y) ∧
      d = { y with depth := y.depth - 1 } := by
  obtain ⟨p, noted, x, form, rfl, mem, inner⟩ := course.of_single h
  obtain ⟨_, rfl, fits⟩ := GrammarTable.exists_of_isForm form
  rcases fits with _ | ⟨keyword, _ | ⟨first, _ | ⟨second, ⟨⟩⟩⟩⟩
  obtain rfl := Piece.eq_of_fits keyword
  obtain ⟨days, rfl, isDays⟩ := Piece.exists_of_fits first
  obtain ⟨times, rfl, isTimes⟩ := Piece.exists_of_fits second
  obtain ⟨items, y, journal, matchRule, symbols, prepared, acted⟩ := inner.of_acting rfl
  cases symbols with
  | terminal hs isKeyword rest =>
    cases hs
    cases rest with
    | terminal hs => cases hs
    | reference one rest =>
      obtain ⟨spans, front, listed, rfl, reads, word⟩ := spells_days isDays one
      cases rest with
      | terminal hs => cases hs
      | reference other rest =>
        cases rest
        obtain ⟨ranges, behind, written, rfl, others, words⟩ := spells_times isTimes other
        have all := (Context.Reads.next isKeyword env).append (reads.append others)
        have text (added : List (RuleId × Pattern)) : LiveGrammar.Derives ⟨env.grammar, added⟩
            [.literal "workinghours", .rule days, .rule times] (_ :: (front ++ behind)) :=
          .terminal rfl isKeyword ((word added).append (words added))
        rw [Token.eq_of_matchesLiteral isKeyword (by decide)] at all text
        -- the values are the set of days and the list of ranges
        have values : (ranges.map Value.timeRange).filterMap (·.timeRange?) = ranges := by
          rw [List.filterMap_map]
          exact List.filterMap_some
        obtain ⟨_, z, sets, last⟩ := exists_of_run_bind acted
        cases last
        refine ⟨⟨spans, ranges⟩, _, _, x, .statement listed written, all.noise (c := c) journal _ _,
          fun added => .alternative (mem added) (text added), prepared.allows _ rfl, ?_, rfl⟩
        rw [← values]
        exact sets

end

end Planfile
