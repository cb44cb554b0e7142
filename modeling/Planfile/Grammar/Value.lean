import Planfile.Grammar.Error
import Planfile.Plan.Project
import Planfile.Source.Position
import Planfile.Token

/-!
# Planfile — values of matched patterns

Every symbol of a matched pattern has a value, or none: the text of a literal, the value of a token,
what a rule produced. An action reads them by their place in the pattern and says what it takes
each for.

Main results:

* `Values.required_eq_ok_iff` — a required value is there exactly when it is one of the pattern's.
-/

namespace Planfile

open Plan (DurationUnit Allocation Column SortCriterion Operand Operation LogicalExpression)

/-- How an interval ends. -/
inductive IntervalEnd where
  | date (value : Calendar.DateTime)
  | seconds (length : Int)
  deriving DecidableEq, Repr

/-- What actions produce and read. -/
inductive Value where
  | str (text : String)
  | int (value : Int)
  | float (value : Float)
  | bool (value : Bool)
  | date (value : Calendar.DateTime)
  /-- Seconds after midnight. -/
  | time (seconds : Nat)
  | list (items : List Value)
  | pair (first second : Value)
  | unit (unit : DurationUnit)
  | interval (interval : Calendar.Interval)
  | intervalEnd (stop : IntervalEnd)
  | weekDays (days : Calendar.DaySet)
  | timeRange (range : Calendar.TimeRange)
  | allocation (allocation : Allocation)
  | column (column : Column)
  | sortCriterion (criterion : SortCriterion)
  | operand (operand : Operand)
  | operation (operation : Operation)
  | expression (expression : LogicalExpression)

namespace Value

/-- The value of a token; comments and the end of the text have none. -/
def ofToken? : Token → Option Value
  | .id s | .idWithColon s | .absoluteId s | .relativeId s | .string s => some (.str s)
  | .integer n => some (.int n)
  | .float x => some (.float x)
  | .date d => some (.date d)
  | .time n => some (.time n)
  | .mark m => some (.str m.text)
  | .comment _ | .eof => none

/-- The items of a list; any other value is the one item of its list. -/
def items : Value → List Value
  | .list items => items
  | v => [v]

/-- How a message speaks of a value. -/
def typeName : Value → String
  | .str _ => "a string"
  | .int _ => "an integer"
  | .float _ => "a float"
  | .bool _ => "a boolean"
  | .date _ => "a date"
  | .time _ => "a time"
  | .list _ => "a list"
  | .pair _ _ => "a pair"
  | .unit _ => "a duration unit"
  | .interval _ => "an interval"
  | .intervalEnd _ => "an interval end"
  | .weekDays _ => "a list of weekdays"
  | .timeRange _ => "a time interval"
  | .allocation _ => "an allocation"
  | .column _ => "a column definition"
  | .sortCriterion _ => "a sorting criterium"
  | .operand _ => "an operand"
  | .operation _ => "an operation"
  | .expression _ => "a logical expression"

/-- The text of a string. -/
def str? : Value → Option String
  | .str s => some s
  | _ => none

/-- The number of an integer. -/
def int? : Value → Option Int
  | .int n => some n
  | _ => none

/-- An integer or a floating point number as the latter. -/
def number? : Value → Option Float
  | .int n => some (Float.ofInt n)
  | .float x => some x
  | _ => none

/-- The moment of a date. -/
def date? : Value → Option Calendar.DateTime
  | .date d => some d
  | _ => none

/-- The seconds of a time of day. -/
def time? : Value → Option Nat
  | .time n => some n
  | _ => none

/-- The unit of a duration. -/
def unit? : Value → Option DurationUnit
  | .unit u => some u
  | _ => none

/-- The interval of a value. -/
def interval? : Value → Option Calendar.Interval
  | .interval i => some i
  | _ => none

/-- The range of the day of a value. -/
def timeRange? : Value → Option Calendar.TimeRange
  | .timeRange r => some r
  | _ => none

/-- The days of a value. -/
def weekDays? : Value → Option Calendar.DaySet
  | .weekDays days => some days
  | _ => none

/-- The allocation of a value. -/
def allocation? : Value → Option Allocation
  | .allocation a => some a
  | _ => none

/-- The column of a value. -/
def column? : Value → Option Column
  | .column c => some c
  | _ => none

/-- The criterion of a value. -/
def sortCriterion? : Value → Option SortCriterion
  | .sortCriterion c => some c
  | _ => none

/-- The operand of a value. -/
def operand? : Value → Option Operand
  | .operand o => some o
  | _ => none

/-- The operation of a value. -/
def operation? : Value → Option Operation
  | .operation o => some o
  | _ => none

/-- The expression of a value. -/
def expression? : Value → Option LogicalExpression
  | .expression e => some e
  | _ => none

end Value

/-- The strings among some values. -/
def strings (values : List Value) : List String := values.filterMap (·.str?)

/-- The intervals among some values. -/
def intervals (values : List Value) : List Calendar.Interval := values.filterMap (·.interval?)

/-- What one symbol of a pattern matched. -/
inductive MatchedValue where
  | literal (text : String)
  | token (token : Token)
  | rule (value : Option Value)

/-- The value of a matched symbol. -/
def MatchedValue.value? : MatchedValue → Option Value
  | .literal text => some (.str text)
  | .token t => Value.ofToken? t
  | .rule v => v

/-- What the symbols of a pattern matched, in their order, and where the pattern started. -/
structure Values where
  items : List MatchedValue
  location : Location

namespace Values

/-- The number of symbols. -/
def length (v : Values) : Nat := v.items.length

/-- What a symbol matched. -/
def get? (v : Values) (i : Nat) : Option MatchedValue := v.items[i]?

/-- The value of a symbol. -/
def value? (v : Values) (i : Nat) : Option Value := (v.get? i).bind (·.value?)

/-- Whether a symbol has a value. -/
def isPresent (v : Values) (i : Nat) : Bool := (v.value? i).isSome

/-- The items of a list; a symbol without value has none. -/
def list (v : Values) (i : Nat) : List Value := ((v.value? i).map (·.items)).getD []

/-- The value of a symbol as what it is taken for. -/
def typed (v : Values) (i : Nat) (expected : String) (take : Value → Option α) :
    Except GrammarError α :=
  match (v.value? i).bind take with
  | some a => .ok a
  | none => .error (.valueMismatch i expected)

/-- The value of a symbol that has to have one. -/
def required (v : Values) (i : Nat) : Except GrammarError Value := v.typed i "present" some

/-- A required value is the value that is there. -/
theorem required_eq_ok_iff (v : Values) (i : Nat) (a : Value) :
    v.required i = .ok a ↔ v.value? i = some a := by
  unfold required typed
  cases v.value? i <;> simp

/-- A text: an identifier, a string or a keyword. -/
def string (v : Values) (i : Nat) : Except GrammarError String := v.typed i "a string" (·.str?)

/-- An integer. -/
def int (v : Values) (i : Nat) : Except GrammarError Int := v.typed i "an integer" (·.int?)

/-- A number of either kind. -/
def number (v : Values) (i : Nat) : Except GrammarError Float := v.typed i "a number" (·.number?)

/-- A date. -/
def date (v : Values) (i : Nat) : Except GrammarError Calendar.DateTime :=
  v.typed i "a date" (·.date?)

/-- A time of day. -/
def time (v : Values) (i : Nat) : Except GrammarError Nat := v.typed i "a time" (·.time?)

/-- A unit. -/
def unit (v : Values) (i : Nat) : Except GrammarError DurationUnit :=
  v.typed i "a duration unit" (·.unit?)

/-- An interval. -/
def interval (v : Values) (i : Nat) : Except GrammarError Calendar.Interval :=
  v.typed i "an interval" (·.interval?)

/-- An operand. -/
def operand (v : Values) (i : Nat) : Except GrammarError Operand :=
  v.typed i "an operand" (·.operand?)

/-- An operation. -/
def operation (v : Values) (i : Nat) : Except GrammarError Operation :=
  v.typed i "an operation" (·.operation?)

/-- A logical expression. -/
def expression (v : Values) (i : Nat) : Except GrammarError LogicalExpression :=
  v.typed i "a logical expression" (·.expression?)

end Values

end Planfile
