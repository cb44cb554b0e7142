import Planfile.Plan.Attribute

/-!
# Planfile — actions

What happens when a pattern has been matched. Actions are data: a grammar can be compared, listed
and extended while a plan is read, and what an action does is said in one place for each area of
the language. General actions pass values on; each other group belongs to the statements it is
named for.
-/

namespace Planfile

open Plan (AttributeKind PropertyKind)

/-- Actions on the project and its settings. -/
inductive ProjectAction where
  /-- Starts the project. -/
  | header
  | copyright
  | currency
  | currencyFormat
  | numberFormat
  | dailyWorkingHours
  | yearlyWorkingDays
  | now
  | timeFormat
  | shortTimeFormat
  | timezone
  | timingResolution
  | weekStartsMonday (monday : Bool)
  | declareFlags
  | vacation
  deriving DecidableEq, Repr

/-- Actions on scenarios. -/
inductive ScenarioAction where
  /-- Adds a scenario below the one whose body is read. -/
  | header
  /-- Goes back to the scenario around. -/
  | close
  | enable (enabled : Bool)
  /-- Chooses the scenario that the next attribute is meant for. -/
  | select
  /-- The number of a scenario. -/
  | index
  deriving DecidableEq, Repr

/-- Actions on tasks and resources. -/
inductive PropertyAction where
  /-- Adds a task or a resource below the one whose body is read. -/
  | header (kind : PropertyKind)
  /-- Goes back to the task or resource around. -/
  | close
  /-- Goes back to the first scenario. -/
  | leaveScenario
  | allocate
  | depends
  /-- Stores a length under a name. -/
  | ticks (id : String)
  | start
  | stop
  | priority
  | flags
  | vacation
  /-- The id of a task that is given relative to the current one. -/
  | relativeId
  /-- The id of a known resource. -/
  | resourceId
  | allocation
  | alternatives
  | selectMode
  deriving DecidableEq, Repr

/-- Actions that add attributes to the language. -/
inductive ExtendAction where
  /-- Chooses what is extended. -/
  | target
  | close
  /-- Adds an attribute. -/
  | declare (kind : AttributeKind)
  /-- The id of a new attribute. -/
  | id
  /-- Stores the value of an added attribute. -/
  | store (id : String) (kind : AttributeKind) (scenarioSpecific : Bool)
  deriving DecidableEq, Repr

/-- Actions on reports. -/
inductive ReportAction where
  | header
  | close
  | columns
  | column
  | columnId
  | columnTitle
  | headline
  | hideResource
  | hideTask
  | rollupTask
  | period
  | start
  | stop
  | scenarios
  | sortResources
  | sortTasks
  | sortPath
  | sortTree
  | taskRoot
  | timeFormat
  deriving DecidableEq, Repr

/-- Actions on logical expressions. -/
inductive LogicalAction where
  | expression
  | operation
  | nested
  | negation
  /-- An attribute in a scenario. -/
  | attributeOf
  | date
  /-- A flag or, with arguments, a call of a function. -/
  | name
  | integer
  | string
  | arguments
  | flag
  deriving DecidableEq, Repr

/-- Actions on dates, times and lengths. -/
inductive CalendarAction where
  | interval
  | endDate
  | endSeconds
  /-- A date within the project. -/
  | projectDate
  /-- An interval within the project. -/
  | projectInterval
  | workingHours
  | daySet
  | dayRange
  | noTimes
  | timeRange
  | unit
  | calendarTicks
  | workingTicks
  | intervalSeconds
  deriving DecidableEq, Repr

/-- What happens when a pattern has been matched. -/
inductive Action where
  /-- Produces the value of a symbol. -/
  | value (i : Nat)
  /-- Produces the value of a symbol, which has to be there. -/
  | required (i : Nat)
  /-- Produces the value of a symbol as a list. -/
  | list (i : Nat)
  /-- Produces the value of the first symbol and the items of the second as one list. -/
  | collect
  | present (i : Nat)
  | length
  | string (i : Nat)
  | int (i : Nat)
  | number (i : Nat)
  | date (i : Nat)
  | time (i : Nat)
  | unit (i : Nat)
  | interval (i : Nat)
  | operand (i : Nat)
  | operation (i : Nat)
  | expression (i : Nat)
  /-- Produces how a message speaks of a value. -/
  | typeName (i : Nat)
  /-- Produces the values of the first symbol and of another. -/
  | pair (i : Nat)
  | location
  | fail (message : String)
  /-- Goes on with another file. -/
  | includeFile (i : Nat)
  /-- Matches a rule after the pattern. -/
  | rule (name : String)
  | nothing
  | project (action : ProjectAction)
  | scenario (action : ScenarioAction)
  | property (action : PropertyAction)
  | extend (action : ExtendAction)
  | report (action : ReportAction)
  | logical (action : LogicalAction)
  | calendar (action : CalendarAction)
  deriving DecidableEq, Repr

end Planfile
