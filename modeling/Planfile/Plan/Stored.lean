import Planfile.Json
import Planfile.Plan.Project

/-!
# Planfile — stored projects

A project is stored as one JSON object. Names of kinds and of variants start with a capital letter;
what is absent is null.
-/

namespace Planfile.Plan

open Calendar (DateTime)

/-! ## Time -/

/-- A moment as a text. -/
def storeDate (d : DateTime) : Json := .text d.storedText

/-- An interval with its two ends. -/
def storeInterval (i : Calendar.Interval) : Json :=
  .object [("start", storeDate i.start), ("end", storeDate i.stop)]

/-- A range of the day as a pair. -/
def storeRange (r : Calendar.TimeRange) : Json := .array [.nat r.start, .nat r.stop]

/-- The ranges of each day of the week. -/
def storeHours (w : Calendar.WorkingHours) : Json :=
  .object [("days", Json.list (Json.list storeRange) w.days.toList)]

/-! ## Names of variants -/

/-- The stored name of a unit. -/
def DurationUnit.storedName : DurationUnit → String
  | .minute => "Minute"
  | .hour => "Hour"
  | .day => "Day"
  | .week => "Week"
  | .month => "Month"
  | .year => "Year"

/-- The stored name of an operator. -/
def Operator.storedName : Operator → String
  | .or => "Or"
  | .and => "And"
  | .greater => "Greater"
  | .less => "Less"
  | .equal => "Equal"
  | .greaterOrEqual => "GreaterOrEqual"
  | .lessOrEqual => "LessOrEqual"
  | .not => "Not"

/-- The stored name of a mode of selection. -/
def SelectionMode.storedName : SelectionMode → String
  | .maxLoaded => "MaxLoaded"
  | .minLoaded => "MinLoaded"
  | .minAllocated => "MinAllocated"
  | .order => "Order"
  | .random => "Random"

/-- The stored name of a kind of report. -/
def ReportKind.storedName : ReportKind → String
  | .export => "Export"
  | .htmlTaskReport => "HtmlTaskReport"
  | .htmlResourceReport => "HtmlResourceReport"

/-- The stored name of a kind of attribute. -/
def AttributeKind.storedName : AttributeKind → String
  | .date => "Date"
  | .text => "Text"
  | .reference => "Reference"
  | .duration => "Duration"
  | .integer => "Integer"
  | .boolean => "Boolean"
  | .flags => "Flags"
  | .allocations => "Allocations"
  | .dependencies => "Dependencies"
  | .intervals => "Intervals"
  | .workingHours => "WorkingHours"

/-! ## Expressions -/

mutual

/-- An operand under the name of its variant. -/
def storeOperand : Operand → Json
  | .operation o => .variant "Operation" (storeOperation o)
  | .attribute name scenario =>
    .variant "Attribute" (.object [("name", .text name), ("scenario_idx", .nat scenario)])
  | .flag name => .variant "Flag" (.text name)
  | .date d => .variant "Date" (storeDate d)
  | .integer n => .variant "Integer" (.integer n)
  | .string s => .variant "String" (.text s)
  | .call function arguments =>
    .variant "Unsupported" (.object [("function", .text function), ("arguments", .nat arguments)])

/-- An operation; what it lacks is null. -/
def storeOperation : Operation → Json
  | .plain a => .object [("operand1", storeOperand a), ("operator", .null), ("operand2", .null)]
  | .negation a =>
    .object [("operand1", storeOperand a), ("operator", .text Operator.not.storedName),
      ("operand2", .null)]
  | .binary a operator b =>
    .object [("operand1", storeOperand a), ("operator", .text operator.storedName),
      ("operand2", storeOperand b)]

end

/-- An expression and the place where it is written. -/
def storeExpression (e : LogicalExpression) : Json :=
  .object [("operation", storeOperation e.operation), ("file", .text e.file),
    ("line", .nat e.line)]

/-! ## Attributes -/

/-- An allocation. -/
def storeAllocation (a : Allocation) : Json :=
  .object [("candidates", Json.list .text a.candidates),
    ("selection_mode", .text a.mode.storedName), ("persistent", .bool a.persistent),
    ("mandatory", .bool a.mandatory)]

/-- A value under the name of its kind. -/
def storeValue (v : AttributeValue) : Json :=
  .variant v.kind.storedName <| match v with
    | .date d => storeDate d
    | .text s => .text s
    | .reference url label => .object [("url", .text url), ("label", Json.option .text label)]
    | .duration n => .integer n
    | .integer n => .integer n
    | .boolean b => .bool b
    | .flags names => Json.list .text names
    | .allocations items => Json.list storeAllocation items
    | .dependencies items => Json.list (fun d => .object [("task_id", .text d.task)]) items
    | .intervals items => Json.list storeInterval items
    | .workingHours w => storeHours w

/-- Values by name. -/
def storeTable (t : AttributeTable) : Json := .object (t.map fun (id, v) => (id, storeValue v))

/-- An entry of a schema. -/
def storeDefinition (d : AttributeDefinition) : Json :=
  .object [("id", .text d.id), ("name", .text d.name), ("kind", .text d.kind.storedName),
    ("inherit", .bool d.inherit), ("scenario_specific", .bool d.scenarioSpecific),
    ("user_defined", .bool d.userDefined)]

/-- A task or a resource. -/
def storeProperty (p : Property) : Json :=
  .object [("id", .text p.id), ("name", .text p.name), ("parent", Json.option .nat p.parent),
    ("children", Json.list .nat p.children), ("attributes", storeTable p.attributes),
    ("scenario_attributes", Json.list storeTable p.scenarioAttributes)]

/-- All tasks or all resources. -/
def storeProperties (s : PropertySet) : Json :=
  .object [("kind", .text s.kind.title), ("definitions", Json.list storeDefinition s.definitions),
    ("properties", Json.list storeProperty s.properties.toList)]

/-! ## Reports -/

/-- A column. -/
def storeColumn (c : Column) : Json := .object [("id", .text c.id), ("title", .text c.title)]

/-- What rows are ordered by. -/
def storeCriterion (c : SortCriterion) : Json :=
  .object [("attribute", .text c.attributeName), ("ascending", .bool c.ascending),
    ("scenario_idx", Json.option .nat c.scenario)]

/-- What a report shows. -/
def storeElement (e : ReportElement) : Json :=
  .object [("columns", Json.list storeColumn e.columns), ("start", storeDate e.start),
    ("end", storeDate e.stop), ("headline", Json.option .text e.headline),
    ("hide_resource", Json.option storeExpression e.hideResource),
    ("hide_task", Json.option storeExpression e.hideTask),
    ("rollup_task", Json.option storeExpression e.rollupTask),
    ("scenarios", Json.list .nat e.scenarios),
    ("sort_resources", Json.list storeCriterion e.sortResources),
    ("sort_tasks", Json.list storeCriterion e.sortTasks),
    ("task_root", Json.option .text e.taskRoot), ("time_format", Json.option .text e.timeFormat)]

/-- A report. -/
def storeReport (r : Report) : Json :=
  .object [("kind", .text r.kind.storedName), ("name", .text r.name),
    ("element", storeElement r.element)]

/-! ## Projects -/

/-- How numbers are written. -/
def storeFormat (f : RealFormat) : Json :=
  .object [("sign_prefix", .text f.signPrefix), ("sign_suffix", .text f.signSuffix),
    ("thousands_separator", .text f.thousandsSeparator),
    ("fraction_separator", .text f.fractionSeparator), ("fraction_digits", .nat f.fractionDigits)]

/-- What holds for a whole project. -/
def storeSettings (s : Settings) : Json :=
  .object [("copyright", Json.option .text s.copyright), ("currency", Json.option .text s.currency),
    ("currency_format", Json.option storeFormat s.currencyFormat),
    ("number_format", Json.option storeFormat s.numberFormat),
    ("daily_working_hours", .real s.dailyWorkingHours),
    ("yearly_working_days", .real s.yearlyWorkingDays),
    ("schedule_granularity", .integer s.scheduleGranularity),
    ("now", Json.option storeDate s.now), ("time_format", Json.option .text s.timeFormat),
    ("short_time_format", Json.option .text s.shortTimeFormat),
    ("timezone", Json.option .text s.timezone), ("week_starts_monday", .bool s.weekStartsMonday),
    ("flags", Json.list .text s.flags), ("vacations", Json.list storeInterval s.vacations),
    ("working_hours", storeHours s.workingHours)]

/-- A scenario. -/
def storeScenario (s : Scenario) : Json :=
  .object [("id", .text s.id), ("name", .text s.name), ("parent", Json.option .nat s.parent),
    ("enabled", .bool s.enabled)]

/-- A project. -/
def storeProject (p : Project) : Json :=
  .object [("id", .text p.id), ("name", .text p.name), ("version", .text p.version),
    ("start", storeDate p.start), ("end", storeDate p.stop),
    ("settings", storeSettings p.settings), ("scenarios", Json.list storeScenario p.scenarios),
    ("tasks", storeProperties p.tasks), ("resources", storeProperties p.resources),
    ("reports", Json.list storeReport p.reports)]

end Planfile.Plan
