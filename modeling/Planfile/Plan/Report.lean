import Planfile.Plan.Logical

/-!
# Planfile — reports

A report is a table over part of the project's time, with columns, filters and an order of rows.
-/

namespace Planfile.Plan

/-- The kinds of reports. -/
inductive ReportKind where
  | «export»
  | htmlTaskReport
  | htmlResourceReport
  deriving DecidableEq, Repr

namespace ReportKind

/-- All kinds. -/
def all : List ReportKind := [.export, .htmlTaskReport, .htmlResourceReport]

/-- The word that starts a report. -/
def word : ReportKind → String
  | .export => "export"
  | .htmlTaskReport => "htmltaskreport"
  | .htmlResourceReport => "htmlresourcereport"

/-- The kind that a word stands for. -/
def ofWord? (word : String) : Option ReportKind := all.find? (·.word == word)

end ReportKind

/-- The columns a report can have, with their titles unless others are given. -/
def columnTitles : List (String × String) := [
  ("chart", ""), ("complete", "Completion"), ("daily", ""), ("duration", "Duration"),
  ("effort", "Effort"), ("end", "End"), ("flags", "Flags"), ("hourly", ""), ("id", "Id"),
  ("index", "Index"), ("length", "Length"), ("monthly", ""), ("name", "Name"), ("no", "No."),
  ("priority", "Priority"), ("quarterly", ""), ("resources", "Resources"),
  ("responsible", "Responsible"), ("start", "Start"), ("wbs", "WBS"), ("weekly", ""),
  ("yearly", "")]

/-- The title of a column unless another is given. -/
def columnTitle? (id : String) : Option String := columnTitles.lookup id

/-- A column of a report. -/
structure Column where
  id : String
  title : String
  deriving DecidableEq, Repr

/-- What rows are ordered by; without a scenario the attribute counts in all of them. -/
structure SortCriterion where
  attributeName : String
  ascending : Bool
  scenario : Option Nat
  deriving DecidableEq, Repr

/-- The order of the tree of tasks or resources. -/
def SortCriterion.tree : SortCriterion := ⟨"tree", true, none⟩

/-- What a report shows. -/
structure ReportElement where
  columns : List Column
  start : Calendar.DateTime
  stop : Calendar.DateTime
  headline : Option String
  hideResource : Option LogicalExpression
  hideTask : Option LogicalExpression
  rollupTask : Option LogicalExpression
  /-- The scenarios that are shown. -/
  scenarios : List Nat
  sortResources : List SortCriterion
  sortTasks : List SortCriterion
  taskRoot : Option String
  timeFormat : Option String

/-- An element over some time, for the first scenario alone. -/
def ReportElement.over (start stop : Calendar.DateTime) : ReportElement where
  columns := []
  start := start
  stop := stop
  headline := none
  hideResource := none
  hideTask := none
  rollupTask := none
  scenarios := [0]
  sortResources := [.tree]
  sortTasks := [.tree]
  taskRoot := none
  timeFormat := none

/-- A report. -/
structure Report where
  kind : ReportKind
  name : String
  element : ReportElement

end Planfile.Plan
