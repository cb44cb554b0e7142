import Planfile.Parse.Context
import Planfile.Plan.Identifier

/-!
# Planfile — the meaning of statements about reports

A report starts with the time of the project and the first scenario, and its attributes change what
it shows. A scenario that is disabled is left out.
-/

namespace Planfile

open Plan (Column Report ReportElement ReportKind SortCriterion)

namespace Matcher

/-- Adds a report. -/
def openReport (word name : String) : Matcher Unit := do
  let kind ← orFail (ReportKind.ofWord? word) (.unknownReportType word)
  let p ← project
  let added : Report := ⟨kind, name, .over p.start p.stop⟩
  modify fun c => { c with
    project := some { p with reports := p.reports ++ [added] }, report := some p.reports.length }

/-- Starts a column with the title it has unless another is given. -/
def openColumn (id : String) : Matcher Unit := do
  let _ ← reportElement
  let title ← orFail (Plan.columnTitle? id) (.unknownColumn id)
  modify fun c => { c with column := some ⟨id, title⟩ }

/-- The column that has been read. -/
def closeColumn : Matcher (Option Column) := do
  let column := (← get).column
  modify fun c => { c with column := none }
  return column

/-- Gives the column another title. -/
def setTitle (title : String) : Matcher Unit := do
  let column ← orFail (← get).column .noColumn
  modify fun c => { c with column := some { column with title } }

/-- Those of some scenarios that are enabled. -/
def enabledScenarios (items : List Value) : Matcher (List Nat) := do
  let p ← project
  return items.filterMap fun item =>
    match item with
    | .int (.ofNat i) => if (p.scenario? i).any (·.enabled) then some i else none
    | _ => none

/-- Whether rows go up in the order of an attribute. -/
def sortDirection (word : String) : Matcher Bool :=
  if word = "up" then return true
  else if word = "down" then return false
  else fail .sortDirectionExpected

/-- What rows are ordered by: `attribute.direction` or `scenario.attribute.direction`. -/
def sortCriterion (id : String) : Matcher SortCriterion := do
  match Plan.idParts id with
  | [name, direction] => return ⟨name, ← sortDirection direction, none⟩
  | [scenario, name, direction] =>
    let index ← orFail ((← project).scenarioIndex? scenario) (.unknownSortScenario scenario)
    return ⟨name, ← sortDirection direction, some index⟩
  | _ => fail .sortCriterionExpected

/-- The task below which a report starts. -/
def knownTask (id : String) : Matcher String := do
  match (← project).tasks.byId? id with
  | some _ => return id
  | none => fail (.unknownTask id)

end Matcher

/-- What a statement in the body of a report changes. -/
def ReportAction.change (v : Values) : ReportAction → Matcher (ReportElement → ReportElement)
  | .columns => return ({ · with columns := (v.list 1).filterMap (·.column?) })
  | .headline => do
    let text ← .take v (v.string 1)
    return ({ · with headline := some text })
  | .hideResource => do
    let filter ← .take v (v.expression 1)
    return ({ · with hideResource := some filter })
  | .hideTask => do
    let filter ← .take v (v.expression 1)
    return ({ · with hideTask := some filter })
  | .rollupTask => do
    let filter ← .take v (v.expression 1)
    return ({ · with rollupTask := some filter })
  | .period => do
    let period ← .take v (v.interval 1)
    return ({ · with start := period.start, stop := period.stop })
  | .start => do
    let date ← .take v (v.date 1)
    return ({ · with start := date })
  | .stop => do
    let date ← .take v (v.date 1)
    return ({ · with stop := date })
  | .scenarios => do
    let scenarios ← .enabledScenarios (v.list 1)
    return ({ · with scenarios })
  | .sortResources => return ({ · with sortResources := (v.list 1).filterMap (·.sortCriterion?) })
  | .sortTasks => return ({ · with sortTasks := (v.list 1).filterMap (·.sortCriterion?) })
  | .taskRoot => do
    let task ← .knownTask (← .take v (v.string 1))
    return ({ · with taskRoot := some task })
  | .timeFormat => do
    let format ← .take v (v.string 1)
    return ({ · with timeFormat := some format })
  | _ => return id

/-- What a statement about reports does. -/
def ReportAction.perform (v : Values) : ReportAction → Matcher (Option Value)
  | .header => do
    .openReport (← .take v (v.string 0)) (← .take v (v.string 1))
    return none
  | .close => do
    modify fun c => { c with report := none, column := none }
    return none
  | .column => return (← Matcher.closeColumn).map .column
  | .columnId => do
    .openColumn (← .take v (v.string 0))
    return none
  | .columnTitle => do
    .setTitle (← .take v (v.string 1))
    return none
  | .sortPath => do return some (.sortCriterion (← .sortCriterion (← .take v (v.string 0))))
  | .sortTree => do
    if (← .take v (v.string 0)) = "tree" then return some (.sortCriterion .tree)
    else .fail .sortCriterionExpected
  | action => do
    .modifyReport (← action.change v)
    return none

end Planfile
