import Planfile.Plan.Duration
import Planfile.Plan.PropertySet
import Planfile.Plan.Report

/-!
# Planfile — projects

A project covers some time, has scenarios, tasks, resources and reports, and settings that hold for
all of them.

Main results:

* `Project.scenarioIndex?_addScenario` — an added scenario is found under its id.
-/

namespace Planfile.Plan

/-- How numbers or amounts of money are written. -/
structure RealFormat where
  signPrefix : String
  signSuffix : String
  thousandsSeparator : String
  fractionSeparator : String
  fractionDigits : Nat
  deriving DecidableEq, Repr

/-- What holds for a whole project. -/
structure Settings where
  copyright : Option String
  currency : Option String
  currencyFormat : Option RealFormat
  numberFormat : Option RealFormat
  dailyWorkingHours : Float
  yearlyWorkingDays : Float
  /-- The seconds of a scheduling tick. -/
  scheduleGranularity : Int
  now : Option Calendar.DateTime
  timeFormat : Option String
  shortTimeFormat : Option String
  timezone : Option String
  weekStartsMonday : Bool
  /-- The flags that tasks, resources and expressions may use. -/
  flags : List String
  vacations : List Calendar.Interval
  workingHours : Calendar.WorkingHours

/-- The settings a project starts with. -/
def Settings.initial : Settings where
  copyright := none
  currency := none
  currencyFormat := none
  numberFormat := none
  dailyWorkingHours := 8.0
  yearlyWorkingDays := 260.714
  scheduleGranularity := 3600
  now := none
  timeFormat := none
  shortTimeFormat := none
  timezone := none
  weekStartsMonday := true
  flags := []
  vacations := []
  workingHours := .office

/-- One of several ways in which a project may go. -/
structure Scenario where
  id : String
  name : String
  parent : Option Nat
  enabled : Bool
  deriving DecidableEq, Repr

/-- A scenario that is enabled. -/
def Scenario.declared (id name : String) (parent : Option Nat) : Scenario :=
  ⟨id, name, parent, true⟩

/-- A scenario is refused when its id is taken. -/
structure ScenarioExists where
  id : String
  deriving DecidableEq, Repr

/-- The wording of the refusal. -/
def ScenarioExists.message (e : ScenarioExists) : String :=
  s!"Scenario {e.id} has already been defined"

/-- A project. -/
structure Project where
  id : String
  name : String
  version : String
  start : Calendar.DateTime
  stop : Calendar.DateTime
  settings : Settings
  scenarios : List Scenario
  tasks : PropertySet
  resources : PropertySet
  reports : List Report

namespace Project

/-- A project with one scenario and nothing else. -/
def initial (id name version : String) (time : Calendar.Interval) : Project where
  id := id
  name := name
  version := version
  start := time.start
  stop := time.stop
  settings := .initial
  scenarios := [.declared "plan" "Plan Scenario" none]
  tasks := .empty .task
  resources := .empty .resource
  reports := []

/-- The time of the project. -/
def interval (p : Project) : Calendar.Interval := ⟨p.start, p.stop⟩

/-- The place of a scenario. -/
def scenarioIndex? (p : Project) (id : String) : Option Nat :=
  p.scenarios.findIdx? (·.id == id)

/-- A scenario by its place. -/
def scenario? (p : Project) (index : Nat) : Option Scenario := p.scenarios[index]?

/-- The project with one more scenario, unless its id is taken. -/
def addScenario (p : Project) (s : Scenario) : Except ScenarioExists Project :=
  match p.scenarioIndex? s.id with
  | some _ => .error ⟨s.id⟩
  | none => .ok { p with scenarios := p.scenarios ++ [s] }

/-- The project without scenarios. -/
def clearScenarios (p : Project) : Project := { p with scenarios := [] }

/-- An added scenario is found under its id, behind all others. -/
theorem scenarioIndex?_addScenario {p q : Project} {s : Scenario} (h : p.addScenario s = .ok q) :
    q.scenarioIndex? s.id = some p.scenarios.length := by
  unfold addScenario at h
  split at h
  · cases h
  · next hn =>
    cases h
    unfold scenarioIndex? at hn ⊢
    rw [List.findIdx?_append, hn]
    simp

/-- The tasks or the resources. -/
def properties (p : Project) : PropertyKind → PropertySet
  | .task => p.tasks
  | .resource => p.resources

/-- The project with its tasks or its resources replaced. -/
def setProperties (p : Project) (kind : PropertyKind) (s : PropertySet) : Project :=
  match kind with
  | .task => { p with tasks := s }
  | .resource => { p with resources := s }

/-- Whether a flag is declared. -/
def hasFlag (p : Project) (flag : String) : Bool := p.settings.flags.contains flag

/-- The project with its settings changed. -/
def modifySettings (p : Project) (f : Settings → Settings) : Project :=
  { p with settings := f p.settings }

end Project

end Planfile.Plan
