import Planfile.Parse.Context

/-!
# Planfile — the meaning of statements about scenarios

Scenarios form a forest: a scenario inside the body of another one lies below it. A project starts
with one scenario, which gives way to the first one that is declared.
-/

namespace Planfile

open Plan (Scenario)

namespace Matcher

/-- The place of a scenario. -/
def scenarioIndex (id : String) : Matcher Nat := do
  orFail ((← project).scenarioIndex? id) (.unknownScenario id)

/-- Adds a scenario below the one whose body is read. -/
def openScenario (v : Values) : Matcher Unit := do
  let c ← get
  let p ← project
  -- the first scenario that is declared takes the place of the one that is always there
  let p := if c.scenario.isNone && !c.scenariosReplaced then p.clearScenarios else p
  modify fun c => { c with project := some p }
  let added := Scenario.declared (← .take v (v.string 1)) (← .take v (v.string 2)) c.scenario
  match p.addScenario added with
  | .error e => .fail (.scenarioExists e)
  | .ok q =>
    modify fun c => { c with
      project := some q, scenariosReplaced := true, scenario := some p.scenarios.length }

/-- Goes back to the scenario around the one whose body is read. -/
def closeScenario : Matcher Unit :=
  modify fun c =>
    let current := do (← c.project).scenario? (← c.scenario)
    { c with scenario := current.bind (·.parent) }

/-- Enables or disables the scenario whose body is read. -/
def enableScenario (enabled : Bool) : Matcher Unit := do
  let c ← get
  let index ← orFail c.scenario .noScenario
  let p ← orFail c.project .noScenario
  let _ ← orFail (p.scenario? index) .noScenario
  modify fun c => { c with
    project := some { p with scenarios := p.scenarios.modify index ({ · with enabled }) } }

end Matcher

/-- What a statement about scenarios does. -/
def ScenarioAction.perform (v : Values) : ScenarioAction → Matcher (Option Value)
  | .header => do
    .openScenario v
    return none
  | .close => do
    .closeScenario
    return none
  | .enable enabled => do
    .enableScenario enabled
    return none
  | .select => do
    let index ← .scenarioIndex (← .take v (v.string 0))
    modify fun c => { c with scenarioIndex := index }
    return none
  | .index => do
    let index ← .scenarioIndex (← .take v (v.string 0))
    return some (.int index)

end Planfile
