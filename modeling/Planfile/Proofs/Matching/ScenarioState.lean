import Planfile.Proofs.Matching.EntryState

/-!
# Planfile — what is said about scenarios and reports

A plan declares scenarios, switches them off, chooses one for an attribute, and lists those that a report
shows. Few actions do any of this: most set values of tasks and resources, or look at what is there.

Main results:

* `Action.scenarioState_of_run` — an action that is about neither scenarios nor reports leaves alone what is
  said about them.
-/

namespace Planfile

open Matcher

/-- The scenarios of a project, and those that each of its reports shows. -/
structure ScenarioLists where
  scenarios : List Plan.Scenario
  shown : List (List Nat)

/-- The scenarios of a project, and those that each of its reports shows. -/
def Plan.Project.scenarioLists (p : Plan.Project) : ScenarioLists :=
  ⟨p.scenarios, p.reports.map (·.element.scenarios)⟩

/-- The part of a state that is about scenarios and reports. -/
structure ScenarioState where
  scenarioLists : Option ScenarioLists
  scenario : Option Nat
  scenarioIndex : Nat
  scenariosReplaced : Bool
  report : Option Nat
  column : Option Plan.Column

/-- What a state says about scenarios and reports. -/
def Context.scenarioState (c : Context) : ScenarioState :=
  ⟨c.project.map (·.scenarioLists), c.scenario, c.scenarioIndex, c.scenariosReplaced, c.report, c.column⟩

/-- Whether an action changes what is said about scenarios and reports. Matching a rule may do so. -/
def Action.setsScenarioState : Action → Bool
  | .project .header | .property (.header _) | .property .leaveScenario | .rule _ => true
  | .scenario .index => false
  | .scenario _ => true
  | .report .header | .report .close | .report .scenarios => true
  | .report .column | .report .columnId | .report .columnTitle => true
  | _ => false

section
variable (v : Values)

@[simp] theorem Plan.Project.scenarioLists_setProperties (p : Plan.Project) (kind : Plan.PropertyKind)
    (s : Plan.PropertySet) : (p.setProperties kind s).scenarioLists = p.scenarioLists := by
  cases kind <;> rfl

@[simp] theorem Plan.Project.scenarioLists_modifySettings (p : Plan.Project)
    (f : Plan.Settings → Plan.Settings) : (p.modifySettings f).scenarioLists = p.scenarioLists := rfl

/-- Whatever a report shows apart from scenarios is not about these. -/
theorem Plan.Project.scenarioLists_modifyReport (p : Plan.Project)
    {f : Plan.ReportElement → Plan.ReportElement} (h : ∀ e, (f e).scenarios = e.scenarios) (i : Nat) :
    ({ p with
      reports := p.reports.modify i fun r => { r with element := f r.element } } :
      Plan.Project).scenarioLists = p.scenarioLists := by
  have same := Plan.map_modify_of_eq (f := fun r : Plan.Report => { r with element := f r.element })
    (g := fun r => r.element.scenarios) (fun r => h r.element) p.reports i
  rw [scenarioLists, same]
  rfl

theorem ProjectAction.keeps_scenarioState {a : ProjectAction} (h : a ≠ .header) :
    Keeps Context.scenarioState (a.perform v) := by
  intro env c
  cases a with
  | header => exact absurd rfl h
  | _ => simp +contextual [perform, realFormat, Context.scenarioState]

theorem PropertyAction.keeps_scenarioState {a : PropertyAction}
    (h : (Action.property a).setsScenarioState = false) :
    Keeps Context.scenarioState (a.perform v) := by
  by_cases readOnly : a.isReadOnly = true
  · exact a.keeps_of_isReadOnly v readOnly
  intro env c
  cases a with
  | header kind | leaveScenario => cases h
  | close => simp [perform, closeProperty, Context.scenarioState]
  | allocate | flags | vacation =>
    simp +contextual [perform, addAllocations, addFlags, addVacations, Context.scenarioState]
  | depends | ticks id | start | stop | priority => simp +contextual [perform, Context.scenarioState]
  | relativeId | resourceId | allocation | alternatives | selectMode => exact absurd rfl readOnly

/-- An attribute is added to a schema and to the grammar, and to nothing else. -/
theorem Matcher.keeps_applyExtension (e : AttributeExtension) :
    Keeps Context.scenarioState (applyExtension e) := by
  refine fun env c => ends_applyExtension e fun target p set symbols journal _ there _ _ _ => ?_
  simp [Context.scenarioState, there]

theorem ExtendAction.keeps_scenarioState (a : ExtendAction) : Keeps Context.scenarioState (a.perform v) := by
  intro env c
  cases a with
  | target => simp [perform, chooseTarget, Context.scenarioState]
  | close => simp [perform, Context.scenarioState]
  | declare kind =>
    simp only [perform, Matcher.declareAttribute, ends_bind, ends_take, ends_pure]
    intro id _ name _
    exact keeps_applyExtension _ env c
  | id => simp [perform, extensionId]
  | store id kind scenarioSpecific => simp +contextual [perform, Context.scenarioState]

/-- Apart from its scenarios, what a report shows is changed alone. -/
theorem ReportAction.ends_change {a : ReportAction} (h : a ≠ .scenarios) (env : Surroundings)
    (c : Context) :
    Ends (fun f d => (∀ e, (f e).scenarios = e.scenarios) ∧ d = c) (a.change v) env c := by
  cases a with
  | scenarios => exact absurd rfl h
  | _ => simp [change]

theorem ReportAction.keeps_scenarioState {a : ReportAction}
    (h : (Action.report a).setsScenarioState = false) :
    Keeps Context.scenarioState (a.perform v) := by
  by_cases readOnly : a.isReadOnly = true
  · exact a.keeps_of_isReadOnly v readOnly
  intro env c
  cases a with
  | header | close | column | columnId | columnTitle | scenarios => cases h
  | sortPath | sortTree => exact absurd rfl readOnly
  | _ =>
    simp only [perform, ends_bind]
    refine (ends_change v (by simp) env c).weaken fun f d changed => ?_
    obtain ⟨other, same⟩ := changed
    simp +contextual [same, Context.scenarioState, Plan.Project.scenarioLists_modifyReport _ other]

/-- Working hours are set in the project, or for the current resource. -/
theorem Matcher.keeps_scenarioState_workingHours : Keeps Context.scenarioState (Matcher.workingHours v) := by
  intro env c
  simp +contextual [Context.scenarioState]

/-- An action that is about neither scenarios nor reports leaves alone what is said about them. -/
theorem Action.scenarioState_of_run {a : Action} (h : a.setsScenarioState = false)
    {matchRule : RuleId → Matcher (Option Value)} {env : Surroundings} {c d : Context}
    {o : Option Value} (run : a.perform matchRule v env c = (.ok o, d)) :
    d.scenarioState = c.scenarioState := by
  by_cases readOnly : a.isReadOnly = true
  · exact (a.keeps_of_isReadOnly v (fun _ _ => rfl) readOnly matchRule env c).of_ok run
  cases a with
  | rule name => cases h
  | includeFile i =>
    obtain ⟨-, path, tokens, journal, -, rfl, -⟩ := Action.eq_of_run_includeFile v run
    rfl
  | project a =>
    obtain ⟨_, x, acted, last⟩ := exists_of_run_bind run
    cases last
    exact (a.keeps_scenarioState v (by rintro rfl; cases h) env c).of_ok acted
  | scenario a =>
    cases a with
    | index => exact absurd rfl readOnly
    | _ => cases h
  | property a => exact (a.keeps_scenarioState v h env c).of_ok run
  | extend a => exact (a.keeps_scenarioState v env c).of_ok run
  | report a => exact (a.keeps_scenarioState v h env c).of_ok run
  | calendar a =>
    cases a with
    | workingHours =>
      obtain ⟨_, x, acted, last⟩ := exists_of_run_bind run
      cases last
      exact (keeps_scenarioState_workingHours v env c).of_ok acted
    | _ => exact absurd rfl readOnly
  | _ => exact absurd rfl readOnly

end

end Planfile
