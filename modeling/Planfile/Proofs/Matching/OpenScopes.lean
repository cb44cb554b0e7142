import Planfile.Proofs.Matching.ScenarioState
import Planfile.Proofs.Statement.Action

/-!
# Planfile — what is open while a plan is read

A statement is about what is open around it: the project, a task or a resource, a scenario, a report, a
column, what is extended, or a scenario that one attribute is meant for. For each of these the state has a
register of its own. A header opens what it has added, and the end of a body closes it, where what stood
around it is current again. All other actions leave the registers alone.

Main results:

* `Action.openScopes_of_run` — an action that neither opens nor closes leaves the registers as they are.
* `Prepared.opens_of_run`, `Action.closes_of_run` — what is open behind those that do.
-/

namespace Planfile

open Plan (PropertyKind)

/-! ## Scopes -/

/-- What is opened and closed while a plan is read. -/
inductive Scope where
  | project
  | property (kind : PropertyKind)
  | scenario
  | report
  | column
  /-- What attributes are added to. -/
  | target
  /-- A single attribute that is meant for the scenario that has been selected. -/
  | selected
  deriving DecidableEq, Repr

namespace Scope

/-- All scopes. -/
def all : List Scope :=
  [.project, .property .task, .property .resource, .scenario, .report, .column, .target, .selected]

theorem mem_all (s : Scope) : s ∈ all := by
  cases s with
  | property kind => cases kind <;> decide
  | _ => decide

/-- What can be open somewhere around a body. -/
def around : Scope → List Scope
  | .project => []
  | .property kind => [.project, .property kind]
  | .scenario => [.project, .scenario]
  | .report | .target => [.project]
  | .column => [.project, .report]
  | .selected => [.project, .property .task, .property .resource]

/-- What can be open next around a body. -/
def inside : Scope → List (Option Scope)
  | .project => [none]
  | .property kind => [some .project, some (.property kind)]
  | .scenario => [some .project, some .scenario]
  | .report | .target => [some .project]
  | .column => [some .report]
  | .selected => [some (.property .task), some (.property .resource)]

end Scope

/-! ## Registers -/

/-- What the registers of a state say, with the entries that they are about. -/
@[ext] structure OpenScopes where
  /-- The entry that is current, if there is one. -/
  current : Scope → Option Nat
  /-- All entries, each with the one above it. -/
  above : Scope → List (Option Nat)

/-- The entry that has been made last. -/
def OpenScopes.newest (d : OpenScopes) (s : Scope) : Nat := (d.above s).length - 1

/-- What the registers of a state say. What has no entries counts as the only one of its scope. -/
def Context.openScopes (c : Context) : OpenScopes where
  current
    | .project => c.project.map fun _ => 0
    | .property kind => Matcher.openProperty? c kind
    | .scenario => c.scenario
    | .report => c.report
    | .column => c.column.map fun _ => 0
    | .target => c.extendTarget.map fun _ => 0
    | .selected => if c.scenarioIndex = 0 then none else some 0
  above
    | .property kind =>
      (c.project.map fun p => (p.properties kind).entryTable.headings.map (·.parent)).getD []
    | .scenario => (c.project.map (·.scenarios.map (·.parent))).getD []
    | .report => (c.project.map (·.reports.map fun _ => none)).getD []
    | _ => [none]

namespace OpenScopes

/-- Whether something has been opened on the way from one state to another. It is current then, and below
what was current before; an attribute may be meant for the first scenario, which is current anyway. -/
structure Opens (s : Scope) (d e : OpenScopes) : Prop where
  current : s ≠ .selected → e.current s = some (e.newest s)
  above : (e.above s)[e.newest s]? = some (if s ∈ s.around then d.current s else none)
  others : ∀ r, r ≠ s → e.current r = d.current r ∨ e.current r = none ∧ r ∉ s.around
  kept : ∀ r ∈ s.around, d.current r ≠ none → d.above r <+: e.above r

/-- Whether something has been closed on the way from one state to another. What is above it is current
then. -/
structure Closes (s : Scope) (d e : OpenScopes) : Prop where
  current : e.current s =
    if s ∈ s.around then (d.current s).bind fun i => ((d.above s)[i]?).join else none
  others : ∀ r, r ≠ s → e.current r = d.current r ∨ e.current r = none ∧ r ∉ s.around
  above : e.above = d.above

/-- What has an entry is opened where the entry is made behind the others. -/
theorem Opens.of_entry {s : Scope} {d e : OpenScopes} (before : List (Option Nat))
    (above : e.above s = before ++ [if s ∈ s.around then d.current s else none])
    (current : e.current s = some before.length)
    (others : ∀ r, r ≠ s → e.current r = d.current r ∨ e.current r = none ∧ r ∉ s.around)
    (kept : ∀ r ∈ s.around, d.current r ≠ none → d.above r <+: e.above r) : d.Opens s e := by
  have newest : e.newest s = before.length := by simp [OpenScopes.newest, above]
  refine ⟨fun _ => newest ▸ current, ?_, others, kept⟩
  rw [newest, above]
  exact List.getElem?_concat_length

end OpenScopes

/-! ## Actions -/

namespace Action

/-- What an action opens. -/
def opens? : Action → Option Scope
  | .project .header => some .project
  | .property (.header kind) => some (.property kind)
  | .scenario .header => some .scenario
  | .scenario .select => some .selected
  | .report .header => some .report
  | .report .columnId => some .column
  | .extend .target => some .target
  | _ => none

/-- Whether an action closes something. -/
def closes : Action → Scope → Bool
  | .property .close, .property _ => true
  | .property .leaveScenario, .selected => true
  | .scenario .close, .scenario => true
  | .report .close, .report => true
  | .report .column, .column => true
  | .extend .close, .target => true
  | _, _ => false

/-- Whether an action neither opens nor closes anything. Matching a rule may do so. -/
def isQuiet (a : Action) : Bool :=
  a.opens?.isNone && Scope.all.all (!a.closes ·) && !(a matches .rule _)

end Action

section
variable {c d : Context} {env : Surroundings} {v : Values} {x : Option Value}
  {matchRule : RuleId → Matcher (Option Value)}

/-- Entries and what is said of scenarios and reports are all that the registers are about. -/
theorem Context.openScopes_congr (entryState : d.entryState = c.entryState)
    (scenarioState : d.scenarioState = c.scenarioState) :
    d.openScopes = c.openScopes := by
  have property : d.property = c.property := congrArg EntryState.property entryState
  have target : d.extendTarget = c.extendTarget := congrArg EntryState.target entryState
  have entryTables : d.project.map (·.entryTables) = c.project.map (·.entryTables) :=
    congrArg EntryState.entryTables entryState
  have scenarioLists : d.project.map (·.scenarioLists) = c.project.map (·.scenarioLists) :=
    congrArg ScenarioState.scenarioLists scenarioState
  have ofTables {α : Type} (f : EntryTables → α) :
      d.project.map (fun p => f p.entryTables) = c.project.map fun p => f p.entryTables := by
    simpa [Function.comp_def] using congrArg (Option.map f) entryTables
  -- first the registers, then the tables that their entries are in
  ext1
  · funext s
    cases s with
    | project => exact ofTables fun _ => 0
    | property kind =>
      show Matcher.openProperty? d kind = Matcher.openProperty? c kind
      rw [Matcher.openProperty?, Matcher.openProperty?, property]
    | scenario => exact congrArg ScenarioState.scenario scenarioState
    | report => exact congrArg ScenarioState.report scenarioState
    | column => exact congrArg (fun s => s.column.map fun _ => 0) scenarioState
    | target => exact congrArg (Option.map fun _ => 0) target
    | selected => exact congrArg (fun s => if s.scenarioIndex = 0 then none else some 0) scenarioState
  · funext s
    cases s with
    | property kind =>
      have headings := ofTables fun b => (b.entryTable kind).headings.map (·.parent)
      cases kind <;> exact congrArg (Option.getD · []) headings
    | scenario =>
      have scenarios := congrArg (Option.map fun l => l.scenarios.map (·.parent)) scenarioLists
      rw [Option.map_map, Option.map_map] at scenarios
      exact congrArg (Option.getD · []) scenarios
    | report =>
      have reports := ofTables fun b => b.reports.map fun _ => (none : Option Nat)
      simp only [Plan.Project.entryTables, List.map_map] at reports
      exact congrArg (Option.getD · []) reports
    | _ => rfl

/-- Where the project has the entries of another one, the registers say the same. -/
theorem Context.openScopes_of_entries {p q : Plan.Project} (there : c.project = some p)
    (headings : ∀ kind, (q.properties kind).entryTable.headings = (p.properties kind).entryTable.headings)
    (scenarios : q.scenarios.map (·.parent) = p.scenarios.map (·.parent))
    (reports : q.reports.length = p.reports.length) :
    { c with project := some q }.openScopes = c.openScopes := by
  ext1
  · funext s
    cases s with
    | project => exact (congrArg (Option.map fun _ => 0) there).symm
    | _ => rfl
  · funext s
    cases s with
    | property kind => simp [openScopes, there, headings]
    | scenario => simp [openScopes, there, scenarios]
    | report => simp [openScopes, there, reports]
    | _ => rfl

/-! ## Actions that neither open nor close -/

open Matcher

/-- An attribute that is added to a schema is no entry. -/
theorem Matcher.keeps_openScopes_applyExtension (e : AttributeExtension) :
    Keeps Context.openScopes (applyExtension e) := by
  refine fun env c => ends_applyExtension e fun target p set symbols journal _ there _ defined _ => ?_
  obtain ⟨-, same⟩ := Plan.PropertySet.definitions_of_define? defined
  have headings : set.entryTable.headings = (p.properties target.kind).entryTable.headings := by
    rw [same]
    rfl
  refine Context.openScopes_of_entries there (fun other => ?_) ?_ ?_
  · rw [Plan.Project.properties_setProperties]
    split
    · next own => rw [headings, own]
    · rfl
  · cases target.kind <;> rfl
  · cases target.kind <;> rfl

/-- A scenario that is enabled or disabled stays below the one that it has been declared in. -/
theorem Matcher.keeps_openScopes_enableScenario (enabled : Bool) :
    Keeps Context.openScopes (enableScenario enabled) := by
  intro env c
  simp only [enableScenario, ends_bind, ends_get, ends_orFail, ends_modify]
  intro index _ p there s _
  refine Context.openScopes_of_entries there (fun kind => by cases kind <;> rfl) ?_ rfl
  exact Plan.map_modify_of_eq (fun _ => by rfl) p.scenarios index

theorem Matcher.keeps_openScopes_modifyReport (f : Plan.ReportElement → Plan.ReportElement) :
    Keeps Context.openScopes (modifyReport f) := by
  intro env c
  simp only [ends_modifyReport]
  intro index _ p there r _
  exact Context.openScopes_of_entries there (fun kind => by cases kind <;> rfl) rfl (List.length_modify _ _ _)

/-- The column that another title is given to is open still. -/
theorem Matcher.keeps_openScopes_setTitle (title : String) : Keeps Context.openScopes (setTitle title) := by
  intro env c
  simp only [Matcher.setTitle, ends_bind, ends_get, ends_orFail, ends_modify]
  intro column there
  ext1
  · funext s
    cases s with
    | column => exact (congrArg (Option.map fun _ => 0) there).symm
    | _ => rfl
  · rfl

/-- An action that neither opens nor closes anything leaves the registers as they are. -/
theorem Action.openScopes_of_run {a : Action} (h : a.isQuiet = true)
    (run : a.perform matchRule v env c = (.ok x, d)) : d.openScopes = c.openScopes := by
  by_cases entries : a.makesEntry = false ∧ a.setsScenarioState = false
  · have entryState := (a.spares_entryState v entries.1 matchRule).eq env c
    rw [run] at entryState
    exact Context.openScopes_congr entryState (a.scenarioState_of_run v entries.2 run)
  -- the others change something that the registers are not about
  suffices ends : Ends (fun _ d => d.openScopes = c.openScopes) (a.perform matchRule v) env c from
    ends.of_ok run
  cases a with
  | scenario a =>
    cases a with
    | enable enabled =>
      simp only [perform, ScenarioAction.perform, ends_bind, ends_pure]
      exact keeps_openScopes_enableScenario enabled env c
    | index => exact absurd ⟨rfl, rfl⟩ entries
    | _ => cases h
  | extend a =>
    cases a with
    | declare kind =>
      simp only [perform, ExtendAction.perform, declareAttribute, ends_bind, ends_take, ends_pure]
      exact fun id _ name _ => keeps_openScopes_applyExtension _ env c
    | id | store id kind specific => exact absurd ⟨rfl, rfl⟩ entries
    | _ => cases h
  | report a =>
    cases a with
    | scenarios =>
      simp only [perform, ReportAction.perform, ReportAction.change, enabledScenarios, ends_bind,
        ends_project, ends_pure]
      exact fun p _ => keeps_openScopes_modifyReport _ env c
    | columnTitle =>
      simp only [perform, ReportAction.perform, ends_bind, ends_take, ends_pure]
      exact fun title _ => keeps_openScopes_setTitle title env c
    | header | close | columnId | column => cases h
    | _ => exact absurd ⟨rfl, rfl⟩ entries
  | rule name => cases h
  | project a => cases a <;> first | exact absurd ⟨rfl, rfl⟩ entries | cases h
  | property a => cases a <;> first | exact absurd ⟨rfl, rfl⟩ entries | cases h
  | _ => exact absurd ⟨rfl, rfl⟩ entries

/-! ## Headers -/

theorem ProjectAction.opens_header :
    Ends (fun _ d => c.openScopes.Opens .project d.openScopes) (ProjectAction.header.perform v) env c := by
  simp only [perform, ends_bind, ends_take, ends_modify]
  intro id _ name _ version _ time _
  refine ⟨fun _ => rfl, rfl, fun r other => ?_, fun r mem => by cases mem⟩
  -- what is not current any more cannot be around a project
  cases r with
  | project => exact absurd rfl other
  | property kind | scenario | selected => exact .inr ⟨rfl, List.not_mem_nil⟩
  | report | column | target => exact .inl rfl

theorem PropertyAction.opens_header (kind : PropertyKind) :
    Ends (fun _ d => c.openScopes.Opens (.property kind) d.openScopes)
      ((PropertyAction.header kind).perform v) env c := by
  simp only [perform, Matcher.leaveScenario, ends_bind, ends_take, ends_openProperty, ends_modify, ends_pure]
  intro id _ name _ p there grown added
  have headings := congrArg EntryTable.headings
    (Plan.PropertySet.headings_of_add? added (p.properties kind).length)
  refine .of_entry (c.openScopes.above (.property kind)) ?_ ?_ (fun r other => ?_) fun r mem _ => ?_
  · simp [Context.openScopes, there, Scope.around, Plan.Project.properties_setProperties, headings]
  · simp [Context.openScopes, there, openProperty?, Plan.PropertySet.length_headings]
  · cases r with
    | property otherKind =>
      -- in the body of a task no resource is current, and the other way round
      have ne : kind ≠ otherKind := fun same => other (same ▸ rfl)
      exact .inr ⟨if_neg ne, by simpa [Scope.around] using ne.symm⟩
    | project => exact .inl (congrArg (Option.map fun _ => 0) there).symm
    | selected => exact .inr ⟨rfl, by simp [Scope.around]⟩
    | _ => exact .inl rfl
  · obtain rfl | rfl : r = .project ∨ r = .property kind := by simpa [Scope.around] using mem
    · exact List.prefix_rfl
    · simp [Context.openScopes, there, Plan.Project.properties_setProperties, headings]

theorem ScenarioAction.opens_header :
    Ends (fun _ d => c.openScopes.Opens .scenario d.openScopes) (ScenarioAction.header.perform v) env c := by
  simp only [perform, ends_bind, ends_openScenario, ends_pure]
  intro p there id _ name _ _
  refine .of_entry ((c.keptScenarios p).map (·.parent)) ?_ ?_ (fun r other => ?_) fun r mem inside => ?_
  · simp [Context.openScopes, Scope.around, Plan.Scenario.declared]
  · simp [Context.openScopes]
  · cases r with
    | scenario => exact absurd rfl other
    | project => exact .inl (congrArg (Option.map fun _ => 0) there).symm
    | _ => exact .inl rfl
  · obtain rfl | rfl : r = .project ∨ r = .scenario := by simpa [Scope.around] using mem
    · exact List.prefix_rfl
    · -- in the body of a scenario there are declared ones, which stay
      obtain ⟨i, current⟩ : ∃ i, c.scenario = some i := Option.ne_none_iff_exists'.mp inside
      simp [Context.openScopes, Context.keptScenarios, there, current]

theorem ScenarioAction.opens_select :
    Ends (fun _ d => c.openScopes.Opens .selected d.openScopes) (ScenarioAction.select.perform v) env c := by
  simp only [perform, scenarioIndex, ends_bind, ends_take, ends_project, ends_orFail, ends_modify, ends_pure]
  intro id _ p there index _
  refine ⟨fun other => absurd rfl other, rfl, fun r other => ?_, fun r _ _ => List.prefix_rfl⟩
  cases r with
  | selected => exact absurd rfl other
  | _ => exact .inl rfl

theorem ReportAction.opens_header :
    Ends (fun _ d => c.openScopes.Opens .report d.openScopes) (ReportAction.header.perform v) env c := by
  simp only [perform, openReport, ends_bind, ends_take, ends_orFail, ends_project, ends_modify, ends_pure]
  intro word _ name _ kind _ p there
  refine .of_entry (c.openScopes.above .report) ?_ ?_ (fun r other => ?_) fun r mem _ => ?_
  · simp [Context.openScopes, there, Scope.around, List.replicate_succ']
  · simp [Context.openScopes, there]
  · cases r with
    | report => exact absurd rfl other
    | project => exact .inl (congrArg (Option.map fun _ => 0) there).symm
    | _ => exact .inl rfl
  · obtain rfl := List.mem_singleton.mp mem
    exact List.prefix_rfl

theorem ReportAction.opens_columnId :
    Ends (fun _ d => c.openScopes.Opens .column d.openScopes) (ReportAction.columnId.perform v) env c := by
  simp only [perform, openColumn, ends_bind, ends_take, ends_reportElement, ends_orFail, ends_modify,
    ends_pure]
  intro id _ index _ p _ r _ title _
  refine ⟨fun _ => rfl, rfl, fun r other => ?_, fun r _ _ => List.prefix_rfl⟩
  cases r with
  | column => exact absurd rfl other
  | _ => exact .inl rfl

theorem ExtendAction.opens_target :
    Ends (fun _ d => c.openScopes.Opens .target d.openScopes) (ExtendAction.target.perform v) env c := by
  have opened (target : ExtendTarget) :
      c.openScopes.Opens .target { c with extendTarget := some target }.openScopes := by
    refine ⟨fun _ => rfl, rfl, fun r other => ?_, fun r _ _ => List.prefix_rfl⟩
    cases r with
    | target => exact absurd rfl other
    | _ => exact .inl rfl
  simp only [perform, chooseTarget, ends_bind, ends_take, ends_ite, ends_ruleId, ends_pure, ends_fail,
    ends_modify]
  intro word _
  split
  · exact fun _ _ _ _ => opened _
  · split
    · exact fun _ _ _ _ => opened _
    · trivial

/-- An action that opens something does so. -/
theorem Action.opens_of_run {a : Action} {s : Scope} (h : a.opens? = some s)
    (run : a.perform matchRule v env c = (.ok x, d)) : c.openScopes.Opens s d.openScopes := by
  suffices ends : Ends (fun _ d => c.openScopes.Opens s d.openScopes) (a.perform matchRule v) env c from
    ends.of_ok run
  unfold opens? at h
  split at h <;> cases h
  · simp only [perform, ends_bind, ends_pure]
    exact ProjectAction.opens_header
  · exact PropertyAction.opens_header _
  · exact ScenarioAction.opens_header
  · exact ScenarioAction.opens_select
  · exact ReportAction.opens_header
  · exact ReportAction.opens_columnId
  · exact ExtendAction.opens_target

/-! ## Ends of bodies -/

/-- Where an entry of some kind is open, it is the current one. -/
theorem Context.property_of_openScopes {kind : PropertyKind} {i : Nat}
    (h : c.openScopes.current (.property kind) = some i) : c.property = some (kind, i) := by
  change openProperty? c kind = some i at h
  unfold openProperty? at h
  split at h
  · next found =>
    split at h <;> cases h
    next same => rw [found, same]
  · cases h

/-- At the end of the body of a task or a resource, the one above it is current. -/
theorem Context.closes_property {kind : PropertyKind} (inside : c.openScopes.current (.property kind) ≠ none)
    (run : closeProperty env c = (.ok (), d)) : c.openScopes.Closes (.property kind) d.openScopes := by
  obtain ⟨i, current⟩ := Option.ne_none_iff_exists'.mp inside
  have property := Context.property_of_openScopes current
  have left : d = { c with property := (c.currentProperty?.bind (·.parent)).map (kind, ·) } := by
    cases run
    simp only [property, Option.bind_eq_bind, Option.bind_some]
    cases c.currentProperty? with
    | none => rfl
    | some q => cases parent : q.parent <;> simp [parent]
  subst left
  -- the entry above is the one that its task or resource names
  have parent : (c.currentProperty?.bind (·.parent)) = ((c.openScopes.above (.property kind))[i]?).join := by
    cases there : c.project with
    | none => simp [Context.currentProperty?, Context.openScopes, property, there]
    | some p =>
      simp only [Context.currentProperty?, Context.openScopes, property, there, Option.map_some,
        Option.getD_some, List.getElem?_map, Plan.PropertySet.getElem?_headings, Option.bind_eq_bind,
        Option.bind_some]
      cases (p.properties kind).get? i <;> rfl
  have nests : Scope.property kind ∈ (Scope.property kind).around := by simp [Scope.around]
  refine ⟨?_, fun r other => ?_, rfl⟩
  · rw [if_pos nests, current, Option.bind_some, ← parent]
    cases above : c.currentProperty?.bind (·.parent) <;> simp [Context.openScopes, openProperty?]
  · cases r with
    | property otherKind =>
      have ne : kind ≠ otherKind := fun same => other (same ▸ rfl)
      left
      cases above : c.currentProperty?.bind (·.parent) <;>
        simp [Context.openScopes, openProperty?, property, ne]
    | _ => exact .inl rfl

/-- At the end of the body of a scenario, the one above it is current. -/
theorem Context.closes_scenario (run : closeScenario env c = (.ok (), d)) :
    c.openScopes.Closes .scenario d.openScopes := by
  cases run
  refine ⟨?_, fun r other => ?_, rfl⟩
  · cases there : c.project with
    | none => cases inside : c.scenario <;> simp [Context.openScopes, Scope.around, there, inside]
    | some p =>
      cases inside : c.scenario with
      | none => simp [Context.openScopes, Scope.around, there, inside]
      | some i =>
        simp only [Context.openScopes, there, inside, Plan.Project.scenario?, Option.bind_eq_bind,
          Option.bind_some, Option.map_some, Option.getD_some, List.getElem?_map]
        cases p.scenarios[i]? <;> rfl
  · cases r with
    | scenario => exact absurd rfl other
    | _ => exact .inl rfl

/-- An action that closes what is open does so. -/
theorem Action.closes_of_run {a : Action} {s : Scope} (h : a.closes s = true)
    (inside : s ≠ .selected → c.openScopes.current s ≠ none)
    (run : a.perform matchRule v env c = (.ok x, d)) : c.openScopes.Closes s d.openScopes := by
  unfold closes at h
  split at h
  · obtain ⟨_, y, closed, last⟩ := exists_of_run_bind run
    cases last
    exact Context.closes_property (inside (by simp)) closed
  · cases run
    refine ⟨rfl, fun r other => ?_, rfl⟩
    cases r with
    | selected => exact absurd rfl other
    | _ => exact .inl rfl
  · obtain ⟨_, y, closed, last⟩ := exists_of_run_bind run
    cases last
    exact Context.closes_scenario closed
  · cases run
    refine ⟨rfl, fun r other => ?_, rfl⟩
    -- a column is not around a report
    cases r with
    | report => exact absurd rfl other
    | column => exact .inr ⟨rfl, by decide⟩
    | _ => exact .inl rfl
  · cases run
    refine ⟨rfl, fun r other => ?_, rfl⟩
    cases r with
    | column => exact absurd rfl other
    | _ => exact .inl rfl
  · cases run
    refine ⟨rfl, fun r other => ?_, rfl⟩
    cases r with
    | target => exact absurd rfl other
    | _ => exact .inl rfl
  · cases h

end

end Planfile
