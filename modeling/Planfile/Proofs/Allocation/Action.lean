import Planfile.Proofs.Allocation.Table
import Planfile.Proofs.Hours.Action
import Planfile.Proofs.Scenario.Language

/-!
# Planfile — actions on allocations

Allocations are values of tasks in scenarios. A header makes a task that starts with those of the one above,
a statement about allocations adds to those of the current one, and no other value is stored under their name.
Which scenario is meant is a register of its own, and what its number stands for depends on the scenarios that
have been declared so far.

Main results:

* `PropertyAction.allocationTable_header`, `PropertyAction.allocationTable_close` — what bodies are to the
  table of allocations.
* `Context.allocationTable_of_addAllocations` — what a statement about allocations is to it.
* `Prepared.allocationTable` — all other actions leave it alone.
-/

namespace Planfile

open Matcher
open Plan (Allocation AllocationStatement PropertyKind)

/-! ## What is seen of allocations -/

namespace Plan.Property

/-- The allocations that a task holds for a scenario. -/
def allocations (q : Property) (scenario : Nat) : List Allocation :=
  match q.getScenario? scenario "allocate" with
  | some (.allocations known) => known
  | _ => []

/-- A task with its allocations. -/
def taskAllocations (q : Property) : TaskAllocations := ⟨q.heading, q.allocations⟩

theorem allocations_eq {q r : Property} (scenario other : Nat)
    (same : q.stored? (some scenario) "allocate" = r.stored? (some other) "allocate") :
    q.allocations scenario = r.allocations other := by
  have same : q.getScenario? scenario "allocate" = r.getScenario? other "allocate" := same
  rw [allocations, allocations, same]

/-- Allocations that are stored are added to what is held if they go on from there. -/
theorem taskAllocations_store_allocate (q : Property) (scenario : Nat) (added : List Allocation) :
    (q.store (some scenario) "allocate" (.allocations (q.allocations scenario ++ added))).taskAllocations =
      q.taskAllocations.adding fun other => if scenario = other then added else [] := by
  refine TaskAllocations.ext rfl (funext fun other => ?_)
  by_cases same : scenario = other
  · subst same
    have stored := q.stored?_store_self (some scenario) "allocate" (.allocations (q.allocations scenario ++ added))
    have stored : (q.store (some scenario) "allocate" _).getScenario? scenario "allocate" = _ := stored
    show allocations _ scenario = q.allocations scenario ++ if scenario = scenario then added else []
    rw [allocations, stored, if_pos rfl]
  · show allocations _ other = q.allocations other ++ if scenario = other then added else []
    rw [if_neg same, List.append_nil]
    exact allocations_eq _ _ (q.stored?_store_ne _ fun both => same (Option.some.inj both.1).symm)

/-- A value of another name, or one for all scenarios, is none. -/
theorem taskAllocations_store (q : Property) {scenario : Option Nat} {id : String}
    (other : scenario = none ∨ id ≠ "allocate")
    (value : AttributeValue) : (q.store scenario id value).taskAllocations = q.taskAllocations := by
  refine TaskAllocations.ext (by cases scenario <;> rfl)
    (funext fun k => allocations_eq _ _ (q.stored?_store_ne value ?_))
  rintro ⟨rfl, rfl⟩
  rcases other with none | other
  · cases none
  · exact other rfl

end Plan.Property

/-- The number of the scenario that is meant. As long as there is no project it is the first one. -/
def ScenarioState.meant (s : ScenarioState) : Nat := (s.scenarioLists.map fun _ => s.scenarioIndex).getD 0

namespace Context

/-- Which scenarios there are and which one is meant. -/
def choice (c : Context) : ScenarioChoice :=
  ⟨c.scenarioTable.scenarios.map (·.id), c.scenarioTable.replaced, c.scenarioState.meant⟩

/-- The tasks with their allocations, and the resources. -/
def allocationsWith (c : Context) (choice : ScenarioChoice) : AllocationTable where
  choice := choice
  current := c.property
  tasks := (c.entries .task).toList.map (·.taskAllocations)
  resources := (c.entries .resource).toList.map (·.parent)

/-- The table of allocations of a state. -/
def allocationTable (c : Context) : AllocationTable := c.allocationsWith c.choice

variable {c d : Context} {p : Plan.Project} {kind : PropertyKind} {choice : ScenarioChoice}

theorem allocationsWith_of_project (there : c.project = some p) : c.allocationsWith choice =
    ⟨choice, c.property, p.tasks.properties.toList.map (·.taskAllocations),
      p.resources.properties.toList.map (·.parent)⟩ := by
  rw [allocationsWith, entries_of_project there, entries_of_project there]
  rfl

/-- What leaves alone what tasks hold leaves alone the table. -/
theorem allocationsWith_modify (there : c.project = some p) {f : Plan.Property → Plan.Property}
    (kept : ∀ q, (f q).taskAllocations = q.taskAllocations) (i : Nat) :
    ({ c with project := some (p.setProperties kind ((p.properties kind).modify i f)) } :
      Context).allocationsWith choice = c.allocationsWith choice := by
  have parents (q : Plan.Property) : (f q).parent = q.parent :=
    congrArg (fun d => d.heading.parent) (kept q)
  rw [allocationsWith_of_project there, allocationsWith_of_project rfl]
  cases kind with
  | task =>
    refine congrArg (fun tasks => AllocationTable.mk _ _ tasks _) ?_
    show (p.tasks.properties.modify i f).toList.map (·.taskAllocations) = _
    rw [Array.toList_modify, Plan.map_modify_of_eq kept]
  | resource =>
    refine congrArg (AllocationTable.mk _ _ _) ?_
    show (p.resources.properties.modify i f).toList.map (·.parent) = _
    rw [Array.toList_modify, Plan.map_modify_of_eq parents]

end Context

/-! ## What leaves it alone -/

section
variable {v : Values} {choice : ScenarioChoice}

theorem Matcher.keeps_allocationsWith_setScenarioAttribute {id : String} (other : id ≠ "allocate")
    (value : Plan.AttributeValue) : Keeps (·.allocationsWith choice) (setScenarioAttribute id value) := by
  intro env c
  rw [ends_setScenarioAttribute, ends_modifyProperty]
  intro kind i current p there q found
  exact Context.allocationsWith_modify there
    (fun q => q.taskAllocations_store
      (show some c.scenarioIndex = none ∨ id ≠ "allocate" from .inr other) value) i

theorem Matcher.keeps_allocationsWith_set (id : String) (value : Plan.AttributeValue) :
    Keeps (·.allocationsWith choice) (modifyProperty (·.set id value)) := by
  intro env c
  rw [ends_modifyProperty]
  intro kind i current p there q found
  exact Context.allocationsWith_modify there
    (fun q => q.taskAllocations_store
      (show (none : Option Nat) = none ∨ id ≠ "allocate" from .inl rfl) value) i

/-- What is about neither tasks nor resources leaves them alone. -/
theorem Action.keeps_allocationsWith_of_keepsProperties {a : Action} (neutral : a.keepsProperties = true)
    (matchRule : RuleId → Matcher (Option Value)) :
    Keeps (·.allocationsWith choice) (a.perform matchRule v) := by
  intro env c
  refine (a.keeps_propertyState v neutral matchRule env c).weaken fun _ d same => ?_
  have property : d.property = c.property := congrArg PropertyState.property same
  have sets : (d.project.map fun p => (p.tasks, p.resources)) = c.project.map fun p => (p.tasks, p.resources) :=
    congrArg PropertyState.sets same
  -- what is kept are the sets of tasks and resources, and all that is seen of them comes from these
  have tasks (x : Context) : x.entries .task =
      ((x.project.map fun p => (p.tasks, p.resources)).map (·.1.properties)).getD #[] := by
    unfold Context.entries
    cases x.project <;> rfl
  have resources (x : Context) : x.entries .resource =
      ((x.project.map fun p => (p.tasks, p.resources)).map (·.2.properties)).getD #[] := by
    unfold Context.entries
    cases x.project <;> rfl
  show d.allocationsWith choice = c.allocationsWith choice
  rw [Context.allocationsWith, Context.allocationsWith, property, tasks, tasks, resources, resources, sets]

/-- Whether an action neither goes in or out of a body, nor allocates, nor chooses a scenario or declares one, nor
goes on with another file. -/
def Action.sparesAllocationTable : Action → Bool
  | .property (.header _) | .property .close | .property .allocate | .property .leaveScenario => false
  | .property (.ticks id) => id != "allocate"
  | .scenario .header | .scenario .select | .includeFile _ => false
  | _ => true

/-- Attributes of tasks and resources that are no allocations leave these alone. -/
theorem PropertyAction.keeps_allocationsWith {a : PropertyAction}
    (spares : (Action.property a).sparesAllocationTable = true) :
    Keeps (·.allocationsWith choice) (a.perform v) := by
  by_cases readOnly : a.isReadOnly = true
  · exact a.keeps_of_isReadOnly v readOnly
  intro env c
  -- setting any other attribute keeps what is allocated
  have one {id : String} (other : id ≠ "allocate") (value : Plan.AttributeValue) {env : Surroundings}
      {x : Context} (same : x.allocationsWith choice = c.allocationsWith choice) :
      Ends (fun _ d => d.allocationsWith choice = c.allocationsWith choice)
        (setScenarioAttribute id value) env x :=
    (keeps_allocationsWith_setScenarioAttribute other value env x).weaken fun _ _ kept => kept.trans same
  cases a with
  | header _ | close | allocate | leaveScenario => cases spares
  | flags | vacation =>
    simp only [perform, addFlags, addVacations, ends_bind, ends_get, ends_pure]
    exact one (by decide) _ rfl
  | depends =>
    simp only [perform, ends_bind, ends_pure]
    exact one (by decide) _ rfl
  | ticks id =>
    simp only [perform, ends_bind, ends_take, ends_pure]
    exact fun _ _ => one (bne_iff_ne.mp spares) _ rfl
  | start | stop =>
    simp only [perform, ends_bind, ends_take, ends_pure]
    exact fun date _ => (one (by decide) _ rfl).weaken fun _ x same => one (by decide) _ same
  | priority =>
    simp only [perform, ends_bind, ends_take, ends_ite, ends_fail, ends_pure]
    intro priority _
    split
    · trivial
    · exact one (by decide) _ rfl
  | relativeId | resourceId | allocation | alternatives | selectMode => exact absurd rfl readOnly

/-- An attribute that is added to a schema and to the grammar is no value of a task. -/
theorem Matcher.keeps_allocationsWith_applyExtension (e : AttributeExtension) :
    Keeps (·.allocationsWith choice) (applyExtension e) := by
  refine fun env c => ends_applyExtension e fun target p set symbols journal _ there _ defined _ => ?_
  obtain ⟨-, same⟩ := Plan.PropertySet.definitions_of_define? defined
  dsimp only
  rw [Context.allocationsWith_of_project there, Context.allocationsWith_of_project rfl, same]
  cases target.kind <;> rfl

/-- An attribute that a plan has added is no allocation. -/
theorem ExtendAction.keeps_allocationsWith {a : ExtendAction}
    (names : ∀ id kind specific, a = .store id kind specific → id ≠ "allocate") :
    Keeps (·.allocationsWith choice) (a.perform v) := by
  intro env c
  cases a with
  | target => simp [perform, chooseTarget, Context.allocationsWith, Context.entries]
  | close => simp [perform, Context.allocationsWith, Context.entries]
  | declare kind =>
    simp only [perform, Matcher.declareAttribute, ends_bind, ends_take, ends_pure]
    exact fun id _ name _ => keeps_allocationsWith_applyExtension _ env c
  | id => simp [perform, extensionId]
  | store id kind specific =>
    simp only [perform, ends_bind, ends_take, ends_ite, ends_pure]
    intro value _
    split
    · exact keeps_allocationsWith_setScenarioAttribute (names id kind specific rfl) _ env c
    · exact keeps_allocationsWith_set _ _ env c

/-- Working hours are no allocations. -/
theorem Matcher.keeps_allocationsWith_workingHours :
    Keeps (·.allocationsWith choice) (Matcher.workingHours v) := by
  intro env c
  rw [ends_workingHours]
  intro days _
  refine .setWorkingHours (fun _ p there => ?_) fun hours => keeps_allocationsWith_set _ _ env c
  show Context.allocationsWith _ choice = c.allocationsWith choice
  rw [Context.allocationsWith_of_project there, Context.allocationsWith_of_project rfl]
  rfl

end

/-! ## Which scenario is meant -/

namespace ScenarioTable

variable {t u : ScenarioTable}

/-- Whether no scenario is being declared as long as there is that of the start. -/
def Unreplaced (t : ScenarioTable) : Prop := t.replaced = false → t.current = none

/-- A note keeps it so. -/
theorem Unreplaced.step (h : t.Unreplaced) {note : Note (String × String) Bool}
    (run : t.step note = some u) : u.Unreplaced := by
  intro unreplaced
  cases note with
  | opens head =>
    obtain ⟨id, name⟩ := head
    simp only [ScenarioTable.step, Option.ite_none_left_eq_some, Option.some.injEq] at run
    obtain ⟨-, rfl⟩ := run
    cases unreplaced
  | tells enabled =>
    simp only [ScenarioTable.step] at run
    split at run
    · split at run
      · cases run
        exact h unreplaced
      · cases run
    · cases run
  | closes =>
    cases run
    show ((t.current.bind _).bind _) = none
    rw [h unreplaced]
    rfl

/-- Notes that declare no scenario leave alone which ones there are. -/
theorem ids_of_step {note : Note (String × String) Bool} (other : ∀ head, note ≠ .opens head)
    (run : t.step note = some u) :
    u.scenarios.map (·.id) = t.scenarios.map (·.id) ∧ u.replaced = t.replaced := by
  cases note with
  | opens head => exact absurd rfl (other head)
  | tells enabled =>
    simp only [ScenarioTable.step] at run
    split at run
    · split at run
      · cases run
        exact ⟨Plan.map_modify_of_eq (f := fun s : Plan.Scenario => { s with enabled }) (fun _ => rfl) _ _, rfl⟩
      · cases run
    · cases run
  | closes =>
    cases run
    exact ⟨rfl, rfl⟩

/-- A declared scenario comes behind those that are there, or takes the place of that of the start. -/
theorem ids_of_opens (h : t.Unreplaced) {id name : String} (run : t.step (.opens (id, name)) = some u) :
    u.scenarios.map (·.id) = (if t.replaced then t.scenarios.map (·.id) else []) ++ [id] ∧ u.replaced = true := by
  simp only [ScenarioTable.step, Option.ite_none_left_eq_some, Option.some.injEq] at run
  obtain ⟨-, rfl⟩ := run
  refine ⟨?_, rfl⟩
  cases replaced : t.replaced with
  | false => simp [kept, replaced, h replaced, Plan.Scenario.declared]
  | true => simp [kept, replaced, Plan.Scenario.declared]

end ScenarioTable

section
variable {v : Values} {env : Surroundings} {c d : Context} {o : Option Value} {ofRule : RuleId → Shape}
  {effects : Effects} {p : Pattern} {a : Action} {matchRule : RuleId → Matcher (Option Value)}

/-- As long as there is the scenario of the start none is being declared, whatever is done. -/
theorem Prepared.unreplaced (prepared : Prepared env.grammar ofRule effects p v c) (action : p.action = some a)
    (h : c.scenarioTable.Unreplaced) (run : a.perform matchRule v env c = (.ok o, d)) :
    d.scenarioTable.Unreplaced := by
  cases allowed : (ScenarioTable.concern env.grammar).allows a with
  | true =>
    have told := prepared.table action allowed run
    cases coda : (ScenarioTable.concern env.grammar).coda a with
    | none =>
      rw [coda] at told
      exact Option.some.inj told ▸ h
    | some note =>
      rw [coda, Option.toList_some, List.foldlM_cons] at told
      obtain ⟨t, first, last⟩ := Option.bind_eq_some_iff.mp told
      cases last
      exact h.step first
  | false =>
    -- a header declares one, and files have nothing to do with it
    unfold ScenarioTable.concern at allowed
    dsimp only at allowed
    split at allowed
    · obtain ⟨_, _, -, -, -, opened⟩ := ScenarioAction.table_header run
      exact h.step opened
    · obtain ⟨-, _, _, _, -, rfl, -⟩ := Action.eq_of_run_includeFile v run
      exact h
    · cases allowed

/-- Apart from choosing a scenario, going into bodies and leaving a scenario it stays as it is which one is
meant. -/
theorem Prepared.meant (prepared : Prepared env.grammar ofRule effects p v c) (action : p.action = some a)
    (spares : a.sparesAllocationTable = true) (run : a.perform matchRule v env c = (.ok o, d)) :
    d.scenarioState.meant = c.scenarioState.meant := by
  cases sets : a.setsScenarioState with
  | false => exact congrArg ScenarioState.meant (Action.scenarioState_of_run v sets run)
  | true =>
    -- some actions set what is said about scenarios, but none of these which one is meant
    have ends :
        Ends (fun _ d => d.scenarioState.meant = c.scenarioState.meant) (a.perform matchRule v) env c := by
      cases a with
      | project a =>
        cases a with
        | header =>
          have unstarted := (prepared.allows _ action).unstarted
          simp [Action.perform, ProjectAction.perform, ScenarioState.meant, Context.scenarioState, unstarted]
        | _ => cases sets
      | scenario a =>
        cases a with
        | header | select => cases spares
        | close =>
          simp [Action.perform, ScenarioAction.perform, closeScenario, ScenarioState.meant,
            Context.scenarioState]
        | enable enabled =>
          simp +contextual [Action.perform, ScenarioAction.perform, enableScenario, ScenarioState.meant,
            Context.scenarioState]
        | index => cases sets
      | property a =>
        cases a with
        | header _ | leaveScenario => cases spares
        | _ => cases sets
      | report a =>
        cases a with
        | header | close | scenarios | column | columnId | columnTitle =>
          simp +contextual [Action.perform, ReportAction.perform, openReport, openColumn, closeColumn,
            Matcher.setTitle, ReportAction.change, enabledScenarios, ScenarioState.meant,
            Context.scenarioState]
        | _ => cases sets
      | rule name => exact (prepared.allows _ action).not_rule.elim
      | _ => cases sets
    exact ends.of_ok run

/-- All actions but these leave it alone which scenarios there are and which one is meant. -/
theorem Prepared.choice (prepared : Prepared env.grammar ofRule effects p v c) (action : p.action = some a)
    (spares : a.sparesAllocationTable = true) (run : a.perform matchRule v env c = (.ok o, d)) :
    d.choice = c.choice := by
  have allowed : (ScenarioTable.concern env.grammar).allows a = true := by
    unfold ScenarioTable.concern
    dsimp only
    split
    · cases spares
    · cases spares
    · rfl
  have ids : d.scenarioTable.scenarios.map (·.id) = c.scenarioTable.scenarios.map (·.id) ∧
      d.scenarioTable.replaced = c.scenarioTable.replaced := by
    have told := prepared.table action allowed run
    cases coda : (ScenarioTable.concern env.grammar).coda a with
    | none =>
      rw [coda] at told
      have same : c.scenarioTable = d.scenarioTable := Option.some.inj told
      rw [same]
      exact ⟨rfl, rfl⟩
    | some note =>
      rw [coda, Option.toList_some, List.foldlM_cons] at told
      obtain ⟨t, first, last⟩ := Option.bind_eq_some_iff.mp told
      cases last
      refine ScenarioTable.ids_of_step (fun head same => ?_) first
      -- of actions at the end of an alternative none declares a scenario
      subst same
      unfold ScenarioTable.concern at coda
      dsimp only at coda
      split at coda <;> cases coda
  exact ScenarioChoice.ext ids.1 ids.2 (prepared.meant action spares run)

/-! ## What changes it -/

omit ofRule effects p a matchRule in
/-- Where there is a project, the scenario that is meant is the register of the state. -/
theorem Context.meant_of_project {q : Plan.Project} (there : c.project = some q) :
    c.scenarioState.meant = c.scenarioIndex := by
  simp [ScenarioState.meant, Context.scenarioState, there]

omit ofRule effects p a matchRule in
/-- So are the scenarios that can be chosen those of the project. -/
theorem Context.choice_of_project {q : Plan.Project} (there : c.project = some q) :
    c.choice = ⟨q.scenarios.map (·.id), c.scenariosReplaced, c.scenarioIndex⟩ := by
  rw [choice, scenarioTable_of_project there, meant_of_project there]

/-- A task that is added is entered. It starts with what the one above holds. -/
theorem Plan.Project.taskAllocations_add? {q : Project} {current : Option (PropertyKind × Nat)}
    {choice : ScenarioChoice} {resources : List (Option Nat)} (conforms : q.Conforms)
    (own : q.tasks.kind = .task)
    (inside : ∀ i ∈ current.map (·.2), i < q.tasks.length) {id name : String} {grown : PropertySet}
    (added : q.tasks.add? id name (current.map (·.2)) = .ok grown) :
    (grown.inheritAttributes q.tasks.length).properties.toList.map (·.taskAllocations) =
      q.tasks.properties.toList.map (·.taskAllocations) ++
        [AllocationTable.newTask ⟨choice, current, q.tasks.properties.toList.map (·.taskAllocations),
          resources⟩ id name] := by
  obtain ⟨r, heading, inherited, listed⟩ := PropertySet.exists_entry_of_add? inside added
  have inherits : inheritable q.tasks.definitions "allocate" = true :=
    List.any_eq_true.mpr ⟨_, conforms.builtin .task (List.mem_of_getElem? (i := 0) rfl), rfl⟩
  rw [listed (·.taskAllocations) fun _ _ => rfl]
  refine congrArg (fun d => _ ++ [d]) ?_
  -- the task above is the current one
  have above : (current.bind fun above => (q.tasks.properties.toList.map (·.taskAllocations))[above.2]?) =
      ((current.map (·.2)).bind q.tasks.get?).map (·.taskAllocations) := by
    cases current with
    | none => rfl
    | some above =>
      rw [Option.map_some, Option.bind_some, Option.bind_some, List.getElem?_map, Array.getElem?_toList]
      rfl
  rw [AllocationTable.newTask, above]
  refine TaskAllocations.ext ?_ (funext fun scenario => ?_)
  · refine heading.trans (congrArg (fun full => Heading.mk full name _) ?_)
    rw [PropertySet.fullId, own, Option.map_map]
    cases (current.map (·.2)).bind q.tasks.get? <;> rfl
  · have found := inherited (some scenario) "allocate"
    cases there : (current.map (·.2)).bind q.tasks.get? with
    | none =>
      rw [there, Option.bind_none] at found
      have found : r.getScenario? scenario "allocate" = none := found
      show r.allocations scenario = _
      rw [Property.allocations, found]
      rfl
    | some parent =>
      rw [there, Option.bind_some, if_pos inherits] at found
      exact Property.allocations_eq scenario scenario found

/-- A header adds a task or a resource below the current one, and what follows is meant for the first scenario. -/
theorem PropertyAction.allocationTable_header {kind : PropertyKind} (placed : c.entryLists.Placed)
    (place : c.entryLists.property.all (·.1 = kind) = true) (conforms : ∀ p, c.project = some p → p.Conforms)
    (run : (header kind).perform v env c = (.ok o, d)) :
    ∃ id name, v.string 1 = .ok id ∧ v.string 2 = .ok name ∧ d.extensions = c.extensions ∧
      d.tokens = c.tokens ∧ c.allocationTable.step (.opens ⟨kind, id, name⟩) = some d.allocationTable := by
  obtain ⟨id, name, q, grown, first, second, there, own, inside, added, rfl⟩ := exists_of_header placed place run
  refine ⟨id, name, first, second, rfl, rfl, ?_⟩
  have here : c.allocationTable.current.all (·.1 = kind) = true := place
  rw [AllocationTable.step, if_pos here]
  refine congrArg some ?_
  have table : (Context.scenarioTable { c with
      project := some (q.setProperties kind (grown.inheritAttributes (q.properties kind).length))
      property := some (kind, (q.properties kind).length), scenarioIndex := 0 }) = c.scenarioTable := by
    rw [Context.scenarioTable_of_project there, Context.scenarioTable_of_project rfl]
    cases kind <;> rfl
  -- what comes first in a body is meant for the first scenario
  have choice : (Context.choice { c with
      project := some (q.setProperties kind (grown.inheritAttributes (q.properties kind).length))
      property := some (kind, (q.properties kind).length), scenarioIndex := 0 }) = c.choice.first := by
    rw [Context.choice, table]
    rfl
  rw [Context.allocationTable, Context.allocationTable, choice, Context.allocationsWith_of_project there,
    Context.allocationsWith_of_project rfl]
  cases kind with
  | task =>
    refine AllocationTable.ext rfl ?_
      (Plan.Project.taskAllocations_add? (conforms q there) own inside added).symm rfl
    exact congrArg (fun i => some (PropertyKind.task, i)) (List.length_map _)
  | resource =>
    refine AllocationTable.ext rfl ?_ rfl (Plan.PropertySet.parents_of_add? added _).symm
    exact congrArg (fun i => some (PropertyKind.resource, i)) (List.length_map _)

/-- In a body the current task or resource is the entry with its number. -/
theorem Context.currentProperty?_of_inside {kind : PropertyKind} {i : Nat} (inside : c.property = some (kind, i)) :
    c.currentProperty? = (c.entries kind)[i]? := by
  unfold Context.currentProperty? Context.entries
  rw [inside]
  cases c.project <;> rfl

/-- The end of a body goes back to the task or resource around. -/
theorem PropertyAction.allocationTable_close (run : close.perform v env c = (.ok o, d)) :
    c.allocationTable.step .closes = some d.allocationTable := by
  cases run
  have around : (c.property.bind fun current => c.currentProperty?.bind fun q => q.parent.bind fun i =>
      some (current.1, i)) = c.allocationTable.around := by
    rcases inside : c.property with _ | ⟨kind, i⟩
    · simp [Context.allocationTable, Context.allocationsWith, AllocationTable.around, inside]
    · rw [Option.bind_some, Context.currentProperty?_of_inside inside]
      cases kind
      all_goals
        simp only [Context.allocationTable, Context.allocationsWith, AllocationTable.around, inside,
          List.getElem?_map,
          Array.getElem?_toList, Option.bind_map, Option.map_bind]
        refine congrArg (Option.bind _) (funext fun q => ?_)
        show _ = Option.map _ q.parent
        cases q.parent <;> rfl
  rw [AllocationTable.step, ← around]
  rfl

/-- What comes next is meant for the first scenario again. -/
theorem PropertyAction.allocationTable_leaveScenario (run : leaveScenario.perform v env c = (.ok o, d)) :
    c.allocationTable.step (.tells .leaves) = some d.allocationTable := by
  cases run
  have choice : ({ c with scenarioIndex := 0 } : Context).choice = c.choice.first := by
    refine ScenarioChoice.ext rfl rfl ?_
    show (Option.map _ _).getD 0 = 0
    cases ScenarioState.scenarioLists _ <;> rfl
  show _ = some (Context.allocationsWith { c with scenarioIndex := 0 } (Context.choice _))
  rw [choice]
  rfl

/-- A scenario is chosen by its id. -/
theorem ScenarioAction.allocationTable_select (run : select.perform v env c = (.ok o, d)) :
    ∃ id, v.string 0 = .ok id ∧ d.extensions = c.extensions ∧ d.tokens = c.tokens ∧
      c.allocationTable.step (.tells (.chooses id)) = some d.allocationTable := by
  have ends : Ends (fun _ d => ∃ id q i, v.string 0 = .ok id ∧ c.project = some q ∧
      q.scenarioIndex? id = some i ∧ d = { c with scenarioIndex := i }) (select.perform v) env c := by
    simp only [perform, scenarioIndex, ends_bind, ends_take, ends_project, ends_orFail, ends_modify, ends_pure]
    exact fun id named q there i found => ⟨id, q, i, named, there, found, rfl⟩
  obtain ⟨id, q, i, named, there, found, rfl⟩ := ends.of_ok run
  -- the number that has been found is that of the first scenario with the id
  have number : (q.scenarios.map (·.id)).idxOf id = i := by
    rw [List.idxOf, List.findIdx_map]
    exact (List.findIdx?_eq_some_iff_findIdx_eq.mp found).2
  have choice : ({ c with scenarioIndex := i } : Context).choice = c.choice.next (.chooses id) := by
    rw [Context.choice_of_project there, Context.choice_of_project (c := { c with scenarioIndex := i }) there]
    exact ScenarioChoice.ext rfl rfl number.symm
  refine ⟨id, named, rfl, rfl, ?_⟩
  show _ = some (Context.allocationsWith { c with scenarioIndex := i } (Context.choice _))
  rw [choice]
  rfl

/-- The header of a scenario adds it to those that can be chosen. -/
theorem ScenarioAction.allocationTable_header (unreplaced : c.scenarioTable.Unreplaced)
    (run : header.perform v env c = (.ok o, d)) :
    ∃ id name, v.string 1 = .ok id ∧ v.string 2 = .ok name ∧ d.extensions = c.extensions ∧
      c.allocationTable.step (.tells (.declares id)) = some d.allocationTable := by
  obtain ⟨id, name, first, second, extensions, opened⟩ := table_header run
  obtain ⟨ids, replaced⟩ := ScenarioTable.ids_of_opens unreplaced opened
  have meant : Ends (fun _ d => d.scenarioState.meant = c.scenarioState.meant) (header.perform v) env c := by
    simp +contextual [perform, ScenarioState.meant, Context.scenarioState]
  have choice : d.choice = c.choice.next (.declares id) := ScenarioChoice.ext ids replaced (meant.of_ok run)
  have kept :
      d.allocationsWith (c.choice.next (.declares id)) = c.allocationsWith (c.choice.next (.declares id)) :=
    (Action.keeps_allocationsWith_of_keepsProperties (a := .scenario .header) (v := v) rfl
      (fun _ => pure none) env c).of_ok run
  refine ⟨id, name, first, second, extensions, ?_⟩
  rw [Context.allocationTable, Context.allocationTable, choice, kept]
  rfl

/-! ## Allocations -/

/-- Allocations are added to those of the current task, for the scenario that is meant, and nothing else is
done. -/
theorem Matcher.run_addAllocations {q : Plan.Project} {kind : PropertyKind} {i : Nat} {r : Plan.Property}
    (there : c.project = some q) (current : c.property = some (kind, i))
    (entry : (q.properties kind).get? i = some r) (added : List Allocation) :
    addAllocations added env c = (.ok (), c.storing q kind i (some c.scenarioIndex) "allocate"
      (.allocations (r.allocations c.scenarioIndex ++ added))) := by
  have found : c.scenarioAttribute? "allocate" = r.getScenario? c.scenarioIndex "allocate" := by
    simp [Context.scenarioAttribute?, Context.currentProperty?, current, there, entry]
  simp only [addAllocations, run_bind, run_get, found, setScenarioAttribute, modifyProperty, current, there, entry,
    orFail, run_pure, run_modify]
  rw [Context.storing, current]
  rfl

/-- They are added where there is a current task or resource. -/
theorem Matcher.exists_of_run_addAllocations {added : List Allocation} {u : Unit}
    (run : addAllocations added env c = (.ok u, d)) : ∃ q kind i r, c.project = some q ∧
      c.property = some (kind, i) ∧ (q.properties kind).get? i = some r := by
  have ends : Ends (fun _ _ => ∃ q kind i r, c.project = some q ∧ c.property = some (kind, i) ∧
      (q.properties kind).get? i = some r) (addAllocations added) env c := by
    simp only [addAllocations, ends_bind, ends_get, ends_setScenarioAttribute, ends_modifyProperty]
    exact fun kind i current q there r entry => ⟨q, kind, i, r, there, current, entry⟩
  exact ends.of_ok run

/-- Only tasks have allocations. -/
theorem Context.Allows.kind_of_allocate (allowed : c.Allows (.property .allocate)) {kind : PropertyKind} {i : Nat}
    (current : c.property = some (kind, i)) : kind = .task := by
  rcases allowed with closing | ⟨e, effect, -⟩ | ⟨id, valueKind, specific, storing⟩
  · cases closing
  · rw [Action.effect?, Context.place, current] at effect
    cases kind with
    | task => rfl
    | resource => cases effect
  · cases storing

/-- In the table a statement about allocations is what it says. -/
theorem Context.allocationTable_of_addAllocations {statements : List AllocationStatement} {u : Unit}
    (allowed : c.Allows (.property .allocate))
    (run : addAllocations (statements.map (·.allocation)) env c = (.ok u, d)) :
    d.extensions = c.extensions ∧ d.tokens = c.tokens ∧
      c.allocationTable.step (.tells (.allocates statements)) = some d.allocationTable := by
  obtain ⟨q, kind, i, r, there, current, entry⟩ := exists_of_run_addAllocations run
  obtain rfl := allowed.kind_of_allocate current
  cases (run_addAllocations there current entry _).symm.trans run
  refine ⟨rfl, rfl, ?_⟩
  let allocations : List Allocation := statements.map (·.allocation)
  let f (r' : Plan.Property) := r'.store (some c.scenarioIndex) "allocate"
    (.allocations (r.allocations c.scenarioIndex ++ allocations))
  have entry : q.tasks.properties.toList[i]? = some r := by
    rw [Array.getElem?_toList]
    exact entry
  have listed : c.allocationTable.tasks[i]? = some r.taskAllocations := by
    rw [allocationTable, allocationsWith_of_project there, List.getElem?_map, entry]
    rfl
  have tasks : (q.tasks.properties.toList.modify i f).map (·.taskAllocations) =
      c.allocationTable.tasks.modify i (.adding ((AllocationNote.allocates statements).adds c.choice)) := by
    have allocated : (f r).taskAllocations =
        r.taskAllocations.adding ((AllocationNote.allocates statements).adds c.choice) := by
      refine (r.taskAllocations_store_allocate c.scenarioIndex allocations).trans ?_
      rw [choice_of_project there]
      rfl
    rw [List.modify_eq_set_getElem?, List.modify_eq_set_getElem?, listed, entry]
    show List.map _ (List.set _ i (f r)) = List.set _ i (r.taskAllocations.adding _)
    rw [List.map_set, allocated, allocationTable, allocationsWith_of_project there]
  have choice : (c.storing q .task i (some c.scenarioIndex) "allocate"
      (.allocations (r.allocations c.scenarioIndex ++ allocations))).choice = c.choice := by
    rw [choice_of_project there, choice_of_project rfl]
    rfl
  -- allocations are said in the body of a task only, so one is current in the table
  have here : c.allocationTable =
      ⟨c.choice, some (.task, i), c.allocationTable.tasks, c.allocationTable.resources⟩ := by
    rw [← current]
    rfl
  rw [here, AllocationTable.step_tells listed (.allocates statements), ← tasks, ← Array.toList_modify]
  refine congrArg some (AllocationTable.ext choice.symm current.symm rfl ?_)
  show c.allocationTable.resources = q.resources.properties.toList.map (·.parent)
  rw [allocationTable, allocationsWith_of_project there]

/-! ## Statements one behind the other -/

/-- What statements about allocations do, one behind the other. -/
def Matcher.allocateAll (ss : List (List AllocationStatement)) : Matcher Unit :=
  ss.forM fun statements => addAllocations (statements.map (·.allocation))

/-- Of two values for one name in one scenario the last one counts. -/
theorem Plan.Property.setAt_setAt (index : Nat) (id : String) (first value : AttributeValue)
    (tables : List AttributeTable) :
    setAt index id value (setAt index id first tables) = setAt index id value tables := by
  induction tables generalizing index with
  | nil =>
    -- behind empty tables there is one with the first value
    induction index with
    | zero => simp [setAt, AttributeTable.set_set]
    | succ index ih =>
      have behind (value : AttributeValue) : setAt (index + 1) id value [] = [] :: setAt index id value [] := by
        simp [setAt, List.replicate_succ]
      rw [behind, behind]
      exact congrArg ([] :: ·) ih
  | cons table tables ih =>
    cases index with
    | zero => simp [setAt, AttributeTable.set_set]
    | succ index => exact congrArg (table :: ·) (ih index)

omit ofRule effects p a matchRule in
/-- So it is with the state. -/
theorem Context.storing_storing (q : Plan.Project) (kind : PropertyKind) (i scenario : Nat) (id : String)
    (first value : Plan.AttributeValue) :
    let set := q.setProperties kind ((q.properties kind).modify i (·.store (some scenario) id first))
    (c.storing q kind i (some scenario) id first).storing set kind i (some scenario) id value =
      c.storing q kind i (some scenario) id value := by
  intro set
  have entries : ((q.properties kind).properties.modify i (·.store (some scenario) id first)).modify i
      (·.store (some scenario) id value) =
        (q.properties kind).properties.modify i (·.store (some scenario) id value) := by
    rw [← Array.toList_inj, Array.toList_modify, Array.toList_modify, Array.toList_modify, List.modify_modify_eq]
    refine congrArg (List.modify _ i) (funext fun r => ?_)
    exact congrArg (fun tables => { r with scenarioAttributes := tables })
      (Plan.Property.setAt_setAt scenario id first value r.scenarioAttributes)
  cases kind with
  | task =>
    exact congrArg (fun properties => { c with
      project := some { q with tasks := { q.tasks with properties } } }) entries
  | resource =>
    exact congrArg (fun properties => { c with
      project := some { q with resources := { q.resources with properties } } }) entries

/-- Statements never fail where there is a current task, and none of them takes anything from what has been held
before. -/
theorem Matcher.run_allocateAll {q : Plan.Project} {kind : PropertyKind} {i : Nat} {r : Plan.Property}
    (there : c.project = some q) (current : c.property = some (kind, i))
    (entry : (q.properties kind).get? i = some r) (statements : List AllocationStatement)
    (ss : List (List AllocationStatement)) :
    allocateAll (statements :: ss) env c = (.ok (), c.storing q kind i (some c.scenarioIndex) "allocate"
      (.allocations (r.allocations c.scenarioIndex ++ (statements :: ss).flatten.map (·.allocation)))) := by
  -- by induction on the statements behind the first one, which has stored something by then
  induction ss generalizing c q r statements with
  | nil =>
    show (addAllocations (statements.map (·.allocation)) >>= fun _ => pure ()) env c = _
    rw [run_bind, run_addAllocations there current entry, List.flatten_singleton]
    rfl
  | cons others ss ih =>
    let held := r.allocations c.scenarioIndex ++ statements.map (·.allocation)
    let stored := r.store (some c.scenarioIndex) "allocate" (.allocations held)
    have own : stored.allocations c.scenarioIndex = held := by
      have found : stored.getScenario? c.scenarioIndex "allocate" = _ :=
        r.stored?_store_self (some c.scenarioIndex) "allocate" (.allocations held)
      rw [Plan.Property.allocations, found]
    let set := q.setProperties kind ((q.properties kind).modify i
      (·.store (some c.scenarioIndex) "allocate" (.allocations held)))
    have found : (set.properties kind).get? i = some stored := by
      rw [Plan.Project.properties_setProperties, if_pos rfl, Plan.PropertySet.get?_modify, if_pos rfl, entry]
      rfl
    show (addAllocations (statements.map (·.allocation)) >>= fun _ => allocateAll (others :: ss)) env c = _
    rw [run_bind, run_addAllocations there current entry]
    refine (ih (c := c.storing q kind i _ "allocate" (.allocations held)) rfl current found others).trans ?_
    show (_, Context.storing (c.storing q kind i (some c.scenarioIndex) "allocate" _) set kind i
      (some c.scenarioIndex) "allocate" (.allocations (stored.allocations c.scenarioIndex ++ _))) = _
    rw [Context.storing_storing, own, List.append_assoc, ← List.map_append, ← List.flatten_cons]

/-! ## All other actions -/

/-- All actions but these leave the table alone. -/
theorem Prepared.allocationTable (prepared : Prepared env.grammar ofRule effects p v c)
    (action : p.action = some a)
    (names : p.NamesCapital) (placed : c.entryLists.Placed) (spares : a.sparesAllocationTable = true)
    (run : a.perform matchRule v env c = (.ok o, d)) : d.allocationTable = c.allocationTable := by
  have allocationsWith : d.allocationsWith c.choice = c.allocationsWith c.choice := by
    by_cases neutral : a.keepsProperties = true
    · exact (Action.keeps_allocationsWith_of_keepsProperties neutral matchRule env c).of_ok run
    cases a with
    | rule name => exact (prepared.allows _ action).not_rule.elim
    | includeFile i => cases spares
    | project a =>
      cases a with
      | header =>
        -- where a project is started there are neither tasks nor resources
        have unstarted := (prepared.allows _ action).unstarted
        have ends : Ends (fun _ d => d.allocationsWith c.choice = c.allocationsWith c.choice)
            ((Action.project .header).perform matchRule v) env c := by
          simp only [Action.perform, ProjectAction.perform, ends_bind, ends_take, ends_modify, ends_pure]
          intro id _ name _ version _ time _
          rw [Context.allocationsWith_of_project rfl, Context.allocationsWith, Context.entries,
            Context.entries, unstarted,
            Context.property_of_none placed unstarted]
          rfl
        exact ends.of_ok run
      | _ => exact absurd rfl neutral
    | property a => exact (PropertyAction.keeps_allocationsWith spares env c).of_ok run
    | extend a =>
      refine (ExtendAction.keeps_allocationsWith (fun id kind specific same => ?_) env c).of_ok run
      rintro rfl
      -- names of added attributes start with a capital letter
      exact absurd (names "allocate" kind specific (same ▸ action)) (by decide)
    | calendar a =>
      cases a with
      | workingHours =>
        obtain ⟨_, x, acted, last⟩ := exists_of_run_bind run
        cases last
        exact (keeps_allocationsWith_workingHours env c).of_ok acted
      | _ => exact absurd rfl neutral
    | _ => exact absurd rfl neutral
  rw [Context.allocationTable, prepared.choice action spares run, allocationsWith]
  rfl

end

end Planfile
