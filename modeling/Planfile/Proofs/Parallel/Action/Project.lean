import Planfile.Meaning
import Planfile.Proofs.Parallel.Run

/-!
# Planfile — statements about a project in parallel

What a plan says about its project, its scenarios and its tasks and resources depends on nothing but what
has been built and the values of the statement. So two runs do the same at such a statement: they build the
same, or they refuse it for the same fault.

Main results:

* `ProjectAction.parallel_perform`, `ScenarioAction.parallel_perform`, `PropertyAction.parallel_perform` —
  these statements are performed in parallel.
-/

namespace Planfile

open Plan (Project)
open Matcher

variable {L : RunRelation} {v w : Values}

namespace RunRelation

/-! ## Statements about the project -/

theorem parallel_realFormat (hv : v.Same L.view w) :
    L.Parallel Eq (realFormat v) (realFormat w) := by
  refine (parallel_taken (hv.string 5)).andThen fun _ => (steady_orFail _ _).andThen fun _ => ?_
  refine (parallel_taken (hv.string 1)).andThen fun _ => ?_
  refine (parallel_taken (hv.string 2)).andThen fun _ => ?_
  refine (parallel_taken (hv.string 3)).andThen fun _ => ?_
  exact (parallel_taken (hv.string 4)).andThen fun _ => parallel_pure rfl

end RunRelation

open RunRelation

theorem ProjectAction.parallel_perform (hv : v.Same L.view w) (a : ProjectAction) :
    L.Parallel Eq (a.perform v) (a.perform w) := by
  cases a with
  | header =>
    refine (parallel_taken (hv.string 1)).andThen fun id => ?_
    refine (parallel_taken (hv.string 2)).andThen fun name => ?_
    refine (parallel_taken (hv.string 3)).andThen fun version => ?_
    refine (parallel_taken (hv.interval 4)).andThen fun time => ?_
    -- the header makes a project of its own, whatever there was before
    exact steady_change (fun _ => rfl) fun _ => rfl
  | copyright | currency | timeFormat | shortTimeFormat =>
    exact (parallel_taken (hv.string 1)).andThen fun _ => steady_modifySettings _
  | timezone => exact (parallel_taken (hv.string 0)).andThen fun _ => steady_modifySettings _
  | currencyFormat | numberFormat =>
    exact (parallel_realFormat hv).andThen fun _ => steady_modifySettings _
  | dailyWorkingHours | yearlyWorkingDays =>
    exact (parallel_taken (hv.number 1)).andThen fun _ => steady_modifySettings _
  | now => exact (parallel_taken (hv.date 1)).andThen fun _ => steady_modifySettings _
  | timingResolution =>
    refine (parallel_taken (hv.int 1)).andThen fun seconds => ?_
    split
    · exact parallel_fail _
    · split
      · exact parallel_fail _
      · exact steady_modifySettings _
  | weekStartsMonday monday => exact steady_modifySettings _
  | declareFlags =>
    simp only [ProjectAction.perform, hv.strings]
    exact steady_modifySettings _
  | vacation =>
    simp only [ProjectAction.perform, hv.intervals]
    exact steady_modifySettings _

/-! ## Scenarios -/

namespace RunRelation

theorem steady_scenarioIndex (id : String) : L.Steady (Matcher.scenarioIndex id) := by
  refine parallel_project.bind fun p q same => ?_
  have index : q.scenarioIndex? id = p.scenarioIndex? id := (congrArg (·.scenarioIndex? id) same :)
  rw [index]
  exact steady_orFail _ _

theorem parallel_openScenario (hv : v.Same L.view w) :
    L.Parallel Eq (openScenario v) (openScenario w) := by
  refine parallel_get fun c d alike => parallel_project.bind fun p q same => ?_
  rw [alike.scenario, alike.scenariosReplaced]
  -- the first scenario that is declared takes the place of the one that is there from the start
  have cleared : L.SameProject
      (if c.scenario.isNone && !c.scenariosReplaced then p.clearScenarios else p)
      (if c.scenario.isNone && !c.scenariosReplaced then q.clearScenarios else q) := by
    split
    · exact (congrArg Project.clearScenarios same :)
    · exact same
  dsimp only
  generalize (if c.scenario.isNone && !c.scenariosReplaced then p.clearScenarios else p) = p'
    at cleared ⊢
  generalize (if c.scenario.isNone && !c.scenariosReplaced then q.clearScenarios else q) = q'
    at cleared ⊢
  refine (parallel_setProject cleared).andThen fun _ => ?_
  refine (parallel_taken (hv.string 1)).andThen fun id => ?_
  refine (parallel_taken (hv.string 2)).andThen fun name => ?_
  -- both projects take the scenario, or both have one with its id
  have scenarios : q'.scenarios = p'.scenarios := (congrArg Project.scenarios cleared :)
  have added := congrArg (·.addScenario (.declared id name c.scenario)) cleared
  simp only [Project.through_addScenario] at added
  cases hp : p'.addScenario (.declared id name c.scenario) with
  | error e =>
    cases hq : q'.addScenario (.declared id name c.scenario) with
    | error e' =>
      rw [hp, hq] at added
      cases added
      exact parallel_fail _
    | ok grown' =>
      rw [hp, hq] at added
      cases added
  | ok grown =>
    cases hq : q'.addScenario (.declared id name c.scenario) with
    | error e' =>
      rw [hp, hq] at added
      cases added
    | ok grown' =>
      rw [hp, hq] at added
      have grownSame : L.SameProject grown grown' := Except.ok.inj added
      rw [scenarios]
      refine parallel_modify fun c d alike => ?_
      have built := (alike.withProject grownSame).built
      exact ⟨alike.reading, alike.allowed, (congrArg (fun c : Context =>
        { c with scenariosReplaced := true, scenario := some p'.scenarios.length }) built :)⟩

theorem steady_closeScenario : L.Steady closeScenario := by
  refine parallel_modify fun c d alike => ⟨alike.reading, alike.allowed, ?_⟩
  -- the scenario around the current one is looked up in the project
  have current : (do (← d.project).scenario? (← d.scenario)) =
      (do (← c.project).scenario? (← c.scenario)) := by
    rw [alike.scenario]
    refine alike.bind_project fun p q same => ?_
    exact (congrArg (fun p : Project => c.scenario.bind p.scenario?) same :)
  dsimp only
  rw [current]
  generalize (do (← c.project).scenario? (← c.scenario)) = there
  exact (congrArg (fun c : Context => { c with scenario := there.bind (·.parent) }) alike.built :)

theorem steady_enableScenario (enabled : Bool) : L.Steady (enableScenario enabled) := by
  refine parallel_get fun c d alike => ?_
  rw [alike.scenario]
  refine (steady_orFail _ _).andThen fun index => ?_
  refine (parallel_orFail _ alike.project).bind fun p q same => ?_
  have scenario : q.scenario? index = p.scenario? index := (congrArg (·.scenario? index) same :)
  rw [scenario]
  refine (steady_orFail _ _).andThen fun _ => parallel_setProject ?_
  exact (congrArg (fun p : Project =>
    { p with scenarios := p.scenarios.modify index ({ · with enabled }) }) same :)

end RunRelation

theorem ScenarioAction.parallel_perform (hv : v.Same L.view w) (a : ScenarioAction) :
    L.Parallel (Value.Same L.view) (a.perform v) (a.perform w) := by
  cases a with
  | header => exact (parallel_openScenario hv).andThen fun _ => parallel_pure rfl
  | close => exact steady_closeScenario.andThen fun _ => parallel_pure rfl
  | enable enabled => exact (steady_enableScenario enabled).andThen fun _ => parallel_pure rfl
  | select =>
    refine (parallel_taken (hv.string 0)).andThen fun id => ?_
    refine (steady_scenarioIndex id).andThen fun index => ?_
    refine Parallel.andThen ?_ fun _ => parallel_pure rfl
    exact steady_change (fun _ => rfl) fun _ => rfl
  | index =>
    refine (parallel_taken (hv.string 0)).andThen fun id => ?_
    exact (steady_scenarioIndex id).map fun _ _ same => same ▸ rfl

/-! ## Tasks and resources -/

namespace RunRelation

theorem Alike.openProperty? {c d : Context} (alike : L.Alike c d) (kind : Plan.PropertyKind) :
    Matcher.openProperty? d kind = Matcher.openProperty? c kind := by
  unfold Matcher.openProperty?
  rw [alike.property]

theorem steady_openProperty (kind : Plan.PropertyKind) (id name : String) :
    L.Steady (openProperty kind id name) := by
  refine parallel_get fun c d alike => parallel_project.bind fun p q same => ?_
  have properties : q.properties kind = p.properties kind := (congrArg (·.properties kind) same :)
  dsimp only
  rw [alike.openProperty?, properties]
  split
  · exact parallel_fail _
  · next grown _ =>
    refine parallel_modify fun c d alike => ⟨alike.reading, alike.allowed, ?_⟩
    have grownSame : L.SameProject
        (p.setProperties kind (grown.inheritAttributes (p.properties kind).length))
        (q.setProperties kind (grown.inheritAttributes (p.properties kind).length)) := by
      rw [SameProject, Project.through_setProperties, same, Project.through_setProperties]
    have built := (alike.withProject grownSame).built
    exact (congrArg (fun c : Context =>
      { c with property := some (kind, (p.properties kind).length) }) built :)

theorem steady_closeProperty : L.Steady closeProperty := by
  refine parallel_modify fun c d alike => ⟨alike.reading, alike.allowed, ?_⟩
  -- the property around the current one is the same
  have related (parent : Option (Plan.PropertyKind × Nat)) :
      Context.built L.view { d with property := parent } = Context.built L.view { c with property := parent } :=
    (congrArg (fun c : Context => { c with property := parent }) alike.built :)
  dsimp only
  rw [alike.currentProperty?, alike.property]
  exact related _

theorem steady_leaveScenario : L.Steady leaveScenario :=
  steady_change (fun _ => rfl) fun _ => rfl

theorem steady_addAllocations (added : List Plan.Allocation) : L.Steady (addAllocations added) := by
  refine parallel_get fun c d alike => ?_
  rw [alike.scenarioAttribute?]
  exact steady_setScenarioAttribute _ _

theorem steady_addFlags (added : List String) : L.Steady (addFlags added) := by
  refine parallel_get fun c d alike => ?_
  rw [alike.scenarioAttribute?]
  exact steady_setScenarioAttribute _ _

theorem steady_addVacations (added : List Calendar.Interval) : L.Steady (addVacations added) := by
  refine parallel_get fun c d alike => ?_
  rw [alike.scenarioAttribute?]
  exact steady_setScenarioAttribute _ _

/-- A relative id means the same task. -/
theorem steady_relativeTask (id : String) : L.Steady (relativeTask id) := by
  refine parallel_project.bind fun p q same => parallel_get fun c d alike => ?_
  have tasks : q.tasks = p.tasks := (congrArg Project.tasks same :)
  rw [alike.openProperty?, tasks]
  exact steady_orFail _ _

theorem steady_knownResource (id : String) : L.Steady (knownResource id) := by
  refine parallel_project.bind fun p q same => ?_
  have resources : q.resources = p.resources := (congrArg Project.resources same :)
  rw [resources]
  split
  · exact parallel_pure rfl
  · exact parallel_fail _

end RunRelation

/-- An attribute of an allocation holds no expressions that are looked at. -/
theorem Matcher.blind_allocationWith (a : Plan.Allocation) : Value.Blind (allocationWith a) := by
  intro view v
  cases v with
  | pair first second =>
    cases first with
    | str word =>
      -- only alternatives are a list, and what is taken from it are its texts
      by_cases alternative : word = "alternative"
      · subst alternative
        cases second with
        | list items =>
          have texts : strings (items.map (Value.through view)) = strings items :=
            Value.Blind.filterMap_map (fun _ a => by cases a <;> rfl) items
          simp only [Value.through, allocationWith, Value.allThrough_eq_map, texts]
        | _ => rfl
      · by_cases select : word = "select"
        · subst select
          cases second <;> rfl
        · simp [Value.through, allocationWith, alternative, select]
    | _ => rfl
  | _ => rfl

theorem PropertyAction.parallel_perform (hv : v.Same L.view w) (a : PropertyAction) :
    L.Parallel (Value.Same L.view) (a.perform v) (a.perform w) := by
  have set (id : String) (value : Plan.AttributeValue) :
      L.Parallel (Value.Same L.view) (do setScenarioAttribute id value; return none)
        (do setScenarioAttribute id value; return none) :=
    (steady_setScenarioAttribute id value).andThen fun _ => parallel_pure rfl
  cases a with
  | header kind =>
    -- the property is opened in the first scenario
    refine (parallel_taken (hv.string 1)).andThen fun id => ?_
    refine (parallel_taken (hv.string 2)).andThen fun name => ?_
    refine (steady_openProperty kind id name).andThen fun _ => ?_
    exact steady_leaveScenario.andThen fun _ => parallel_pure rfl
  | close => exact steady_closeProperty.andThen fun _ => parallel_pure rfl
  | leaveScenario => exact steady_leaveScenario.andThen fun _ => parallel_pure rfl
  | allocate =>
    have added : (w.list 1).filterMap Value.allocation? = (v.list 1).filterMap Value.allocation? :=
      Value.Blind.filterMap (fun _ a => by cases a <;> rfl) (hv.list 1)
    simp only [PropertyAction.perform, added]
    exact (steady_addAllocations _).andThen fun _ => parallel_pure rfl
  | flags =>
    simp only [PropertyAction.perform, hv.strings]
    exact (steady_addFlags _).andThen fun _ => parallel_pure rfl
  | vacation =>
    simp only [PropertyAction.perform, hv.intervals]
    exact (steady_addVacations _).andThen fun _ => parallel_pure rfl
  | depends =>
    simp only [PropertyAction.perform, hv.strings]
    exact set _ _
  | ticks id => exact (parallel_taken (hv.int 1)).andThen fun _ => set _ _
  | start | stop =>
    -- the date itself, and the direction in which the task is scheduled
    refine (parallel_taken (hv.date 1)).andThen fun _ => ?_
    exact (steady_setScenarioAttribute _ _).andThen fun _ => set _ _
  | priority =>
    refine (parallel_taken (hv.int 1)).andThen fun priority => ?_
    split
    · exact (parallel_fail _ : L.Steady (.fail .priorityOutOfRange)).andThen fun _ => set _ _
    · exact set _ _
  | relativeId =>
    refine (parallel_taken (hv.string 0)).andThen fun id => ?_
    exact (steady_relativeTask id).map fun _ _ same => same ▸ rfl
  | resourceId =>
    refine (parallel_taken (hv.string 0)).andThen fun id => ?_
    exact (steady_knownResource id).map fun _ _ same => same ▸ rfl
  | allocation =>
    -- the attributes are added one by one
    have attributes (id : String) : allocationOf id (w.list 1) = allocationOf id (v.list 1) :=
      Value.Blind.foldl blind_allocationWith (hv.list 1) _
    simp only [PropertyAction.perform, attributes]
    exact (parallel_taken (hv.string 0)).map fun _ _ same => same ▸ rfl
  | alternatives =>
    refine parallel_pure ?_
    simp [Value.Same, Value.through, Value.allThrough_eq_map, hv.list 1]
  | selectMode =>
    refine (parallel_taken (hv.string 1)).andThen fun word => ?_
    split
    · exact parallel_pure rfl
    · exact parallel_fail _

end Planfile
