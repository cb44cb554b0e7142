import Planfile.Proofs.Matching.Postcondition
import Planfile.Proofs.Schema.Conformance

/-!
# Planfile — what a plan has written down

While a plan is read, few statements make entries: they start the project, add tasks, resources and
reports, go in and out of bodies, and add attributes to the schemas and to the grammar. All others set
values of what is there. So whatever becomes of such a statement, error or not, the same entries are
found behind it.

Main results:

* `Matcher.leaves_bind` — what is asked of two computations is asked of the first one.
* `Matcher.leaves_modifyProperty`, `Matcher.leaves_modifyReport` and their like — the steps that change
  the project.
* `Action.spares_entryState` — an action that makes no entry leaves all entries alone.
-/

/-!
## The state that an action leaves, error or not

An action that objects to what a plan says may have changed the state before. `Matcher.Leaves` says of
a computation in a state what is asked of the state that it leaves, be it at its end or early. As with
what holds when an action is done, it is handed backwards through an action, with one lemma for each
step.
-/

namespace Planfile.Matcher

/-- Whether a computation in some state comes to its end with the value and in the state that are
asked for, or ends early in a state that is asked for. -/
def Leaves (ask : α → Context → Prop) (halt : Context → Prop) (m : Matcher α) (env : Surroundings)
    (c : Context) : Prop :=
  match m env c with
  | (.ok a, d) => ask a d
  | (.error _, d) => halt d

/-- Whether what is seen of the state is the same after a computation, error or not. -/
def Spares (view : Context → σ) (m : Matcher α) : Prop :=
  ∀ env c, Leaves (fun _ d => view d = view c) (fun d => view d = view c) m env c

section
variable {ask : α → Context → Prop} {halt : Context → Prop} {m : Matcher α} {env : Surroundings}
  {c d : Context}

/-- What is asked of the state alone is true of the one that is left. -/
theorem Leaves.holds (h : Leaves (fun _ => halt) halt m env c) : halt (m env c).2 := by
  unfold Leaves at h
  cases run : m env c with
  | mk outcome d =>
    rw [run] at h
    cases outcome with
    | error stop => exact h
    | ok a => exact h

theorem Spares.eq {view : Context → σ} (h : Spares view m) (env : Surroundings) (c : Context) :
    view (m env c).2 = view c :=
  (h env c).holds

/-- What is asked may be less. -/
theorem Leaves.weaken {less : α → Context → Prop} {less' : Context → Prop}
    (h : Leaves ask halt m env c) (hl : ∀ a d, ask a d → less a d) (hl' : ∀ d, halt d → less' d) :
    Leaves less less' m env c := by
  unfold Leaves at h ⊢
  cases run : m env c with
  | mk outcome d =>
    rw [run] at h
    cases outcome with
    | error stop => exact hl' d h
    | ok a => exact hl a d h

/-- What is seen of a state is the same if more of it is the same. -/
theorem Spares.of_view {view : Context → σ} {less : Context → τ} {m : Matcher α} (h : Spares view m)
    (hl : ∀ c d, view d = view c → less d = less c) : Spares less m := by
  intro env c
  exact (h env c).weaken (fun _ d same => hl c d same) fun d same => hl c d same

/-! ## Steps -/

@[simp] theorem leaves_pure (a : α) : Leaves ask halt (pure a) env c ↔ ask a c := Iff.rfl

/-- What is asked of two computations is asked of the first one, with what the second one needs. -/
@[simp] theorem leaves_bind {ask : β → Context → Prop} (f : α → Matcher β) :
    Leaves ask halt (m >>= f) env c ↔ Leaves (fun a d => Leaves ask halt (f a) env d) halt m env c := by
  rw [Leaves, run_bind, Leaves]
  rcases m env c with ⟨stop | a, d⟩ <;> rfl

@[simp] theorem leaves_map {ask : β → Context → Prop} (f : α → β) :
    Leaves ask halt (f <$> m) env c ↔ Leaves (fun a d => ask (f a) d) halt m env c := by
  rw [Leaves, run_map, Leaves]
  rcases m env c with ⟨stop | a, d⟩ <;> rfl

/-- Of two computations, what is asked of the one that is run. -/
@[simp] theorem leaves_ite {p : Prop} [Decidable p] {n : Matcher α} :
    Leaves ask halt (if p then m else n) env c ↔
      if p then Leaves ask halt m env c else Leaves ask halt n env c := by
  split <;> rfl

end

section
variable {halt : Context → Prop} {env : Surroundings} {c : Context}

@[simp] theorem leaves_get {ask : Context → Context → Prop} :
    Leaves ask halt (get : Matcher Context) env c ↔ ask c c := Iff.rfl

@[simp] theorem leaves_read {ask : Surroundings → Context → Prop} :
    Leaves ask halt (read : Matcher Surroundings) env c ↔ ask env c := Iff.rfl

@[simp] theorem leaves_modify {ask : Unit → Context → Prop} (f : Context → Context) :
    Leaves ask halt (modify f : Matcher Unit) env c ↔ ask () (f c) := Iff.rfl

@[simp] theorem leaves_report {ask : Unit → Context → Prop} (event : Log.Event) :
    Leaves ask halt (report event) env c ↔ ask () { c with journal := c.journal.record event } := Iff.rfl

/-- An objection keeps the state. -/
@[simp] theorem leaves_fail {ask : α → Context → Prop} (fault : SemanticFault) :
    Leaves ask halt (fail fault : Matcher α) env c ↔ halt c := Iff.rfl

@[simp] theorem leaves_failNext {ask : α → Context → Prop} (fault : ParseFault) :
    Leaves ask halt (failNext fault : Matcher α) env c ↔ halt c := Iff.rfl

/-- A value that is there is taken, and where there is none the state is kept. -/
@[simp] theorem leaves_orFail {ask : α → Context → Prop} (a : Option α) (fault : SemanticFault) :
    Leaves ask halt (orFail a fault) env c ↔ (a = none → halt c) ∧ ∀ x, a = some x → ask x c := by
  cases a with
  | none => simp [orFail]
  | some x => simp [orFail]

/-- A value of the right kind is taken, and with any other the state is kept. -/
@[simp] theorem leaves_take {ask : α → Context → Prop} (v : Values) (a : Except GrammarError α) :
    Leaves ask halt (take v a) env c ↔ (∀ e, a = .error e → halt c) ∧ ∀ x, a = .ok x → ask x c := by
  cases a with
  | error e =>
    have kept : Leaves ask halt (take v (.error e)) env c ↔ halt c := Iff.rfl
    simp [kept]
  | ok x => simp [take]

/-- A rule is known, or the state is kept. -/
@[simp] theorem leaves_ruleId {ask : RuleId → Context → Prop} (name : String) :
    Leaves ask halt (ruleId name) env c ↔ (env.grammar.ruleId? name = none → halt c) ∧
      ∀ id, env.grammar.ruleId? name = some id → ask id c := by
  cases known : env.grammar.ruleId? name with
  | none => simp [ruleId, known]
  | some id => simp [ruleId, known]

@[simp] theorem leaves_sound {ask : α → Context → Prop} (a : Except GrammarError α) :
    Leaves ask halt (sound a) env c ↔ (∀ e, a = .error e → halt c) ∧ ∀ x, a = .ok x → ask x c := by
  cases a with
  | error e => simp [sound]
  | ok x => simp [sound]

@[simp] theorem leaves_live {ask : LiveGrammar → Context → Prop} :
    Leaves ask halt live env c ↔ ask ⟨env.grammar, c.extensions⟩ c := Iff.rfl

/-! ## Looking at the project and changing it -/

@[simp] theorem leaves_project {ask : Plan.Project → Context → Prop} :
    Leaves ask halt project env c ↔ (c.project = none → halt c) ∧ ∀ p, c.project = some p → ask p c := by
  simp [project]

@[simp] theorem leaves_modifyProject {ask : Unit → Context → Prop} (f : Plan.Project → Plan.Project) :
    Leaves ask halt (modifyProject f) env c ↔ (c.project = none → halt c) ∧
      ∀ p, c.project = some p → ask () { c with project := some (f p) } := by
  simp [modifyProject]

@[simp] theorem leaves_modifySettings {ask : Unit → Context → Prop}
    (f : Plan.Settings → Plan.Settings) :
    Leaves ask halt (modifySettings f) env c ↔ (c.project = none → halt c) ∧
      ∀ p, c.project = some p → ask () { c with project := some (p.modifySettings f) } := by
  simp [modifySettings]

/-- Looking at the current task or resource keeps the state. -/
theorem leaves_currentProperty {ask : Plan.Property → Context → Prop} (hh : halt c)
    (ha : ∀ q, ask q c) : Leaves ask halt currentProperty env c := by
  simp [currentProperty, hh, ha]

/-- The current task or resource is changed, or else the state is kept. -/
theorem leaves_modifyProperty {ask : Unit → Context → Prop} {f : Plan.Property → Plan.Property}
    (hh : halt c) (ha : ∀ kind index p q, c.property = some (kind, index) → c.project = some p →
      (p.properties kind).get? index = some q →
      ask () { c with
        project := some (p.setProperties kind ((p.properties kind).modify index f)) }) :
    Leaves ask halt (modifyProperty f) env c := by
  simp only [modifyProperty, leaves_bind, leaves_get, leaves_orFail, leaves_modify]
  exact ⟨fun _ => hh, fun current inside => ⟨fun _ => hh, fun p there => ⟨fun _ => hh,
    fun q found => ha current.1 current.2 p q inside there found⟩⟩⟩

@[simp] theorem leaves_setScenarioAttribute {ask : Unit → Context → Prop} (id : String)
    (value : Plan.AttributeValue) :
    Leaves ask halt (setScenarioAttribute id value) env c ↔
      Leaves ask halt (modifyProperty (·.setScenario c.scenarioIndex id value)) env c := by
  simp [setScenarioAttribute]

/-- The current report is changed, or else the state is kept. -/
theorem leaves_modifyReport {ask : Unit → Context → Prop} {f : Plan.ReportElement → Plan.ReportElement}
    (hh : halt c) (ha : ∀ index p, c.project = some p → ask () { c with
      project := some { p with
        reports := p.reports.modify index fun r => { r with element := f r.element } } }) :
    Leaves ask halt (modifyReport f) env c := by
  simp only [modifyReport, leaves_bind, leaves_get, leaves_orFail, leaves_modify]
  exact ⟨fun _ => hh, fun index _ => ⟨fun _ => hh, fun p there => ⟨fun _ => hh,
    fun _ _ => ha index p there⟩⟩⟩

end

end Planfile.Matcher

namespace Planfile

open Plan (PropertyKind AttributeDefinition ReportKind)

/-! ## Entries -/

/-- What is known of a task or a resource from where its header stands. -/
structure Heading where
  id : String
  name : String
  parent : Option Nat
  deriving DecidableEq

/-- The heading of a task or a resource. -/
def Plan.Property.heading (p : Plan.Property) : Heading := ⟨p.id, p.name, p.parent⟩

/-- The entries of all tasks or of all resources, with their schema. -/
structure EntryTable where
  kind : PropertyKind
  definitions : List AttributeDefinition
  headings : List Heading

/-- The entries of a set of tasks or resources. -/
def Plan.PropertySet.entryTable (s : Plan.PropertySet) : EntryTable :=
  ⟨s.kind, s.definitions, s.properties.toList.map Plan.Property.heading⟩

/-- The entries of a project. -/
structure EntryTables where
  tasks : EntryTable
  resources : EntryTable
  reports : List (ReportKind × String)

/-- The entries of one kind. -/
def EntryTables.entryTable (b : EntryTables) : PropertyKind → EntryTable
  | .task => b.tasks
  | .resource => b.resources

/-- The entries of a project. -/
def Plan.Project.entryTables (p : Plan.Project) : EntryTables :=
  ⟨p.tasks.entryTable, p.resources.entryTable, p.reports.map fun r => (r.kind, r.name)⟩

/-- The part of a state that headers, the ends of bodies and added attributes change. -/
structure EntryState where
  extensions : List (RuleId × Pattern)
  target : Option ExtendTarget
  property : Option (PropertyKind × Nat)
  entryTables : Option EntryTables

/-- What a plan has written down. -/
def Context.entryState (c : Context) : EntryState :=
  ⟨c.extensions, c.extendTarget, c.property, c.project.map (·.entryTables)⟩

/-- What a plan has written down, and how many rules are being matched inside each other. -/
def Context.entriesAtDepth (c : Context) : EntryState × Nat := (c.entryState, c.depth)

namespace Plan

/-- What a change of one item changes it changes in a list. -/
theorem map_modify {f : α → α} {g : α → β} {k : β → β} (h : ∀ a, g (f a) = k (g a)) (xs : List α) (i : Nat) :
    (xs.modify i f).map g = (xs.map g).modify i k := by
  apply List.ext_getElem?
  intro j
  rw [List.getElem?_map, List.getElem?_modify, List.getElem?_modify, List.getElem?_map]
  cases xs[j]? with
  | none => rfl
  | some x => by_cases same : i = j <;> simp [same, h]

/-- What is not changed by a change of one item is not changed in a list. -/
theorem map_modify_of_eq {f : α → α} {g : α → β} (h : ∀ a, g (f a) = g a) (xs : List α) (i : Nat) :
    (xs.modify i f).map g = xs.map g :=
  (map_modify (k := id) h xs i).trans (List.modify_id i _)

/-- Changing values of a task or a resource changes no entry. -/
theorem PropertySet.entryTable_modify {s : PropertySet} {f : Property → Property}
    (hf : ∀ p, (f p).heading = p.heading) (i : Nat) : (s.modify i f).entryTable = s.entryTable := by
  rw [entryTable, modify, Array.toList_modify, map_modify_of_eq hf, entryTable]

@[simp] theorem Property.heading_set (p : Property) (id : String) (value : AttributeValue) :
    (p.set id value).heading = p.heading := rfl

@[simp] theorem Property.heading_setScenario (p : Property) (scenario : Nat) (id : String)
    (value : AttributeValue) : (p.setScenario scenario id value).heading = p.heading := rfl

/-- Inheriting values changes no entry. -/
theorem Property.heading_inheritFrom (p parent : Property) (definitions : List AttributeDefinition) :
    (p.inheritFrom parent definitions).heading = p.heading := by
  refine inheritFrom_induction (motive := fun q => q.heading = p.heading) rfl ?_ ?_ definitions
  · intro q id value hq _
    exact hq
  · intro q scenario t id value hq _ _
    exact hq

theorem PropertySet.entryTable_inheritAttributes (s : PropertySet) (index : Nat) :
    (s.inheritAttributes index).entryTable = s.entryTable := by
  unfold inheritAttributes
  split
  · rfl
  · split
    · rfl
    · exact entryTable_modify (fun p => p.heading_inheritFrom _ _) index

/-- A new task or resource is entered behind the others. -/
theorem PropertySet.entryTable_append (s : PropertySet) (id name : String) (parent : Option Nat) :
    (s.append id name parent).entryTable =
      { s.entryTable with headings := s.entryTable.headings ++ [⟨id, name, parent⟩] } := by
  have adopted : (s.adopted parent).entryTable = s.entryTable := by
    cases parent with
    | none => rfl
    | some index => exact entryTable_modify (fun _ => by rfl) index
  rw [append_eq, ← adopted]
  simp [entryTable, Property.heading]

namespace Project

/-- Where the entries of one set are the same, so are those of the project. -/
theorem entryTables_setProperties {p : Project} {kind : PropertyKind} {s : PropertySet}
    (h : s.entryTable = (p.properties kind).entryTable) :
    (p.setProperties kind s).entryTables = p.entryTables := by
  cases kind
  · exact congrArg (fun r => EntryTables.mk r _ _) h
  · exact congrArg (fun r => EntryTables.mk _ r _) h

@[simp] theorem entryTables_modifySettings (p : Project) (f : Settings → Settings) :
    (p.modifySettings f).entryTables = p.entryTables := rfl

/-- Scenarios are no entries. -/
@[simp] theorem entryTables_clearScenarios (p : Project) : p.clearScenarios.entryTables = p.entryTables := rfl

theorem entryTables_addScenario {p q : Project} {s : Scenario} (h : p.addScenario s = .ok q) :
    q.entryTables = p.entryTables := by
  unfold addScenario at h
  split at h <;> cases h
  rfl

end Project

end Plan

/-! ## Actions -/

/-- Whether an action makes entries, or goes in or out of bodies. Matching a rule may do so. -/
def Action.makesEntry : Action → Bool
  | .project .header | .property (.header _) | .property .close | .report .header => true
  | .extend .target | .extend .close | .extend (.declare _) => true
  | .rule _ => true
  | _ => false

namespace Matcher

theorem Spares.bind {view : Context → σ} {m : Matcher α} {f : α → Matcher β} (hm : Spares view m)
    (hf : ∀ a, Spares view (f a)) : Spares view (m >>= f) := by
  intro env c
  rw [leaves_bind]
  refine (hm env c).weaken (fun a d same => ?_) fun _ same => same
  exact (hf a env d).weaken (fun _ _ still => still.trans same) fun _ still => still.trans same

section
variable {view : Context → σ}

theorem spares_pure (a : α) : Spares view (pure a) := fun _ _ => rfl

theorem spares_get : Spares view (get : Matcher Context) := fun _ _ => rfl

theorem spares_fail (fault : SemanticFault) : Spares view (fail fault : Matcher α) := fun _ _ => rfl

theorem spares_take (v : Values) (a : Except GrammarError α) : Spares view (take v a) := by
  intro env c
  cases a <;> exact rfl

theorem spares_orFail (a : Option α) (fault : SemanticFault) : Spares view (orFail a fault) := by
  intro env c
  cases a <;> exact rfl

theorem spares_project : Spares view project := spares_get.bind fun _ => spares_orFail _ _

theorem spares_modify {f : Context → Context} (h : ∀ c, view (f c) = view c) :
    Spares view (modify f : Matcher Unit) := fun _ c => h c

end

/-- Values of the current task or resource are no entries. -/
theorem spares_modifyProperty {f : Plan.Property → Plan.Property}
    (hf : ∀ p, (f p).heading = p.heading) : Spares Context.entriesAtDepth (modifyProperty f) := by
  intro env c
  refine leaves_modifyProperty rfl fun kind index p q _ there _ => ?_
  have same : (p.setProperties kind ((p.properties kind).modify index f)).entryTables = p.entryTables :=
    Plan.Project.entryTables_setProperties (Plan.PropertySet.entryTable_modify hf index)
  simp [Context.entriesAtDepth, Context.entryState, there, same]

theorem spares_setScenarioAttribute (id : String) (value : Plan.AttributeValue) :
    Spares Context.entriesAtDepth (setScenarioAttribute id value) := by
  intro env c
  rw [leaves_setScenarioAttribute]
  exact spares_modifyProperty (fun p => p.heading_setScenario _ _ _) env c

/-- What a report shows is no entry. -/
theorem spares_modifyReport (f : Plan.ReportElement → Plan.ReportElement) :
    Spares Context.entriesAtDepth (modifyReport f) := by
  intro env c
  refine leaves_modifyReport rfl fun index p there => ?_
  have same := Plan.map_modify_of_eq (f := fun r : Plan.Report => { r with element := f r.element })
    (g := fun r => (r.kind, r.name)) (fun _ => rfl) p.reports index
  simp [Context.entriesAtDepth, Context.entryState, there, Plan.Project.entryTables, same]

theorem spares_setWorkingHours (days : Calendar.DaySet) (ranges : List Calendar.TimeRange) :
    Spares Context.entriesAtDepth (setWorkingHours days ranges) := by
  have store (hours : Calendar.WorkingHours) : Spares Context.entriesAtDepth
      (modifyProperty (·.set "workinghours" (.workingHours hours))) :=
    spares_modifyProperty fun p => p.heading_set _ _
  intro env c
  rw [setWorkingHours, leaves_bind, leaves_get]
  split
  · simp +contextual [Context.entriesAtDepth, Context.entryState]
  · rw [leaves_bind]
    refine leaves_currentProperty rfl fun q => ?_
    split
    · exact store _ env c
    · rw [leaves_bind, leaves_project]
      exact ⟨fun _ => rfl, fun p _ => store _ env c⟩

theorem spares_openScenario (v : Values) : Spares Context.entriesAtDepth (openScenario v) := by
  intro env c
  rw [openScenario, leaves_bind, leaves_get, leaves_bind, leaves_project]
  refine ⟨fun _ => rfl, fun p there => ?_⟩
  generalize hq : (if (c.scenario.isNone && !c.scenariosReplaced) = true then p.clearScenarios
    else p) = q
  have entryTables : q.entryTables = p.entryTables := by
    rw [← hq]
    split <;> rfl
  simp only [leaves_bind, leaves_modify, leaves_take]
  refine ⟨fun _ _ => by simp [Context.entriesAtDepth, Context.entryState, there, entryTables], fun id _ =>
    ⟨fun _ _ => by simp [Context.entriesAtDepth, Context.entryState, there, entryTables], fun name _ => ?_⟩⟩
  cases added : q.addScenario (.declared id name c.scenario) with
  | error e => simp [Context.entriesAtDepth, Context.entryState, there, entryTables]
  | ok grown =>
    simp [Context.entriesAtDepth, Context.entryState, there, entryTables,
      Plan.Project.entryTables_addScenario added]

theorem spares_includeFile (path : String) : Spares Context.entriesAtDepth (includeFile path) := by
  intro env c
  rw [Leaves, includeFile, run_bind, run_read]
  dsimp only
  rw [run_bind, run_get]
  dsimp only
  rw [run_bind, run_modify]
  dsimp only
  cases c.tokens.pushInclude? env.preferences env.files path with
  | error e => exact rfl
  | ok tokens => exact rfl

end Matcher

open Matcher

section
variable (v : Values)

theorem ProjectAction.spares_entriesAtDepth {a : ProjectAction} (h : a ≠ .header) :
    Spares Context.entriesAtDepth (a.perform v) := by
  intro env c
  cases a with
  | header => exact absurd rfl h
  | _ => simp +contextual [perform, realFormat, Context.entriesAtDepth, Context.entryState]

theorem ScenarioAction.spares_entriesAtDepth (a : ScenarioAction) :
    Spares Context.entriesAtDepth (a.perform v) := by
  cases a with
  | header => exact (spares_openScenario v).bind fun _ => spares_pure none
  | close => exact fun _ _ => rfl
  | _ =>
    intro env c
    simp +contextual [perform, enableScenario, scenarioIndex, Context.entriesAtDepth, Context.entryState,
      Plan.Project.entryTables]

theorem ExtendAction.spares_entriesAtDepth {a : ExtendAction}
    (h : (Action.extend a).makesEntry = false) : Spares Context.entriesAtDepth (a.perform v) := by
  intro env c
  cases a with
  | id => simp [perform, extensionId]
  | store id kind specific =>
    rw [perform, leaves_bind, leaves_take]
    refine ⟨fun _ _ => rfl, fun value _ => ?_⟩
    split
    · exact ((spares_setScenarioAttribute id value).bind fun _ => spares_pure none) env c
    · exact ((spares_modifyProperty fun p => p.heading_set _ _).bind fun _ => spares_pure none) env c
  | _ => cases h

theorem PropertyAction.spares_entriesAtDepth {a : PropertyAction}
    (h : (Action.property a).makesEntry = false) : Spares Context.entriesAtDepth (a.perform v) := by
  -- setting an attribute comes last, behind looking at values
  have writing (id : String) (value : Plan.AttributeValue) : Spares Context.entriesAtDepth
      (do setScenarioAttribute id value; return none : Matcher (Option Value)) :=
    (spares_setScenarioAttribute id value).bind fun _ => spares_pure none
  have growing {m : Context → Matcher Unit} (hm : ∀ c, Spares Context.entriesAtDepth (m c)) :
      Spares Context.entriesAtDepth (do (do m (← get)); return none : Matcher (Option Value)) :=
    (spares_get.bind hm).bind fun _ => spares_pure none
  cases a with
  | header kind | close => cases h
  | leaveScenario => exact fun _ _ => rfl
  | allocate | flags | vacation => exact growing fun _ => spares_setScenarioAttribute _ _
  | depends => exact writing _ _
  | ticks id => exact (spares_take _ _).bind fun _ => writing _ _
  | start | stop =>
    exact (spares_take _ _).bind fun _ => (spares_setScenarioAttribute _ _).bind fun _ => writing _ _
  | priority =>
    refine (spares_take _ _).bind fun priority => ?_
    dsimp only
    split
    · exact (spares_fail _).bind fun _ => writing _ _
    · exact writing _ _
  | relativeId =>
    refine (spares_take _ _).bind fun id => Spares.bind ?_ fun _ => spares_pure _
    exact spares_project.bind fun _ => spares_get.bind fun _ => spares_orFail _ _
  | resourceId =>
    refine (spares_take _ _).bind fun id => Spares.bind ?_ fun _ => spares_pure _
    refine spares_project.bind fun p => ?_
    split
    · exact spares_pure _
    · exact spares_fail _
  | allocation => exact (spares_take _ _).bind fun _ => spares_pure _
  | alternatives => exact spares_pure _
  | selectMode =>
    refine (spares_take _ _).bind fun word => ?_
    split
    · exact spares_pure _
    · exact spares_fail _

theorem Matcher.spares_sortCriterion (id : String) : Spares Context.entriesAtDepth (sortCriterion id) := by
  have direction (word : String) : Spares Context.entriesAtDepth (sortDirection word) := by
    unfold sortDirection
    split
    · exact spares_pure _
    · split
      · exact spares_pure _
      · exact spares_fail _
  unfold sortCriterion
  split
  · exact (direction _).bind fun _ => spares_pure _
  · exact spares_project.bind fun _ => (spares_orFail _ _).bind fun _ => (direction _).bind fun _ => spares_pure _
  · exact spares_fail _

theorem ReportAction.spares_change (a : ReportAction) : Spares Context.entriesAtDepth (a.change v) := by
  cases a with
  | scenarios => exact (spares_project.bind fun _ => spares_pure _).bind fun _ => spares_pure _
  | taskRoot =>
    refine (spares_take _ _).bind fun id => Spares.bind ?_ fun _ => spares_pure _
    refine spares_project.bind fun p => ?_
    split
    · exact spares_pure _
    · exact spares_fail _
  | headline | hideResource | hideTask | rollupTask | period | start | stop | timeFormat =>
    exact (spares_take _ _).bind fun _ => spares_pure _
  | _ => exact spares_pure _

theorem ReportAction.spares_entriesAtDepth {a : ReportAction} (h : a ≠ .header) :
    Spares Context.entriesAtDepth (a.perform v) := by
  cases a with
  | header => exact absurd rfl h
  | close => exact fun _ _ => rfl
  | column =>
    refine Spares.bind ?_ fun _ => spares_pure _
    exact spares_get.bind fun _ => (spares_modify fun _ => by rfl).bind fun _ => spares_pure _
  | columnId =>
    refine (spares_take _ _).bind fun id => Spares.bind ?_ fun _ => spares_pure _
    refine Spares.bind ?_ fun _ => (spares_orFail _ _).bind fun _ => spares_modify fun _ => by rfl
    refine spares_get.bind fun _ => (spares_orFail _ _).bind fun _ => (spares_orFail _ _).bind fun _ => ?_
    exact (spares_orFail _ _).bind fun _ => spares_pure _
  | columnTitle =>
    refine (spares_take _ _).bind fun title => Spares.bind ?_ fun _ => spares_pure _
    exact spares_get.bind fun _ => (spares_orFail _ _).bind fun _ => spares_modify fun _ => by rfl
  | sortPath =>
    exact (spares_take _ _).bind fun id => (spares_sortCriterion id).bind fun _ => spares_pure _
  | sortTree =>
    refine (spares_take _ _).bind fun word => ?_
    split
    · exact spares_pure _
    · exact spares_fail _
  | _ => exact (spares_change v _).bind fun _ => (spares_modifyReport _).bind fun _ => spares_pure _

theorem LogicalAction.spares_entriesAtDepth (a : LogicalAction) :
    Spares Context.entriesAtDepth (a.perform v) := by
  have declared (id : String) : Spares Context.entriesAtDepth (declaredFlag id) := by
    refine spares_project.bind fun p => ?_
    split
    · exact spares_pure _
    · exact spares_fail _
  cases a with
  | operation =>
    refine (spares_take _ _).bind fun left => Spares.bind ?_ fun _ => spares_pure _
    unfold operationOf
    split
    · refine Spares.bind ?_ fun _ => ?_
      · unfold operatorOf
        split
        · exact spares_orFail _ _
        · exact spares_fail _
      · split
        · exact spares_pure _
        · exact spares_fail _
    · exact spares_pure _
  | attributeOf =>
    refine (spares_take _ _).bind fun id => Spares.bind ?_ fun _ => spares_pure _
    unfold attributeOperand
    split
    · exact spares_project.bind fun _ => (spares_orFail _ _).bind fun _ => spares_pure _
    · exact spares_fail _
  | name =>
    refine (spares_take _ _).bind fun id => ?_
    dsimp only
    split
    · exact Spares.bind ((spares_modify fun _ => by rfl).bind fun _ => spares_pure _) fun _ => spares_pure _
    · exact ((declared id).bind fun _ => spares_pure _).bind fun _ => spares_pure _
  | flag => exact (spares_take _ _).bind fun id => (declared id).bind fun _ => spares_pure _
  | arguments => exact spares_pure _
  | _ => exact (spares_take _ _).bind fun _ => spares_pure _

theorem CalendarAction.spares_entriesAtDepth (a : CalendarAction) :
    Spares Context.entriesAtDepth (a.perform v) := by
  have between : Spares Context.entriesAtDepth (matchedInterval v) := by
    refine (spares_take _ _).bind fun start => (spares_take _ _).bind fun stop => ?_
    split
    · exact spares_pure _
    · exact spares_fail _
  cases a with
  | workingHours =>
    refine Spares.bind ((spares_take _ _).bind fun days => ?_) fun _ => spares_pure _
    split
    · exact spares_setWorkingHours _ _
    · exact spares_fail _
  | interval => exact between.bind fun _ => spares_pure _
  | projectDate =>
    refine Spares.bind ((spares_take _ _).bind fun date => spares_project.bind fun p => ?_) fun _ =>
      spares_pure _
    split
    · exact spares_pure _
    · exact spares_fail _
  | projectInterval =>
    refine Spares.bind (between.bind fun i => spares_project.bind fun p => ?_) fun _ => spares_pure _
    split
    · exact spares_fail _
    · split
      · exact spares_fail _
      · exact spares_pure _
  | dayRange =>
    have day (name : String) : Spares Context.entriesAtDepth (weekday name) := spares_orFail _ _
    refine Spares.bind ((spares_take _ _).bind fun name => (day name).bind fun first => ?_) fun _ =>
      spares_pure _
    split
    · exact (day _).bind fun _ => spares_pure _
    · exact spares_pure _
  | timeRange =>
    refine Spares.bind ((spares_take _ _).bind fun start => (spares_take _ _).bind fun stop => ?_)
      fun _ => spares_pure _
    split
    · exact spares_fail _
    · exact spares_pure _
  | unit => exact (spares_take _ _).bind fun _ => (spares_orFail _ _).bind fun _ => spares_pure _
  | calendarTicks | workingTicks =>
    exact spares_project.bind fun _ => (spares_take _ _).bind fun _ => (spares_take _ _).bind fun _ =>
      spares_pure _
  | intervalSeconds =>
    exact (spares_take _ _).bind fun _ => (spares_take _ _).bind fun _ => spares_pure _
  | daySet | noTimes => exact spares_pure _
  | endDate | endSeconds => exact (spares_take _ _).bind fun _ => spares_pure _

theorem Action.spares_entriesAtDepth {a : Action} (h : a.makesEntry = false)
    (matchRule : RuleId → Matcher (Option Value)) :
    Spares Context.entriesAtDepth (a.perform matchRule v) := by
  intro env c
  cases a with
  | rule name => cases h
  | includeFile i =>
    rw [perform, leaves_bind, leaves_take]
    exact ⟨fun _ _ => rfl, fun path _ => ((spares_includeFile path).bind fun _ => spares_pure none) env c⟩
  | project a =>
    have other : a ≠ .header := by
      rintro rfl
      cases h
    exact ((a.spares_entriesAtDepth v other).bind fun _ => spares_pure none) env c
  | scenario a => exact a.spares_entriesAtDepth v env c
  | property a => exact a.spares_entriesAtDepth v h env c
  | extend a => exact a.spares_entriesAtDepth v h env c
  | report a =>
    have other : a ≠ .header := by
      rintro rfl
      cases h
    exact a.spares_entriesAtDepth v other env c
  | logical a => exact a.spares_entriesAtDepth v env c
  | calendar a => exact a.spares_entriesAtDepth v env c
  | _ => simp [perform]

/-- Whatever becomes of an action that makes no entry, error or not, all entries are as before. -/
theorem Action.spares_entryState {a : Action} (h : a.makesEntry = false)
    (matchRule : RuleId → Matcher (Option Value)) : Spares Context.entryState (a.perform matchRule v) :=
  (a.spares_entriesAtDepth v h matchRule).of_view fun _ _ same => congrArg Prod.fst same

end

end Planfile
