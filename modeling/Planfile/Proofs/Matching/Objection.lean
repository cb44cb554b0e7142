import Planfile.Proofs.Matching.EntryState

/-!
# Planfile — why an action ends early

An action that ends early objects to what a plan says, at the token that has been read last, or cannot go
on with a file. It may say that something is missing: a project, or the task, the resource, the report, the
column or the scenario that it is about. Then this is missing indeed, and it is something that the action
needs. `Matcher.Comes` says of a computation in a state what is asked of its end and of why it ends early. As
with what holds when an action is done, it is handed backwards through an action.

Main results:

* `Action.objects` — whatever an action ends early for, it objects to.
-/

namespace Planfile

/-! ## Objections -/

namespace Context

/-- The report whose body is read. -/
def currentReport? (c : Context) : Option Plan.Report := do
  let index ← c.report
  (← c.project).reports[index]?

/-- The scenario whose body is read. -/
def currentScenario? (c : Context) : Option Plan.Scenario := do
  let index ← c.scenario
  (← c.project).scenario? index

/-- Whether a computation that has been started in a state objects: of what it says to be missing something
is known, what is wrong is at the token that was read last, and the tokens ahead are those of before. A
defect of the grammar can be anywhere. -/
def Objects (c : Context) (misses : SemanticFault → Prop) : Stop → Context → Prop
  | .error ⟨.semantic fault, l⟩, d => misses fault ∧ l = c.tokens.lastLocation ∧ d.tokens = c.tokens
  | .error ⟨.lexical _, l⟩, d | .error ⟨.includeFailed _, l⟩, d =>
    l = c.tokens.lastLocation ∧ d.tokens = c.tokens
  | .error ⟨.grammar _, _⟩, d => d.tokens = c.tokens
  | _, _ => False

end Context

/-! ## What actions need -/

/-- What an action on tasks and resources needs to be there, by the fault that it would be to miss it. -/
@[simp] def PropertyAction.needs : PropertyAction → SemanticFault → Bool
  | .header _, .noProject | .relativeId, .noProject | .resourceId, .noProject => true
  | .allocate, .noProperty | .depends, .noProperty | .ticks _, .noProperty | .start, .noProperty => true
  | .stop, .noProperty | .priority, .noProperty | .flags, .noProperty | .vacation, .noProperty => true
  | _, _ => false

/-- What an action on reports needs to be there. -/
@[simp] def ReportAction.needs : ReportAction → SemanticFault → Bool
  | .header, .noProject | .sortPath, .noProject | .scenarios, .noProject | .taskRoot, .noProject => true
  | .columnTitle, .noColumn => true
  | .header, .noReport | .close, .noReport | .column, .noReport | .columnTitle, .noReport => false
  | .sortPath, .noReport | .sortTree, .noReport => false
  | _, .noReport => true
  | _, _ => false

/-- What an action needs to be there. Working hours are those of the project where no resource is
current. -/
@[simp] def Action.needs : Action → SemanticFault → Bool
  | .project a, .noProject => a != .header
  | .scenario (.enable _), .noScenario => true
  | .scenario .header, .noProject | .scenario .select, .noProject | .scenario .index, .noProject => true
  | .property a, fault => a.needs fault
  | .extend (.declare _), .noProject | .extend (.store _ _ _), .noProperty => true
  | .report a, fault => a.needs fault
  | .logical .attributeOf, .noProject | .logical .name, .noProject | .logical .flag, .noProject => true
  | .calendar .projectDate, .noProject | .calendar .projectInterval, .noProject => true
  | .calendar .workingHours, .noProject => true
  | .calendar .calendarTicks, .noProject | .calendar .workingTicks, .noProject => true
  | _, _ => false

/-- Whether an action misses what a fault says to be missing: it is missing, and the action needs it. Where
a task or a resource is said to be current, any action may need it to be there. -/
def Action.Misses (a : Action) (c : Context) : SemanticFault → Prop
  | .noProject => c.project = none ∧ a.needs .noProject = true
  | .noProperty => c.currentProperty? = none ∧ (c.property = none → a.needs .noProperty = true)
  | .noReport => c.currentReport? = none ∧ a.needs .noReport = true
  | .noColumn => c.column = none ∧ a.needs .noColumn = true
  | .noScenario => c.currentScenario? = none ∧ a.needs .noScenario = true
  | _ => True

namespace Matcher

/-- Whether a computation in some state comes to its end with the value and in the state that are asked
for, or ends early for a reason and in a state that are asked for. -/
def Comes (ask : α → Context → Prop) (halt : Stop → Context → Prop) (m : Matcher α) (env : Surroundings)
    (c : Context) : Prop :=
  match m env c with
  | (.ok a, d) => ask a d
  | (.error stop, d) => halt stop d

section
variable {ask : α → Context → Prop} {halt : Stop → Context → Prop} {m : Matcher α}
  {env : Surroundings} {c d : Context}

theorem Comes.of_error (h : Comes ask halt m env c) {stop : Stop} (run : m env c = (.error stop, d)) :
    halt stop d := by
  rwa [Comes, run] at h

/-- What is asked may be less. -/
theorem Comes.weaken {less : α → Context → Prop} (h : Comes ask halt m env c)
    (hl : ∀ a d, ask a d → less a d) : Comes less halt m env c := by
  unfold Comes at h ⊢
  cases run : m env c with
  | mk outcome d =>
    rw [run] at h
    cases outcome with
    | error stop => exact h
    | ok a => exact hl a d h

/-! ## Steps -/

@[simp] theorem comes_pure (a : α) : Comes ask halt (pure a) env c ↔ ask a c := Iff.rfl

/-- What is asked of two computations is asked of the first one, with what the second one needs. -/
@[simp] theorem comes_bind {ask : β → Context → Prop} (f : α → Matcher β) :
    Comes ask halt (m >>= f) env c ↔ Comes (fun a d => Comes ask halt (f a) env d) halt m env c := by
  rw [Comes, run_bind, Comes]
  rcases m env c with ⟨stop | a, d⟩ <;> rfl

@[simp] theorem comes_map {ask : β → Context → Prop} (f : α → β) :
    Comes ask halt (f <$> m) env c ↔ Comes (fun a d => ask (f a) d) halt m env c := by
  rw [Comes, run_map, Comes]
  rcases m env c with ⟨stop | a, d⟩ <;> rfl

/-- Of two computations, what is asked of the one that is run. -/
@[simp] theorem comes_ite {p : Prop} [Decidable p] {n : Matcher α} :
    Comes ask halt (if p then m else n) env c ↔
      if p then Comes ask halt m env c else Comes ask halt n env c := by
  split <;> rfl

end

section
variable {halt : Stop → Context → Prop} {env : Surroundings} {c : Context}

@[simp] theorem comes_get {ask : Context → Context → Prop} :
    Comes ask halt (get : Matcher Context) env c ↔ ask c c := Iff.rfl

@[simp] theorem comes_read {ask : Surroundings → Context → Prop} :
    Comes ask halt (read : Matcher Surroundings) env c ↔ ask env c := Iff.rfl

@[simp] theorem comes_modify {ask : Unit → Context → Prop} (f : Context → Context) :
    Comes ask halt (modify f : Matcher Unit) env c ↔ ask () (f c) := Iff.rfl

@[simp] theorem comes_report {ask : Unit → Context → Prop} (event : Log.Event) :
    Comes ask halt (report event) env c ↔ ask () { c with journal := c.journal.record event } := Iff.rfl

@[simp] theorem comes_fail {ask : α → Context → Prop} (fault : SemanticFault) :
    Comes ask halt (fail fault : Matcher α) env c ↔
      halt (.error ⟨.semantic fault, c.tokens.lastLocation⟩) c := Iff.rfl

@[simp] theorem comes_failNext {ask : α → Context → Prop} (fault : ParseFault) :
    Comes ask halt (failNext fault : Matcher α) env c ↔ halt (.error ⟨fault, c.tokens.location⟩) c :=
  Iff.rfl

@[simp] theorem comes_failAt {ask : α → Context → Prop} (l : Location) (fault : ParseFault) :
    Comes ask halt (failAt l fault : Matcher α) env c ↔ halt (.error ⟨fault, l⟩) c := Iff.rfl

@[simp] theorem comes_orFail {ask : α → Context → Prop} (a : Option α) (fault : SemanticFault) :
    Comes ask halt (orFail a fault) env c ↔
      (a = none → halt (.error ⟨.semantic fault, c.tokens.lastLocation⟩) c) ∧
        ∀ x, a = some x → ask x c := by
  cases a with
  | none => simp [orFail]
  | some x => simp [orFail]

@[simp] theorem comes_take {ask : α → Context → Prop} (v : Values) (a : Except GrammarError α) :
    Comes ask halt (take v a) env c ↔
      (∀ e, a = .error e → halt (.error ⟨.grammar e, v.location⟩) c) ∧ ∀ x, a = .ok x → ask x c := by
  cases a with
  | error e => simp [take]
  | ok x => simp [take]

@[simp] theorem comes_ruleId {ask : RuleId → Context → Prop} (name : String) :
    Comes ask halt (ruleId name) env c ↔
      (env.grammar.ruleId? name = none →
        halt (.error ⟨.grammar (.undefinedRule "<runtime>" name), c.tokens.location⟩) c) ∧
      ∀ id, env.grammar.ruleId? name = some id → ask id c := by
  cases known : env.grammar.ruleId? name with
  | none => simp [ruleId, known]
  | some id => simp [ruleId, known]

@[simp] theorem comes_sound {ask : α → Context → Prop} (a : Except GrammarError α) :
    Comes ask halt (sound a) env c ↔
      (∀ e, a = .error e → halt (.error ⟨.grammar e, c.tokens.location⟩) c) ∧
        ∀ x, a = .ok x → ask x c := by
  cases a with
  | error e => simp [sound]
  | ok x => simp [sound]

@[simp] theorem comes_live {ask : LiveGrammar → Context → Prop} :
    Comes ask halt live env c ↔ ask ⟨env.grammar, c.extensions⟩ c := Iff.rfl

end

end Matcher

open Matcher

section
variable {c d : Context} {misses : SemanticFault → Prop} {l : Location}

@[simp] theorem Context.objects_semantic (fault : SemanticFault) :
    c.Objects misses (.error ⟨.semantic fault, l⟩) d ↔
      misses fault ∧ l = c.tokens.lastLocation ∧ d.tokens = c.tokens := Iff.rfl

@[simp] theorem Context.objects_grammar (e : GrammarError) :
    c.Objects misses (.error ⟨.grammar e, l⟩) d ↔ d.tokens = c.tokens := Iff.rfl

@[simp] theorem Context.objects_ofSourceError (e : SourceError) :
    c.Objects misses (.error ⟨.ofSourceError e, l⟩) d ↔
      l = c.tokens.lastLocation ∧ d.tokens = c.tokens := by
  cases e <;> rfl

/-- A computation that objects leaves the tokens alone. -/
theorem Context.Objects.tokens {stop : Stop} (h : c.Objects misses stop d) : d.tokens = c.tokens := by
  unfold Context.Objects at h
  split at h
  · exact h.2.2
  · exact h.2
  · exact h.2
  · exact h
  · cases h

end

/-! ## Looking at the project and changing it -/

section
variable {b c : Context} {env : Surroundings} {misses : SemanticFault → Prop}

namespace Matcher

@[simp] theorem comes_project {ask : Plan.Project → Context → Prop} {halt : Stop → Context → Prop} :
    Comes ask halt project env c ↔
      (c.project = none → halt (.error ⟨.semantic .noProject, c.tokens.lastLocation⟩) c) ∧
        ∀ p, c.project = some p → ask p c := by
  simp [project]

@[simp] theorem comes_modifyProject {ask : Unit → Context → Prop} {halt : Stop → Context → Prop}
    (f : Plan.Project → Plan.Project) :
    Comes ask halt (modifyProject f) env c ↔
      (c.project = none → halt (.error ⟨.semantic .noProject, c.tokens.lastLocation⟩) c) ∧
        ∀ p, c.project = some p → ask () { c with project := some (f p) } := by
  simp [modifyProject]

/-- Whether a computation may go on in a state: it has the tokens ahead of another one, where a task or a
resource was there if there is one now. -/
structure Within (b c : Context) : Prop where
  tokens : c.tokens = b.tokens
  property : c.currentProperty? = none → b.currentProperty? = none

theorem Within.refl (c : Context) : Within c c := ⟨rfl, id⟩

/-- The current task or resource is found in the project. -/
theorem currentProperty?_eq {kind : Plan.PropertyKind} {index : Nat} {p : Plan.Project}
    (inside : c.property = some (kind, index)) (there : c.project = some p) :
    c.currentProperty? = (p.properties kind).get? index := by
  rw [Context.currentProperty?, inside, there]
  rfl

/-- The current task or resource is changed, if there is one, and is there still. -/
theorem comes_modifyProperty (h : Within b c) (hm : b.currentProperty? = none → misses .noProperty)
    (f : Plan.Property → Plan.Property) :
    Comes (fun _ d => Within b d) (b.Objects misses) (modifyProperty f) env c := by
  have lacks (none : c.currentProperty? = none) :
      b.Objects misses (.error ⟨.semantic .noProperty, c.tokens.lastLocation⟩) c :=
    ⟨hm (h.property none), congrArg _ h.tokens, h.tokens⟩
  simp only [modifyProperty, comes_bind, comes_get, comes_orFail, comes_modify]
  refine ⟨fun none => lacks ?_, fun current inside => ⟨fun none => lacks ?_, fun p there =>
    ⟨fun none => lacks ?_, fun q found => ⟨h.tokens, fun none => ?_⟩⟩⟩⟩
  · rw [Context.currentProperty?, none]
    rfl
  · rw [Context.currentProperty?, inside, none]
    rfl
  · rwa [currentProperty?_eq inside there]
  · rw [currentProperty?_eq (c := { c with project := some _ }) inside rfl,
      Plan.Project.properties_setProperties, if_pos rfl, Plan.PropertySet.get?_modify, if_pos rfl,
      found] at none
    cases none

theorem comes_setScenarioAttribute (h : Within b c)
    (hm : b.currentProperty? = none → misses .noProperty) (id : String) (value : Plan.AttributeValue) :
    Comes (fun _ d => Within b d) (b.Objects misses) (setScenarioAttribute id value) env c := by
  simp only [setScenarioAttribute, comes_bind, comes_get]
  exact comes_modifyProperty h hm _

/-- The current task or resource is looked at, if there is one. -/
theorem comes_currentProperty {ask : Plan.Property → Context → Prop} (ha : ∀ q, ask q c)
    (hp : c.project = none → misses .noProject) (hm : c.currentProperty? = none → misses .noProperty) :
    Comes ask (c.Objects misses) currentProperty env c := by
  simp only [currentProperty, comes_bind, comes_get, comes_orFail, comes_project]
  refine ⟨fun none => ⟨hm ?_, rfl, rfl⟩, fun current inside => ⟨fun none => ⟨hp none, rfl, rfl⟩,
    fun p there => ⟨fun none => ⟨hm ?_, rfl, rfl⟩, fun q _ => ha q⟩⟩⟩
  · rw [Context.currentProperty?, none]
    rfl
  · rwa [currentProperty?_eq inside there]

/-- The current report is looked at and changed, if there is one. -/
theorem comes_reportElement {ask : Plan.ReportElement → Context → Prop} (ha : ∀ e, ask e c)
    (hm : c.currentReport? = none → misses .noReport) :
    Comes ask (c.Objects misses) reportElement env c := by
  simp only [reportElement, comes_bind, comes_get, comes_orFail, comes_pure]
  refine ⟨fun none => ⟨hm ?_, rfl, rfl⟩, fun index inside => ⟨fun none => ⟨hm ?_, rfl, rfl⟩,
    fun p there => ⟨fun none => ⟨hm ?_, rfl, rfl⟩, fun r _ => ha r.element⟩⟩⟩
  · rw [Context.currentReport?, none]
    rfl
  · rw [Context.currentReport?, inside, none]
    rfl
  · rw [Context.currentReport?, inside, there]
    exact none

theorem comes_modifyReport (hm : c.currentReport? = none → misses .noReport)
    (f : Plan.ReportElement → Plan.ReportElement) :
    Comes (fun _ _ => True) (c.Objects misses) (modifyReport f) env c := by
  have looked : Comes (fun _ _ => True) (c.Objects misses) reportElement env c :=
    comes_reportElement (fun _ => trivial) hm
  simp only [reportElement, modifyReport, comes_bind, comes_get, comes_orFail, comes_modify] at looked ⊢
  exact looked

end Matcher

end

/-! ## Actions -/

section
variable (v : Values) (env : Surroundings) (c : Context)

theorem ProjectAction.objects (a : ProjectAction) :
    Comes (fun _ _ => True) (c.Objects ((Action.project a).Misses c)) (a.perform v) env c := by
  cases a <;> simp +contextual [perform, realFormat, modifySettings, Action.Misses]

theorem Matcher.objects_openScenario :
    Comes (fun _ _ => True) (c.Objects ((Action.scenario .header).Misses c)) (openScenario v) env c := by
  simp only [openScenario, comes_bind, comes_get, comes_project, comes_modify, comes_take]
  refine ⟨fun none => ⟨⟨none, rfl⟩, rfl, rfl⟩, fun p there => ⟨fun _ _ => rfl, fun id _ =>
    ⟨fun _ _ => rfl, fun name _ => ?_⟩⟩⟩
  split
  · exact ⟨trivial, rfl, rfl⟩
  · trivial

theorem ScenarioAction.objects (a : ScenarioAction) :
    Comes (fun _ _ => True) (c.Objects ((Action.scenario a).Misses c)) (a.perform v) env c := by
  cases a with
  | header =>
    simp only [perform, comes_bind, comes_pure]
    exact objects_openScenario v env c
  | enable enabled =>
    simp +contextual [perform, enableScenario, Action.Misses, Context.currentScenario?]
  | _ => simp +contextual [perform, closeScenario, scenarioIndex, Action.Misses]

theorem Matcher.objects_openProperty (kind : Plan.PropertyKind) (id name : String) :
    Comes (fun _ _ => True) (c.Objects ((Action.property (.header kind)).Misses c))
      (openProperty kind id name) env c := by
  simp only [openProperty, comes_bind, comes_get, comes_project]
  refine ⟨fun none => ⟨⟨none, rfl⟩, rfl, rfl⟩, fun p there => ?_⟩
  split
  · exact ⟨trivial, rfl, rfl⟩
  · trivial

theorem Matcher.objects_setScenarioAttribute {misses : SemanticFault → Prop}
    (hm : c.currentProperty? = none → misses .noProperty) (id : String) (value : Plan.AttributeValue) :
    Comes (fun _ _ => True) (c.Objects misses) (setScenarioAttribute id value) env c :=
  (comes_setScenarioAttribute (.refl c) hm id value).weaken fun _ _ _ => trivial

/-- Values are set one after the other, where the second one finds the task that the first one has
found. -/
theorem Matcher.objects_setTwice {misses : SemanticFault → Prop}
    (hm : c.currentProperty? = none → misses .noProperty) (first second : String)
    (value other : Plan.AttributeValue) :
    Comes (fun _ _ => True) (c.Objects misses)
      (do setScenarioAttribute first value; setScenarioAttribute second other) env c := by
  rw [comes_bind]
  refine (comes_setScenarioAttribute (.refl c) hm first value).weaken fun _ d follows => ?_
  exact (comes_setScenarioAttribute follows hm second other).weaken fun _ _ _ => trivial

theorem PropertyAction.objects (a : PropertyAction) :
    Comes (fun _ _ => True) (c.Objects ((Action.property a).Misses c)) (a.perform v) env c := by
  cases a with
  | header kind =>
    simp only [perform, comes_bind, comes_take, comes_pure]
    exact ⟨fun _ _ => rfl, fun id _ => ⟨fun _ _ => rfl, fun name _ =>
      objects_openProperty env c kind id name⟩⟩
  | allocate | flags | vacation =>
    simp only [perform, addAllocations, addFlags, addVacations, comes_bind, comes_get, comes_pure]
    exact objects_setScenarioAttribute env c (fun none => ⟨none, fun _ => rfl⟩) _ _
  | depends =>
    simp only [perform, comes_bind, comes_pure]
    exact objects_setScenarioAttribute env c (fun none => ⟨none, fun _ => rfl⟩) _ _
  | ticks id =>
    simp only [perform, comes_bind, comes_take, comes_pure]
    exact ⟨fun _ _ => rfl, fun _ _ => objects_setScenarioAttribute env c (fun none => ⟨none, fun _ => rfl⟩) _ _⟩
  | start | stop =>
    simp only [perform, comes_bind, comes_take, comes_pure]
    refine ⟨fun _ _ => rfl, fun _ _ => ?_⟩
    have twice := @objects_setTwice env c
    simp only [comes_bind] at twice
    exact twice (fun none => ⟨none, fun _ => rfl⟩) _ _ _ _
  | priority =>
    simp only [perform, comes_bind, comes_take, comes_ite, comes_fail, comes_pure]
    refine ⟨fun _ _ => rfl, fun priority _ => ?_⟩
    split
    · exact ⟨trivial, rfl, rfl⟩
    · exact objects_setScenarioAttribute env c (fun none => ⟨none, fun _ => rfl⟩) _ _
  | selectMode =>
    simp only [perform, comes_bind, comes_take]
    refine ⟨fun _ _ => rfl, fun word _ => ?_⟩
    split
    · trivial
    · exact ⟨trivial, rfl, rfl⟩
  | resourceId =>
    simp only [perform, knownResource, comes_bind, comes_take, comes_project]
    refine ⟨fun _ _ => rfl, fun id _ => ⟨fun none => ⟨⟨none, rfl⟩, rfl, rfl⟩, fun p _ => ?_⟩⟩
    split
    · trivial
    · exact ⟨trivial, rfl, rfl⟩
  | _ =>
    simp +contextual [perform, closeProperty, Matcher.leaveScenario, relativeTask, Action.Misses]

/-- An attribute is added to a schema, and the tokens ahead are those of before. -/
theorem Matcher.comes_defineAttribute (added : Plan.AttributeKind) (kind : Plan.PropertyKind)
    (d : Plan.AttributeDefinition) :
    Comes (fun _ d => d.tokens = c.tokens) (c.Objects ((Action.extend (.declare added)).Misses c))
      (defineAttribute kind d) env c := by
  simp only [defineAttribute, comes_bind, comes_project]
  refine ⟨fun none => ⟨⟨none, rfl⟩, rfl, rfl⟩, fun p _ => ?_⟩
  split
  · exact ⟨trivial, rfl, rfl⟩
  · exact rfl

theorem Matcher.objects_applyExtension (added : Plan.AttributeKind) (e : AttributeExtension) :
    Comes (fun _ _ => True) (c.Objects ((Action.extend (.declare added)).Misses c)) (applyExtension e)
      env c := by
  simp only [applyExtension, comes_bind, comes_get, comes_orFail, comes_live, comes_sound]
  refine ⟨fun _ => ⟨trivial, rfl, rfl⟩, fun target _ => ⟨fun _ _ => rfl, fun taken _ => ?_⟩⟩
  -- a keyword that is taken is objected to
  cases taken with
  | true => simp [Action.Misses]
  | false =>
    simp only [Bool.false_eq_true, if_false, comes_bind]
    refine (comes_defineAttribute env c added _ _).weaken fun _ d same => ?_
    simp [same]

theorem ExtendAction.objects (a : ExtendAction) :
    Comes (fun _ _ => True) (c.Objects ((Action.extend a).Misses c)) (a.perform v) env c := by
  cases a with
  | target =>
    simp only [perform, chooseTarget, comes_bind, comes_take, comes_ite, comes_pure, comes_fail]
    refine ⟨fun _ _ => rfl, fun word _ => ?_⟩
    split
    · simp
    · split
      · simp
      · exact ⟨trivial, rfl, rfl⟩
  | close => simp [perform]
  | declare kind =>
    simp only [perform, Matcher.declareAttribute, comes_bind, comes_take, comes_pure]
    exact ⟨fun _ _ => rfl, fun id _ => ⟨fun _ _ => rfl, fun name _ => objects_applyExtension env c kind _⟩⟩
  | id => simp [perform, extensionId, Action.Misses]
  | store id kind scenarioSpecific =>
    simp only [perform, comes_bind, comes_take, comes_ite, comes_pure]
    refine ⟨fun _ _ => rfl, fun value _ => ?_⟩
    have misses (none : c.currentProperty? = none) :
        (Action.extend (.store id kind scenarioSpecific)).Misses c .noProperty := ⟨none, fun _ => rfl⟩
    split
    · exact objects_setScenarioAttribute env c misses _ _
    · exact (comes_modifyProperty (.refl c) misses _).weaken fun _ _ _ => trivial

theorem Matcher.objects_sortCriterion (id : String) :
    Comes (fun _ _ => True) (c.Objects ((Action.report .sortPath).Misses c)) (sortCriterion id) env c := by
  unfold sortCriterion
  split <;> simp +contextual [sortDirection, Action.Misses]

theorem Matcher.comes_knownTask {ask : String → Context → Prop} {id : String} (h : ask id c) :
    Comes ask (c.Objects ((Action.report .taskRoot).Misses c)) (knownTask id) env c := by
  simp only [knownTask, comes_bind, comes_project]
  refine ⟨fun none => ⟨⟨none, rfl⟩, rfl, rfl⟩, fun p _ => ?_⟩
  split
  · exact h
  · exact ⟨trivial, rfl, rfl⟩

/-- What a report is to show is looked up in the state of before. -/
theorem ReportAction.comes_change (a : ReportAction) :
    Comes (fun _ d => d = c) (c.Objects ((Action.report a).Misses c)) (a.change v) env c := by
  cases a with
  | taskRoot =>
    simp only [change, comes_bind, comes_take, comes_pure]
    exact ⟨fun _ _ => rfl, fun id _ => comes_knownTask env c rfl⟩
  | _ =>
    simp +contextual [change, enabledScenarios, Action.Misses]

theorem ReportAction.objects (a : ReportAction) :
    Comes (fun _ _ => True) (c.Objects ((Action.report a).Misses c)) (a.perform v) env c := by
  cases a with
  | header =>
    simp +contextual [perform, openReport, Action.Misses]
  | close | column => simp [perform, closeColumn]
  | columnTitle => simp [perform, Matcher.setTitle, Action.Misses]
  | columnId =>
    simp only [perform, openColumn, comes_bind, comes_take, comes_orFail, comes_modify, comes_pure]
    exact ⟨fun _ _ => rfl, fun id _ => comes_reportElement (fun _ =>
      ⟨fun _ => ⟨trivial, rfl, rfl⟩, fun _ _ => trivial⟩) fun none => ⟨none, rfl⟩⟩
  | sortPath =>
    simp only [perform, comes_bind, comes_take, comes_pure]
    exact ⟨fun _ _ => rfl, fun id _ => objects_sortCriterion env c id⟩
  | sortTree => simp [perform, Action.Misses]
  | _ =>
    simp only [perform, comes_bind]
    refine (comes_change v env c _).weaken fun f d same => ?_
    subst same
    simp only [comes_pure]
    exact comes_modifyReport (fun none => ⟨none, rfl⟩) f

theorem Matcher.objects_operationOf (left : Plan.Operand) (chain : Option Value) :
    Comes (fun _ _ => True) (c.Objects ((Action.logical .operation).Misses c))
      (operationOf left chain) env c := by
  unfold operationOf
  split
  · next operator right => cases operator <;> cases right <;> simp [operatorOf, Action.Misses]
  · trivial

theorem LogicalAction.objects (a : LogicalAction) :
    Comes (fun _ _ => True) (c.Objects ((Action.logical a).Misses c)) (a.perform v) env c := by
  cases a with
  | operation =>
    simp only [perform, comes_bind, comes_take, comes_pure]
    exact ⟨fun _ _ => rfl, fun left _ => objects_operationOf env c left _⟩
  | attributeOf =>
    simp only [perform, attributeOperand, comes_bind, comes_take, comes_pure]
    refine ⟨fun _ _ => rfl, fun id _ => ?_⟩
    split <;> simp +contextual [Action.Misses]
  | name => simp +contextual [perform, declaredFlag, functionCall, Action.Misses]
  | _ => simp +contextual [perform, declaredFlag, Action.Misses]

/-- Where there is no interval nothing is missing. -/
theorem misses_of_intervalOf {start : Calendar.DateTime} {stop : Value} {fault : SemanticFault} (a : Action)
    (h : intervalOf start stop = .error fault) : a.Misses c fault := by
  unfold intervalOf at h
  cases ends : endOf start stop with
  | error e =>
    rw [ends] at h
    cases h
    unfold endOf at ends
    split at ends
    · cases ends
    · split at ends <;> cases ends
      trivial
    · cases ends
      trivial
  | ok d =>
    rw [ends] at h
    change (if d ≤ start then _ else _) = _ at h
    split at h
    · cases h
      trivial
    · cases h

theorem Matcher.comes_matchedInterval {ask : Calendar.Interval → Context → Prop} (a : Action)
    (h : ∀ i, ask i c) : Comes ask (c.Objects (a.Misses c)) (matchedInterval v) env c := by
  simp only [matchedInterval, comes_bind, comes_take]
  refine ⟨fun _ _ => rfl, fun start _ => ⟨fun _ _ => rfl, fun stop _ => ?_⟩⟩
  split
  · exact h _
  · next failed => exact ⟨misses_of_intervalOf c a failed, rfl, rfl⟩

theorem Matcher.objects_setWorkingHours (days : Calendar.DaySet) (ranges : List Calendar.TimeRange) :
    Comes (fun _ _ => True) (c.Objects ((Action.calendar .workingHours).Misses c))
      (setWorkingHours days ranges) env c := by
  simp only [setWorkingHours, comes_bind, comes_get]
  split
  · simp +contextual [modifySettings, Action.Misses]
  · next inside =>
    -- a resource is current, so it may be missed
    have misses (none : c.currentProperty? = none) :
        (Action.calendar .workingHours).Misses c .noProperty :=
      ⟨none, fun outside => by rw [outside] at inside; cases inside⟩
    simp only [comes_bind]
    refine comes_currentProperty (fun q => ?_) (fun none => ⟨none, rfl⟩) misses
    have stores (hours : Calendar.WorkingHours) : Comes (fun _ _ => True)
        (c.Objects ((Action.calendar .workingHours).Misses c))
        (modifyProperty (·.set "workinghours" (.workingHours (hours.setAll days ranges)))) env c :=
      (comes_modifyProperty (.refl c) misses _).weaken fun _ _ _ => trivial
    split
    · exact stores _
    · simp only [comes_bind, comes_project, comes_pure]
      exact ⟨fun none => ⟨⟨none, rfl⟩, rfl, rfl⟩, fun p _ => stores _⟩

theorem CalendarAction.objects (a : CalendarAction) :
    Comes (fun _ _ => True) (c.Objects ((Action.calendar a).Misses c)) (a.perform v) env c := by
  cases a with
  | workingHours =>
    simp only [perform, Matcher.workingHours, comes_bind, comes_take, comes_pure]
    refine ⟨fun _ _ => rfl, fun days _ => ?_⟩
    split
    · exact objects_setWorkingHours env c _ _
    · exact ⟨trivial, rfl, rfl⟩
  | dayRange =>
    simp only [perform, Matcher.dayRange, weekday, comes_bind, comes_take, comes_orFail]
    refine ⟨fun _ _ => rfl, fun name _ => ⟨fun _ => ⟨trivial, rfl, rfl⟩, fun first _ => ?_⟩⟩
    split <;> simp [Action.Misses]
  | interval =>
    simp only [perform, comes_bind, comes_pure]
    exact comes_matchedInterval v env c _ fun _ => trivial
  | projectInterval =>
    simp only [perform, Matcher.projectInterval, comes_bind, comes_pure]
    refine comes_matchedInterval v env c _ fun i => ?_
    simp +contextual [Action.Misses]
  | projectDate | timeRange =>
    simp +contextual [perform, Matcher.projectDate, Matcher.timeRange, Action.Misses]
  | _ => simp +contextual [perform, Action.Misses]

theorem Matcher.objects_includeFile {misses : SemanticFault → Prop} (path : String) :
    Comes (fun _ _ => True) (c.Objects misses) (includeFile path) env c := by
  simp only [includeFile, comes_bind, comes_read, comes_get, comes_modify]
  split
  · trivial
  · simp

/-- Whatever an action ends early for, it objects to. -/
theorem Action.objects {a : Action} (h : ∀ name, a ≠ .rule name)
    (matchRule : RuleId → Matcher (Option Value)) :
    Comes (fun _ _ => True) (c.Objects (a.Misses c)) (a.perform matchRule v) env c := by
  cases a with
  | rule name => exact absurd rfl (h name)
  | includeFile i =>
    simp only [perform, comes_bind, comes_take, comes_pure]
    exact ⟨fun _ _ => rfl, fun path _ => objects_includeFile env c path⟩
  | project a =>
    simp only [perform, comes_bind, comes_pure]
    exact a.objects v env c
  | scenario a => exact a.objects v env c
  | property a => exact a.objects v env c
  | extend a => exact a.objects v env c
  | report a => exact a.objects v env c
  | logical a => exact a.objects v env c
  | calendar a => exact a.objects v env c
  | _ => simp [perform, Action.Misses]

end

end Planfile
