import Planfile.Meaning
import Planfile.Proofs.Matching.Reading

/-!
# Planfile — what holds when an action is done

Tokens are matched by what is ahead, by the alternatives that have been added to the grammar and by
how deep rules are nested. Three kinds of action change that: those that go on with another file,
those that add alternatives, and those that match a rule themselves. All others are self-contained.
Most of these change nothing that is about tasks and resources either.

Main results:

* `Matcher.ends_bind` — what is asked of two computations is asked of the first one, with what the
  second one needs as what is asked of its end.
* `Matcher.ends_modifyProperty`, `Matcher.ends_openProperty` and their like — what has to hold before
  the steps that change the project.
* `Action.keeps_of_isReadOnly` — an action that only looks at the plan changes nothing but the journal.
* `Action.keeps_propertyState` — an action that keeps tasks and resources leaves alone what is about them.
* `Action.keeps_matchingState`, `Matcher.keeps_performed` — a self-contained action leaves alone by what
  tokens are matched.
-/

/-!
## What is asked of the end of an action

An action looks at the values of its pattern and at the state, and changes the state a few times. It
may object to what the plan says and end early. `Matcher.Ends` says of a computation in a state that
it objects or comes to its end, and what is asked of the value and of the state that it leaves then.
What is asked is handed backwards through an action, from its last step to its first: for each step
there is one lemma, which says what has to hold before it.
-/

namespace Planfile

/-- Whether a fault is an objection to what is said, or to the grammar, and not to a token. -/
def ParseFault.isObjection : ParseFault → Bool
  | .semantic _ | .grammar _ => true
  | _ => false

/-- Whether a computation has ended early for an objection. -/
def Stop.isObjection : Stop → Bool
  | .error e => e.fault.isObjection
  | .outOfFuel => false

namespace Plan.Property

/-- The working hours that a task or a resource has of its own. -/
def hours? (q : Property) : Option Calendar.WorkingHours :=
  match q.get? "workinghours" with
  | some (.workingHours hours) => some hours
  | _ => none

theorem hours?_eq_some_iff {q : Property} {hours : Calendar.WorkingHours} :
    q.hours? = some hours ↔ q.get? "workinghours" = some (.workingHours hours) := by
  unfold hours?
  split
  · next found => rw [found, Option.some.injEq, Option.some.injEq, AttributeValue.workingHours.injEq]
  · next none => exact ⟨nofun, fun found => (none _ found).elim⟩

end Plan.Property

/-- A scenario is added behind the others, unless one of them has its id. -/
theorem Plan.Project.addScenario_eq (p : Project) (s : Scenario) : p.addScenario s =
    if s.id ∈ p.scenarios.map (·.id) then .error ⟨s.id⟩
    else .ok { p with scenarios := p.scenarios ++ [s] } := by
  unfold addScenario scenarioIndex?
  cases found : p.scenarios.findIdx? (·.id == s.id) with
  | none =>
    rw [List.findIdx?_eq_none_iff] at found
    refine (if_neg fun mem => ?_).symm
    obtain ⟨other, there, same⟩ := List.mem_map.mp mem
    have differs := found other there
    rw [same, beq_self_eq_true] at differs
    cases differs
  | some i =>
    have taken : p.scenarios.any (·.id == s.id) = true := by
      rw [← List.findIdx?_isSome, found]
      rfl
    obtain ⟨other, there, same⟩ := List.any_eq_true.mp taken
    exact (if_pos (List.mem_map.mpr ⟨other, there, beq_iff_eq.mp same⟩)).symm

/-- The scenarios to which another one is added: if it is the first one that is declared, the one that is
always there gives way to it. -/
def Context.keptScenarios (c : Context) (p : Plan.Project) : List Plan.Scenario :=
  if c.scenario.isNone && !c.scenariosReplaced then [] else p.scenarios

namespace Matcher

/-- Whether a computation in some state objects, or comes to its end with the value and in the state
that are asked for. -/
def Ends (ask : α → Context → Prop) (m : Matcher α) (env : Surroundings) (c : Context) : Prop :=
  match m env c with
  | (.ok a, d) => ask a d
  | (.error stop, _) => stop.isObjection = true

section
variable {ask : α → Context → Prop} {m : Matcher α} {env : Surroundings} {c d : Context}

/-- What a computation has come to. -/
theorem Ends.of_ok (h : Ends ask m env c) {a : α} (run : m env c = (.ok a, d)) : ask a d := by
  rwa [Ends, run] at h

/-- Why a computation has ended early. -/
theorem Ends.of_error (h : Ends ask m env c) {stop : Stop} (run : m env c = (.error stop, d)) :
    stop.isObjection = true := by
  rwa [Ends, run] at h

/-- What is asked may be less. -/
theorem Ends.weaken {less : α → Context → Prop} (h : Ends ask m env c)
    (hl : ∀ a d, ask a d → less a d) : Ends less m env c := by
  unfold Ends at h ⊢
  cases run : m env c with
  | mk outcome d =>
    rw [run] at h
    cases outcome with
    | error stop => exact h
    | ok a => exact hl a d h

/-! ## Steps -/

@[simp] theorem ends_pure (a : α) : Ends ask (pure a) env c ↔ ask a c := Iff.rfl

/-- What is asked of two computations is asked of the first one, with what the second one needs. -/
@[simp] theorem ends_bind {ask : β → Context → Prop} (f : α → Matcher β) :
    Ends ask (m >>= f) env c ↔ Ends (fun a d => Ends ask (f a) env d) m env c := by
  rw [Ends, run_bind, Ends]
  rcases m env c with ⟨stop | a, d⟩ <;> rfl

@[simp] theorem ends_map {ask : β → Context → Prop} (f : α → β) :
    Ends ask (f <$> m) env c ↔ Ends (fun a d => ask (f a) d) m env c := by
  rw [Ends, run_map, Ends]
  rcases m env c with ⟨stop | a, d⟩ <;> rfl

/-- Of two computations, what is asked of the one that is run. -/
@[simp] theorem ends_ite {p : Prop} [Decidable p] {n : Matcher α} :
    Ends ask (if p then m else n) env c ↔ if p then Ends ask m env c else Ends ask n env c := by
  split <;> rfl

end

section
variable {env : Surroundings} {c : Context}

@[simp] theorem ends_get {ask : Context → Context → Prop} :
    Ends ask (get : Matcher Context) env c ↔ ask c c := Iff.rfl

@[simp] theorem ends_read {ask : Surroundings → Context → Prop} :
    Ends ask (read : Matcher Surroundings) env c ↔ ask env c := Iff.rfl

@[simp] theorem ends_modify {ask : Unit → Context → Prop} (f : Context → Context) :
    Ends ask (modify f : Matcher Unit) env c ↔ ask () (f c) := Iff.rfl

@[simp] theorem ends_report {ask : Unit → Context → Prop} (event : Log.Event) :
    Ends ask (report event) env c ↔ ask () { c with journal := c.journal.record event } := Iff.rfl

/-- What is objected to asks for nothing. -/
@[simp] theorem ends_fail {ask : α → Context → Prop} (fault : SemanticFault) :
    Ends ask (fail fault : Matcher α) env c ↔ True :=
  ⟨fun _ => trivial, fun _ => rfl⟩

/-- What is wrong with the grammar is objected to. -/
@[simp] theorem ends_failNext_grammar {ask : α → Context → Prop} (e : GrammarError) :
    Ends ask (failNext (.grammar e) : Matcher α) env c ↔ True :=
  ⟨fun _ => trivial, fun _ => rfl⟩

/-- A value that is there is taken, and none is objected to. -/
@[simp] theorem ends_orFail {ask : α → Context → Prop} (a : Option α) (fault : SemanticFault) :
    Ends ask (orFail a fault) env c ↔ ∀ x, a = some x → ask x c := by
  cases a with
  | none => simp [orFail]
  | some x => simp [orFail]

/-- A value of the right kind is taken, and any other is objected to. -/
@[simp] theorem ends_take {ask : α → Context → Prop} (v : Values) (a : Except GrammarError α) :
    Ends ask (take v a) env c ↔ ∀ x, a = .ok x → ask x c := by
  cases a with
  | error e => exact ⟨fun _ _ h => (by cases h), fun _ => rfl⟩
  | ok x => simp [take]

@[simp] theorem ends_ruleId {ask : RuleId → Context → Prop} (name : String) :
    Ends ask (ruleId name) env c ↔ ∀ id, env.grammar.ruleId? name = some id → ask id c := by
  cases known : env.grammar.ruleId? name with
  | none => simp [ruleId, known]
  | some id => simp [ruleId, known]

@[simp] theorem ends_sound {ask : α → Context → Prop} (a : Except GrammarError α) :
    Ends ask (sound a) env c ↔ ∀ x, a = .ok x → ask x c := by
  cases a with
  | error e => simp [sound]
  | ok x => simp [sound]

@[simp] theorem ends_live {ask : LiveGrammar → Context → Prop} :
    Ends ask live env c ↔ ask ⟨env.grammar, c.extensions⟩ c := Iff.rfl

/-! ## Looking at the project and changing it -/

@[simp] theorem ends_project {ask : Plan.Project → Context → Prop} :
    Ends ask project env c ↔ ∀ p, c.project = some p → ask p c := by
  simp [project]

@[simp] theorem ends_modifyProject {ask : Unit → Context → Prop} (f : Plan.Project → Plan.Project) :
    Ends ask (modifyProject f) env c ↔
      ∀ p, c.project = some p → ask () { c with project := some (f p) } := by
  simp [modifyProject]

@[simp] theorem ends_modifySettings {ask : Unit → Context → Prop}
    (f : Plan.Settings → Plan.Settings) :
    Ends ask (modifySettings f) env c ↔
      ∀ p, c.project = some p → ask () { c with project := some (p.modifySettings f) } := by
  simp [modifySettings]

/-- The current task or resource is looked at, if there is one. -/
@[simp] theorem ends_currentProperty {ask : Plan.Property → Context → Prop} :
    Ends ask currentProperty env c ↔ ∀ kind index, c.property = some (kind, index) →
      ∀ p, c.project = some p → ∀ q, (p.properties kind).get? index = some q → ask q c := by
  simp [currentProperty]

/-- The current task or resource is changed, if there is one. -/
@[simp] theorem ends_modifyProperty {ask : Unit → Context → Prop}
    (f : Plan.Property → Plan.Property) :
    Ends ask (modifyProperty f) env c ↔ ∀ kind index, c.property = some (kind, index) →
      ∀ p, c.project = some p → ∀ q, (p.properties kind).get? index = some q →
        ask () { c with
          project := some (p.setProperties kind ((p.properties kind).modify index f)) } := by
  simp [modifyProperty]

/-- Hours are set for the project, or for the current task or resource. There they go on from its own, or from
those of the project if it has none. -/
@[simp] theorem ends_setWorkingHours {ask : Unit → Context → Prop} (days : Calendar.DaySet)
    (ranges : List Calendar.TimeRange) :
    Ends ask (setWorkingHours days ranges) env c ↔
      (c.property = none → ∀ p, c.project = some p → ask () { c with
        project := some (p.modifySettings fun s =>
          { s with workingHours := s.workingHours.setAll days ranges }) }) ∧
      ∀ kind index, c.property = some (kind, index) → ∀ p, c.project = some p →
        ∀ q, (p.properties kind).get? index = some q → ask () { c with
          project := some (p.setProperties kind ((p.properties kind).modify index (·.set "workinghours"
            (.workingHours ((q.hours?.getD p.settings.workingHours).setAll days ranges))))) } := by
  rw [setWorkingHours, ends_bind, ends_get]
  cases current : c.property with
  | none => simp [current]
  | some inside =>
    simp only [ends_bind, ends_currentProperty, current, reduceCtorEq, false_imp_iff, true_and]
    refine forall₂_congr fun kind index => forall_congr' fun same => forall₂_congr fun p there =>
      forall₂_congr fun q found => ?_
    -- it has hours of its own, or no value, or one that is no hours
    rcases own : q.get? "workinghours" with _ | _ | _ | value <;>
      simp [Plan.Property.hours?, own, current, same, there, found]

/-- So it is enough that setting any hours does what is asked. -/
theorem Ends.setWorkingHours {ask : Unit → Context → Prop} {days : Calendar.DaySet}
    {ranges : List Calendar.TimeRange}
    (outside : c.property = none → ∀ p, c.project = some p → ask () { c with
      project := some (p.modifySettings fun s =>
        { s with workingHours := s.workingHours.setAll days ranges }) })
    (inside : ∀ hours, Ends ask (modifyProperty (·.set "workinghours" (.workingHours hours))) env c) :
    Ends ask (setWorkingHours days ranges) env c := by
  refine (ends_setWorkingHours days ranges).mpr ⟨outside, fun kind index current p there q found => ?_⟩
  exact (ends_modifyProperty _).mp (inside _) kind index current p there q found

/-- The days have to be a set of days. -/
@[simp] theorem ends_workingHours {ask : Unit → Context → Prop} (v : Values) :
    Ends ask (workingHours v) env c ↔ ∀ days, v.required 1 = .ok (.weekDays days) →
      Ends ask (setWorkingHours days ((v.list 2).filterMap (·.timeRange?))) env c := by
  rw [workingHours, ends_bind, ends_take]
  constructor
  · exact fun h days given => h _ given
  · intro h value given
    cases value with
    | weekDays days => exact h days given
    | _ => simp

/-- An attribute of the current task or resource is set in the current scenario. -/
@[simp] theorem ends_setScenarioAttribute {ask : Unit → Context → Prop} (id : String)
    (value : Plan.AttributeValue) :
    Ends ask (setScenarioAttribute id value) env c ↔
      Ends ask (modifyProperty (·.setScenario c.scenarioIndex id value)) env c := by
  simp [setScenarioAttribute]

/-- A task or a resource is added and gets what it inherits, unless its id is taken. -/
@[simp] theorem ends_openProperty {ask : Unit → Context → Prop} (kind : Plan.PropertyKind)
    (id name : String) :
    Ends ask (openProperty kind id name) env c ↔ ∀ p, c.project = some p →
      ∀ grown, (p.properties kind).add? id name (openProperty? c kind) = .ok grown →
        ask () { c with
          project := some (p.setProperties kind
            (grown.inheritAttributes (p.properties kind).length))
          property := some (kind, (p.properties kind).length) } := by
  simp only [openProperty, ends_bind, ends_get, ends_project]
  refine forall_congr' fun p => imp_congr_right fun _ => ?_
  cases (p.properties kind).add? id name (openProperty? c kind) with
  | error e => simp
  | ok grown => simp

/-- A scenario is added below the one whose body is read, unless its id is taken. -/
@[simp] theorem ends_openScenario {ask : Unit → Context → Prop} (v : Values) :
    Ends ask (openScenario v) env c ↔ ∀ p, c.project = some p → ∀ id, v.string 1 = .ok id →
      ∀ name, v.string 2 = .ok name → id ∉ (c.keptScenarios p).map (·.id) →
        ask () { c with
          project := some { p with
            scenarios := c.keptScenarios p ++ [.declared id name c.scenario] }
          scenariosReplaced := true
          scenario := some (c.keptScenarios p).length } := by
  simp only [openScenario, ends_bind, ends_get, ends_project, ends_modify, ends_take]
  refine forall_congr' fun p => imp_congr_right fun _ => forall_congr' fun id => imp_congr_right fun _ =>
    forall_congr' fun name => imp_congr_right fun _ => ?_
  generalize hq : (if (c.scenario.isNone && !c.scenariosReplaced) = true then p.clearScenarios
    else p) = q
  have kept : q = { p with scenarios := c.keptScenarios p } := by
    rw [← hq, Context.keptScenarios]
    split <;> rfl
  subst kept
  have adds := Plan.Project.addScenario_eq { p with scenarios := c.keptScenarios p }
    (.declared id name c.scenario)
  by_cases taken : id ∈ (c.keptScenarios p).map (·.id)
  · rw [adds.trans (if_pos taken), ends_fail, true_iff]
    exact fun free => absurd taken free
  · rw [adds.trans (if_neg taken), ends_modify]
    exact ⟨fun h _ => h, fun h => h taken⟩

/-- An attribute is added to the schema, unless its id is taken. -/
@[simp] theorem ends_defineAttribute {ask : Unit → Context → Prop} (kind : Plan.PropertyKind)
    (d : Plan.AttributeDefinition) :
    Ends ask (defineAttribute kind d) env c ↔ ∀ p, c.project = some p →
      ∀ set, (p.properties kind).define? d = .ok set →
        ask () { c with project := some (p.setProperties kind set) } := by
  simp only [defineAttribute, ends_bind, ends_project]
  refine forall_congr' fun p => imp_congr_right fun _ => ?_
  cases (p.properties kind).define? d with
  | error e => simp
  | ok set => simp

/-- An attribute is added to the schema of what is extended and to the grammar, unless its keyword or its id
is taken. -/
theorem ends_applyExtension {ask : Unit → Context → Prop} (e : AttributeExtension)
    (ha : ∀ target p set symbols journal, c.extendTarget = some target → c.project = some p →
      LiveGrammar.ruleAccepts ⟨env.grammar, c.extensions⟩ target.rule (.id e.keyword) = .ok false →
      (p.properties target.kind).define? e.definition = .ok set →
      e.symbols.mapM env.grammar.symbol = .ok symbols →
      ask () { c with
        project := some (p.setProperties target.kind set)
        extensions := c.extensions ++
          [(if e.scenarioSpecific then target.scenarioRule else target.rule, ⟨symbols, some e.action⟩)]
        journal }) :
    Ends ask (applyExtension e) env c := by
  simp only [applyExtension, ends_bind, ends_get, ends_orFail, ends_live, ends_sound]
  intro target aimed taken answer
  -- a keyword that is taken is objected to
  cases taken with
  | true => simp
  | false =>
    simp only [Bool.false_eq_true, if_false, ends_bind, ends_defineAttribute, ends_read, ends_sound,
      ends_modify, ends_ite, ends_report, ends_pure]
    intro p there set defined symbols resolved
    -- at last the addition may be reported, which changes the journal alone
    split
    · exact ha target p set symbols _ aimed there answer defined resolved
    · exact ha target p set symbols c.journal aimed there answer defined resolved

@[simp] theorem ends_modifyReport {ask : Unit → Context → Prop}
    (f : Plan.ReportElement → Plan.ReportElement) :
    Ends ask (modifyReport f) env c ↔ ∀ index, c.report = some index →
      ∀ p, c.project = some p → ∀ r, p.reports[index]? = some r →
        ask () { c with
          project := some { p with
            reports := p.reports.modify index fun r => { r with element := f r.element } } } := by
  simp [modifyReport]

@[simp] theorem ends_reportElement {ask : Plan.ReportElement → Context → Prop} :
    Ends ask reportElement env c ↔ ∀ index, c.report = some index →
      ∀ p, c.project = some p → ∀ r, p.reports[index]? = some r → ask r.element c := by
  simp [reportElement]

end

end Matcher

end Planfile

namespace Planfile

/-- The part of a state by which tokens are matched. -/
structure MatchingState where
  tokens : TokenSource
  extensions : List (RuleId × Pattern)
  depth : Nat

/-- The part of a state that is about tasks and resources, with that by which tokens are matched. -/
structure PropertyState where
  matchingState : MatchingState
  /-- The task or resource whose body is read. -/
  property : Option (Plan.PropertyKind × Nat)
  target : Option ExtendTarget
  /-- All tasks and all resources of the project. -/
  sets : Option (Plan.PropertySet × Plan.PropertySet)

namespace Context

/-- The part of a state by which tokens are matched. -/
@[simp] def matchingState (c : Context) : MatchingState := ⟨c.tokens, c.extensions, c.depth⟩

/-- The part of a state that is about tasks and resources. -/
@[simp] def propertyState (c : Context) : PropertyState :=
  ⟨c.matchingState, c.property, c.extendTarget, c.project.map fun p => (p.tasks, p.resources)⟩

end Context

/-! ## Actions -/

/-- Whether an action on the project leaves tasks and resources alone. -/
def ProjectAction.keepsProperties : ProjectAction → Bool
  | .header => false
  | _ => true

/-- Whether an action on tasks and resources only looks at them. -/
def PropertyAction.keepsProperties : PropertyAction → Bool
  | .leaveScenario | .relativeId | .resourceId | .allocation | .alternatives | .selectMode => true
  | _ => false

/-- Whether an action on added attributes is only about their names. -/
def ExtendAction.keepsProperties : ExtendAction → Bool
  | .id => true
  | _ => false

/-- Whether an action on dates, times and lengths sets nothing. -/
def CalendarAction.keepsProperties : CalendarAction → Bool
  | .workingHours => false
  | _ => true

/-- Whether an action on tasks and resources changes nothing. -/
def PropertyAction.isReadOnly (a : PropertyAction) : Bool := a.keepsProperties && a != .leaveScenario

/-- Whether an action on reports changes nothing. -/
def ReportAction.isReadOnly : ReportAction → Bool
  | .sortPath | .sortTree => true
  | _ => false

/-- Whether an action only looks at the plan. -/
def Action.isReadOnly : Action → Bool
  | .includeFile _ | .rule _ | .project _ => false
  | .scenario a => a == .index
  | .property a => a.isReadOnly
  | .extend a => a == .id
  | .report a => a.isReadOnly
  | .calendar a => a.keepsProperties
  | _ => true

/-- Whether an action neither changes by what tokens are matched nor what is about tasks and
resources. -/
def Action.keepsProperties : Action → Bool
  | .includeFile _ | .rule _ => false
  | .project a => a.keepsProperties
  | .property a => a.keepsProperties
  | .extend a => a.keepsProperties
  | .calendar a => a.keepsProperties
  | _ => true

/-- Whether an action neither goes on with another file, nor adds to the grammar, nor matches a rule
itself. -/
def Action.isSelfContained : Action → Bool
  | .includeFile _ | .rule _ | .extend (.declare _) => false
  | _ => true

/-- Whether the action of a pattern, if there is one, is self-contained. -/
def Pattern.isSelfContained (p : Pattern) : Bool := p.action.all (·.isSelfContained)

namespace Matcher

/-- Whether a computation leaves alone what is seen of the state. -/
def Keeps (view : Context → σ) (m : Matcher α) : Prop :=
  ∀ env c, Ends (fun _ d => view d = view c) m env c

/-- What leaves a part alone leaves alone what is seen of the part. -/
theorem Keeps.seen {view : Context → σ} {m : Matcher α} (h : Keeps view m) (f : σ → τ) :
    Keeps (fun c => f (view c)) m :=
  fun env c => (h env c).weaken fun _ _ same => congrArg f same

section
variable {env : Surroundings} {c : Context}

/-! ## Looking at the plan -/

@[simp] theorem ends_matchedInterval {ask : Calendar.Interval → Context → Prop} (v : Values) :
    Ends ask (matchedInterval v) env c ↔ ∀ start, v.date 0 = .ok start →
      ∀ stop, v.required 1 = .ok stop → ∀ i, intervalOf start stop = .ok i → ask i c := by
  simp only [matchedInterval, ends_bind, ends_take]
  refine forall_congr' fun start => imp_congr_right fun _ => ?_
  refine forall_congr' fun stop => imp_congr_right fun _ => ?_
  cases intervalOf start stop with
  | error e => simp
  | ok i => simp

@[simp] theorem ends_knownTask {ask : String → Context → Prop} (id : String) :
    Ends ask (knownTask id) env c ↔
      ∀ p, c.project = some p → (p.tasks.byId? id).isSome → ask id c := by
  simp only [knownTask, ends_bind, ends_project]
  refine forall_congr' fun p => imp_congr_right fun _ => ?_
  cases p.tasks.byId? id with
  | none => simp
  | some t => simp

@[simp] theorem ends_knownResource {ask : String → Context → Prop} (id : String) :
    Ends ask (knownResource id) env c ↔
      ∀ p, c.project = some p → (p.resources.byId? id).isSome → ask id c := by
  simp only [knownResource, ends_bind, ends_project]
  refine forall_congr' fun p => imp_congr_right fun _ => ?_
  cases p.resources.byId? id with
  | none => simp
  | some r => simp

/-- An operation is put together without a look at the plan. -/
theorem ends_operationOf {ask : Plan.Operation → Context → Prop} (left : Plan.Operand)
    (chain : Option Value) (h : ∀ o, ask o c) : Ends ask (operationOf left chain) env c := by
  unfold operationOf
  split
  · next operator right =>
    cases operator <;> cases right <;> simp [operatorOf, h]
  · exact h _

/-- The attribute that an id names is looked up. -/
theorem ends_attributeOperand {ask : Plan.Operand → Context → Prop} (id : String)
    (h : ∀ o, ask o c) : Ends ask (attributeOperand id) env c := by
  unfold attributeOperand
  split <;> simp [h]

/-- What rows are ordered by is looked up. -/
theorem ends_sortCriterion {ask : Plan.SortCriterion → Context → Prop} (id : String)
    (h : ∀ s, ask s c) : Ends ask (sortCriterion id) env c := by
  unfold sortCriterion
  split <;> simp [sortDirection, h]

end

section
variable (v : Values)

/-! ## Actions that keep tasks and resources -/

/-- Scenarios are no part of tasks and resources. -/
theorem keeps_openScenario : Keeps Context.propertyState (openScenario v) := by
  intro env c
  rw [ends_openScenario]
  intro p known id _ name _ _
  simp [known]

end

end Matcher

open Matcher

section
variable (v : Values) {view : Context → σ}

theorem PropertyAction.keeps_of_isReadOnly {a : PropertyAction} (h : a.isReadOnly = true) :
    Keeps view (a.perform v) := by
  intro env c
  cases a with
  | alternatives => simp [perform]
  | relativeId => simp [perform, relativeTask]
  | resourceId | allocation => simp [perform]
  | selectMode =>
    simp only [perform, ends_bind, ends_take]
    intro word _
    split <;> simp
  | _ => cases h

theorem ExtendAction.keeps_id : Keeps view (ExtendAction.id.perform v) := by
  intro env c
  simp [perform, extensionId]

theorem ReportAction.keeps_of_isReadOnly {a : ReportAction} (h : a.isReadOnly = true) :
    Keeps view (a.perform v) := by
  intro env c
  -- a path to sort by is looked up
  cases a with
  | sortTree => simp [perform]
  | sortPath =>
    simp only [perform, ends_bind, ends_take, ends_pure]
    intro id _
    exact ends_sortCriterion id fun _ => rfl
  | _ => cases h

theorem LogicalAction.keeps (noise : ∀ c journal, view { c with journal } = view c)
    (a : LogicalAction) : Keeps view (a.perform v) := by
  intro env c
  cases a with
  | operation =>
    simp only [perform, ends_bind, ends_take, ends_pure]
    intro left _
    exact ends_operationOf left _ fun _ => rfl
  | attributeOf =>
    simp only [perform, ends_bind, ends_take, ends_pure]
    intro id _
    exact ends_attributeOperand id fun _ => rfl
  | name => simp [perform, declaredFlag, functionCall, noise]
  | _ => simp [perform, declaredFlag]

theorem CalendarAction.keeps_of_keepsProperties {a : CalendarAction} (h : a.keepsProperties = true) :
    Keeps view (a.perform v) := by
  intro env c
  cases a with
  | workingHours => cases h
  | dayRange =>
    simp only [perform, Matcher.dayRange, weekday, ends_bind, ends_take, ends_orFail]
    intros
    split <;> simp
  | projectDate | projectInterval | timeRange =>
    simp [perform, Matcher.projectDate, Matcher.projectInterval, Matcher.timeRange]
  | _ => simp [perform]

/-- An action that only looks at the plan changes nothing but the journal. -/
theorem Action.keeps_of_isReadOnly (noise : ∀ c journal, view { c with journal } = view c) {a : Action}
    (h : a.isReadOnly = true) (matchRule : RuleId → Matcher (Option Value)) :
    Keeps view (a.perform matchRule v) := by
  intro env c
  cases a with
  | includeFile i | rule name | project a => cases h
  | scenario a =>
    obtain rfl := beq_iff_eq.mp h
    simp [perform, ScenarioAction.perform, scenarioIndex]
  | property a => exact a.keeps_of_isReadOnly v h env c
  | extend a =>
    obtain rfl := beq_iff_eq.mp h
    exact ExtendAction.keeps_id v env c
  | report a => exact a.keeps_of_isReadOnly v h env c
  | logical a => exact a.keeps v noise env c
  | calendar a => exact a.keeps_of_keepsProperties v h env c
  | _ => simp [perform]

end

section
variable (v : Values)

theorem ProjectAction.keeps_propertyState {a : ProjectAction} (h : a.keepsProperties = true) :
    Keeps Context.propertyState (a.perform v) := by
  intro env c
  cases a with
  | header => cases h
  | _ => simp +contextual [perform, realFormat, Plan.Project.modifySettings]

theorem ScenarioAction.keeps_propertyState (a : ScenarioAction) :
    Keeps Context.propertyState (a.perform v) := by
  intro env c
  cases a with
  | header =>
    simp only [perform, ends_bind, ends_pure]
    exact keeps_openScenario v env c
  | _ => simp +contextual [perform, closeScenario, enableScenario, scenarioIndex]

theorem PropertyAction.keeps_propertyState {a : PropertyAction} (h : a.keepsProperties = true) :
    Keeps Context.propertyState (a.perform v) := by
  by_cases readOnly : a.isReadOnly = true
  · exact a.keeps_of_isReadOnly v readOnly
  intro env c
  cases a with
  | leaveScenario => simp [perform, Matcher.leaveScenario]
  | relativeId | resourceId | allocation | alternatives | selectMode => exact absurd rfl readOnly
  | _ => cases h

theorem ReportAction.keeps_propertyState (a : ReportAction) :
    Keeps Context.propertyState (a.perform v) := by
  by_cases readOnly : a.isReadOnly = true
  · exact a.keeps_of_isReadOnly v readOnly
  -- reports stand beside tasks and resources
  intro env c
  cases a with
  | header => simp +contextual [perform, openReport]
  | close => simp [perform]
  | column | columnId | columnTitle => simp [perform, openColumn, closeColumn, Matcher.setTitle]
  | sortPath | sortTree => exact absurd rfl readOnly
  | _ => simp +contextual [perform, change, enabledScenarios]

/-- An action that keeps tasks and resources leaves alone what is about them. -/
theorem Action.keeps_propertyState {a : Action} (h : a.keepsProperties = true)
    (matchRule : RuleId → Matcher (Option Value)) :
    Keeps Context.propertyState (a.perform matchRule v) := by
  by_cases readOnly : a.isReadOnly = true
  · exact a.keeps_of_isReadOnly v (fun _ _ => rfl) readOnly matchRule
  intro env c
  cases a with
  | project a =>
    simp only [perform, ends_bind, ends_pure]
    exact a.keeps_propertyState v h env c
  | scenario a => exact a.keeps_propertyState v env c
  | property a => exact a.keeps_propertyState v h env c
  | extend a =>
    cases a with
    | id => exact absurd rfl readOnly
    | _ => cases h
  | report a => exact a.keeps_propertyState v env c
  | calendar a => exact absurd h readOnly
  | includeFile i | rule name => cases h
  | _ => exact absurd rfl readOnly

/-! ## Self-contained actions -/

/-- Hours that are set are those of the project, or those of the current resource. -/
theorem Matcher.keeps_workingHours : Keeps Context.matchingState (Matcher.workingHours v) := by
  intro env c
  simp only [ends_workingHours, ends_setWorkingHours]
  exact fun days _ => ⟨fun _ _ _ => rfl, fun _ _ _ _ _ _ _ => rfl⟩

/-- Going on with a file changes the tokens ahead and the journal, and gives no value. -/
theorem Action.eq_of_run_includeFile {i : Nat} {matchRule : RuleId → Matcher (Option Value)}
    {env : Surroundings} {c d : Context} {x : Option Value}
    (run : (Action.includeFile i).perform matchRule v env c = (.ok x, d)) :
    x = none ∧ ∃ path tokens journal, v.string i = .ok path ∧ d = { c with tokens, journal } ∧
      c.tokens.pushInclude? env.preferences env.files path = .ok tokens := by
  rw [perform] at run
  obtain ⟨path, e, taken, goesOn⟩ := exists_of_run_bind run
  have ends : Ends (fun text e => v.string i = .ok text ∧ e = c) (take v (v.string i)) env c :=
    (ends_take v _).mpr fun _ given => ⟨given, rfl⟩
  obtain ⟨given, rfl⟩ := ends.of_ok taken
  obtain ⟨_, f, included, last⟩ := exists_of_run_bind goesOn
  obtain ⟨tokens, journal, rfl, opened⟩ := Matcher.eq_of_run_includeFile included
  cases last
  exact ⟨rfl, path, tokens, journal, given, rfl, opened⟩

/-- A self-contained action leaves alone by what tokens are matched. -/
theorem Action.keeps_matchingState {a : Action} (h : a.isSelfContained = true)
    (matchRule : RuleId → Matcher (Option Value)) :
    Keeps Context.matchingState (a.perform matchRule v) := by
  by_cases neutral : a.keepsProperties = true
  · exact (a.keeps_propertyState v neutral matchRule).seen PropertyState.matchingState
  -- those that do not keep them set something that is about a task or resource
  intro env c
  cases a with
  | project a =>
    cases a with
    | header => simp [perform, ProjectAction.perform]
    | _ => exact absurd rfl neutral
  | property a =>
    cases a with
    | header kind => simp [perform, PropertyAction.perform, leaveScenario]
    | close => simp [perform, PropertyAction.perform, closeProperty]
    | allocate | flags | vacation =>
      simp [perform, PropertyAction.perform, addAllocations, addFlags, addVacations]
    | depends | ticks id | start | stop => simp [perform, PropertyAction.perform]
    | priority => simp [perform, PropertyAction.perform]
    | _ => exact absurd rfl neutral
  | extend a =>
    cases a with
    | target => simp [perform, ExtendAction.perform, chooseTarget]
    | close => simp [perform, ExtendAction.perform]
    | store id kind scenarioSpecific => simp [perform, ExtendAction.perform]
    | declare kind => cases h
    | id => exact absurd rfl neutral
  | calendar a =>
    cases a with
    | workingHours =>
      simp only [perform, CalendarAction.perform, ends_bind, ends_pure]
      exact keeps_workingHours v env c
    | _ => exact absurd rfl neutral
  | includeFile i | rule name => cases h
  | _ => exact absurd rfl neutral

end

namespace Matcher

/-! ## Patterns -/

section
variable (matchRule : RuleId → Matcher (Option Value))

/-- What is done when the symbols of a pattern have been matched. -/
def performed [Meaning] (p : Pattern) (location : Location) (items : List MatchedValue) :
    Matcher (Option Value) :=
  match p.action with
  | some action => do
    report <| (Log.Event.debug "Running pattern action").detail "symbols" (toString items.length)
    Meaning.perform matchRule ⟨items, location⟩ action
  | none => return none

/-- A pattern is matched by its symbols, and then its action is performed. -/
theorem run_matchPattern [Meaning] (p : Pattern) (env : Surroundings) (c : Context) :
    matchPattern matchRule p env c =
      (matchSymbols matchRule p.symbols >>= performed matchRule p c.tokens.location) env c := by
  rw [matchPattern, run_bind, run_get]
  rfl

/-- The action of a pattern is performed, and before that the journal says so. -/
theorem exists_run_performed {p : Pattern} {a : Action} (h : p.action = some a) (location : Location)
    (items : List MatchedValue) (env : Surroundings) (c : Context) :
    ∃ journal, performed matchRule p location items env c =
      a.perform matchRule ⟨items, location⟩ env { c with journal } := by
  rw [performed, h]
  exact ⟨_, rfl⟩

/-- A pattern without an action gives nothing and changes nothing, and of any other one the action has been
performed. -/
theorem cases_of_run_performed {matchRule : RuleId → Matcher (Option Value)} {p : Pattern}
    {location : Location} {items : List MatchedValue} {env : Surroundings} {c d : Context}
    {r : Except Stop (Option Value)} (run : performed matchRule p location items env c = (r, d)) :
    (p.action = none ∧ r = .ok none ∧ c = d) ∨
      ∃ a journal, p.action = some a ∧
        a.perform matchRule ⟨items, location⟩ env { c with journal } = (r, d) := by
  cases action : p.action with
  | none =>
    rw [performed, action] at run
    obtain ⟨rfl, rfl⟩ := Prod.mk.inj run
    exact .inl ⟨rfl, rfl, rfl⟩
  | some a =>
    obtain ⟨journal, same⟩ := exists_run_performed matchRule action location items env c
    exact .inr ⟨a, journal, rfl, same ▸ run⟩

/-- Where the action of a pattern is self-contained, only the symbols are what tokens are matched
by. -/
theorem keeps_performed {p : Pattern} (h : p.isSelfContained = true) (location : Location)
    (items : List MatchedValue) : Keeps Context.matchingState (performed matchRule p location items) := by
  intro env c
  rw [performed]
  cases ha : p.action with
  | none => exact (ends_pure none).mpr rfl
  | some action =>
    have selfContained : action.isSelfContained = true := by
      simpa [Pattern.isSelfContained, ha] using h
    rw [ends_bind, ends_report]
    exact action.keeps_matchingState _ selfContained matchRule env _

end

end Matcher

end Planfile
