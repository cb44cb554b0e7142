import Planfile.Proofs.Parallel.Action.Project

/-!
# Planfile — actions in parallel

An action that is performed on values that look the same does the same in two runs. The exceptions are
those that go on with another file or another rule, and those that look at the place itself; the language
has none of the latter two kinds.

Main results:

* `LogicalAction.parallel_perform`, `CalendarAction.parallel_perform` — these values are found in parallel.
* `ExtendAction.parallel_perform`, `ReportAction.parallel_perform` — these statements are performed in
  parallel.
* `Action.parallel_perform` — an action is performed in parallel.
-/

/-!
## Expressions and times in parallel

The values that statements are made of are the same for both runs, except that an expression keeps its
place. The one thing that tells of the place of a call goes to the journal.
-/

namespace Planfile

open Plan (Project)
open Matcher

variable {L : RunRelation} {v w : Values}

/-! ## Logical expressions -/

namespace RunRelation

/-- What does not look at a value does the same for values that look the same. -/
theorem parallel_of_blind {f : Value → Matcher α} (hf : Value.Blind f) (steady : ∀ a, L.Steady (f a))
    {a b : Value} (same : b.through L.view = a.through L.view) : L.Parallel Eq (f a) (f b) := by
  rw [hf.eq same]
  exact steady a

theorem steady_operatorOf (a : Value) : L.Steady (operatorOf a) := by
  cases a with
  | str symbol => exact steady_orFail _ _
  | _ => exact parallel_fail _

theorem steady_operationOf (left : Plan.Operand) (a : Value) :
    L.Steady (operationOf left (some a)) := by
  cases a with
  | pair operator right =>
    refine (steady_operatorOf operator).andThen fun operator => ?_
    cases right with
    | operand o => exact parallel_pure rfl
    | _ => exact parallel_fail _
  | _ => exact parallel_pure rfl

theorem steady_attributeOperand (id : String) : L.Steady (attributeOperand id) := by
  unfold attributeOperand
  split
  · refine parallel_project.bind fun p q same => ?_
    have index (id : String) : q.scenarioIndex? id = p.scenarioIndex? id :=
      (congrArg (·.scenarioIndex? id) same :)
    rw [index]
    exact (steady_orFail _ _).andThen fun index => parallel_pure rfl
  · exact parallel_fail _

theorem steady_declaredFlag (id : String) : L.Steady (declaredFlag id) := by
  refine parallel_project.bind fun p q same => ?_
  have known : q.hasFlag id = p.hasFlag id := (congrArg (·.hasFlag id) same :)
  rw [known]
  split
  · exact parallel_pure rfl
  · exact parallel_fail _

/-- The same call is meant, wherever it is written. -/
theorem parallel_functionCall (function : String) (arguments : Nat) (location location' : Location) :
    L.Parallel Eq (functionCall function arguments location)
      (functionCall function arguments location') :=
  (parallel_report _ _).andThen fun _ => parallel_pure rfl

/-- What follows an operand makes the same operation of it. -/
theorem parallel_operationOf (left : Plan.Operand) {rest rest' : Option Value}
    (h : Value.Same L.view rest rest') :
    L.Parallel Eq (operationOf left rest) (operationOf left rest') := by
  cases rel_of_map_eq h with
  | none => exact parallel_pure rfl
  | some same =>
    refine parallel_of_blind (f := fun a => operationOf left (some a)) (fun view a => ?_)
      (steady_operationOf left) same
    cases a with
    | pair operator right => cases operator <;> cases right <;> rfl
    | _ => rfl

end RunRelation

open RunRelation

theorem LogicalAction.parallel_perform (hv : v.Same L.view w) (a : LogicalAction) :
    L.Parallel (Value.Same L.view) (a.perform v) (a.perform w) := by
  cases a with
  | expression =>
    -- the one value that keeps its place
    refine (parallel_taken (hv.operation 0)).andThen fun operation => parallel_pure ?_
    simp [Value.Same, Value.through, hv.place operation]
  | operation =>
    refine (parallel_taken (hv.operand 0)).andThen fun left => ?_
    exact (parallel_operationOf left (hv.values 1)).map fun _ _ same => same ▸ rfl
  | nested => exact (parallel_taken (hv.operation 1)).map fun _ _ same => same ▸ rfl
  | negation => exact (parallel_taken (hv.operand 1)).map fun _ _ same => same ▸ rfl
  | attributeOf =>
    refine (parallel_taken (hv.string 0)).andThen fun id => ?_
    exact (steady_attributeOperand id).map fun _ _ same => same ▸ rfl
  | date => exact (parallel_taken (hv.date 0)).map fun _ _ same => same ▸ rfl
  | name =>
    -- a name with arguments is a call, any other one is a flag
    have arguments := congrArg List.length (hv.list 1)
    simp only [List.length_map] at arguments
    refine (parallel_taken (hv.string 0)).andThen fun id => ?_
    dsimp only
    rw [hv.isPresent, arguments]
    split
    · exact (parallel_functionCall _ _ _ _).andThen fun _ => parallel_pure rfl
    · refine Parallel.andThen ?_ fun _ => parallel_pure rfl
      exact (steady_declaredFlag id).map fun _ _ same => same ▸ rfl
  | integer => exact (parallel_taken (hv.int 0)).map fun _ _ same => same ▸ rfl
  | string => exact (parallel_taken (hv.string 0)).map fun _ _ same => same ▸ rfl
  | arguments => exact parallel_pure (by simp [Value.Same, hv.list 1])
  | flag =>
    refine (parallel_taken (hv.string 0)).andThen fun id => ?_
    exact (steady_declaredFlag id).map fun _ _ same => same ▸ rfl

/-! ## Dates, times and lengths -/

/-- The interval to some end does not look at expressions. -/
theorem Matcher.blind_intervalOf (start : Calendar.DateTime) : Value.Blind (intervalOf start) := by
  intro view stop
  have same : endOf start (stop.through view) = endOf start stop := by
    cases stop <;> rfl
  rw [intervalOf, same, intervalOf]

namespace RunRelation

theorem parallel_matchedInterval (hv : v.Same L.view w) :
    L.Parallel Eq (matchedInterval v) (matchedInterval w) := by
  refine (parallel_taken (hv.date 0)).andThen fun start => ?_
  refine (parallel_take (hv.required 1)).bind fun stop stop' same => ?_
  rw [(blind_intervalOf start).eq same]
  split
  · exact parallel_pure rfl
  · exact parallel_fail _

theorem parallel_projectDate (hv : v.Same L.view w) :
    L.Parallel Eq (projectDate v) (projectDate w) := by
  refine (parallel_taken (hv.date 0)).andThen fun date => parallel_project.bind fun p q same => ?_
  have start : q.start = p.start := (congrArg Project.start same :)
  have stop : q.stop = p.stop := (congrArg Project.stop same :)
  have interval : q.interval = p.interval := (congrArg Project.interval same :)
  rw [interval, start, stop]
  split
  · exact parallel_pure rfl
  · exact parallel_fail _

theorem parallel_projectInterval (hv : v.Same L.view w) :
    L.Parallel Eq (projectInterval v) (projectInterval w) := by
  refine (parallel_matchedInterval hv).andThen fun i => parallel_project.bind fun p q same => ?_
  have start : q.start = p.start := (congrArg Project.start same :)
  have stop : q.stop = p.stop := (congrArg Project.stop same :)
  rw [start, stop]
  split
  · exact parallel_fail _
  · split
    · exact parallel_fail _
    · exact parallel_pure rfl

theorem steady_weekday (name : String) : L.Steady (weekday name) := steady_orFail _ _

theorem parallel_dayRange (hv : v.Same L.view w) : L.Parallel Eq (dayRange v) (dayRange w) := by
  refine (parallel_taken (hv.string 0)).andThen fun name => ?_
  refine (steady_weekday name).andThen fun first => ?_
  -- the last day may be missing, and then the first one stands alone
  have last := rel_of_map_eq (hv.values 1)
  generalize v.value? 1 = a at last ⊢
  generalize w.value? 1 = b at last ⊢
  cases last with
  | none => exact parallel_pure rfl
  | @some a b same =>
    cases a with
    | str name =>
      cases b with
      | str other =>
        cases same
        exact (steady_weekday name).andThen fun last => parallel_pure rfl
      | _ => simp [Value.through] at same
    | _ =>
      cases b with
      | str other => simp [Value.through] at same
      | _ => exact parallel_pure rfl

theorem parallel_timeRange (hv : v.Same L.view w) :
    L.Parallel Eq (Matcher.timeRange v) (Matcher.timeRange w) := by
  refine (parallel_taken (hv.time 0)).andThen fun start => ?_
  refine (parallel_taken (hv.time 2)).andThen fun stop => ?_
  split
  · exact parallel_fail _
  · exact parallel_pure rfl

theorem steady_setWorkingHours (days : Calendar.DaySet) (ranges : List Calendar.TimeRange) :
    L.Steady (setWorkingHours days ranges) := by
  refine parallel_get fun c d alike => ?_
  rw [alike.property]
  split
  · -- outside of all properties the hours are those of the project
    exact steady_modifySettings _
  · refine steady_currentProperty.andThen fun current => ?_
    split
    · exact (parallel_pure rfl).andThen fun _ => steady_modifyProperty _
    · refine parallel_project.bind fun p q same => ?_
      have settings : q.settings = p.settings := (congrArg Project.settings same :)
      rw [settings]
      exact (parallel_pure rfl).andThen fun _ => steady_modifyProperty _

theorem parallel_workingHours (hv : v.Same L.view w) :
    L.Parallel Eq (workingHours v) (workingHours w) := by
  have ranges : (w.list 2).filterMap (·.timeRange?) = (v.list 2).filterMap (·.timeRange?) :=
    Value.Blind.filterMap (fun _ a => by cases a <;> rfl) (hv.list 2)
  unfold workingHours
  rw [ranges]
  refine (parallel_take (hv.required 1)).bind fun days days' same => ?_
  -- whether days are given does not depend on expressions
  have alike {f : Value → Matcher Unit} (blind : Value.Blind f) (steady : ∀ a, L.Steady (f a)) :
      L.Parallel Eq (f days) (f days') := parallel_of_blind blind steady same
  apply alike
  · exact fun _ days => by cases days <;> rfl
  · intro days
    cases days with
    | weekDays days => exact steady_setWorkingHours _ _
    | _ => exact parallel_fail _

end RunRelation

theorem CalendarAction.parallel_perform (hv : v.Same L.view w) (a : CalendarAction) :
    L.Parallel (Value.Same L.view) (a.perform v) (a.perform w) := by
  cases a with
  | interval => exact (parallel_matchedInterval hv).map fun _ _ same => same ▸ rfl
  | endDate => exact (parallel_taken (hv.date 1)).map fun _ _ same => same ▸ rfl
  | endSeconds => exact (parallel_taken (hv.int 1)).map fun _ _ same => same ▸ rfl
  | projectDate => exact (parallel_projectDate hv).map fun _ _ same => same ▸ rfl
  | projectInterval => exact (parallel_projectInterval hv).map fun _ _ same => same ▸ rfl
  | workingHours => exact (parallel_workingHours hv).andThen fun _ => parallel_pure rfl
  | daySet =>
    have days : (w.list 0).filterMap Value.weekDays? = (v.list 0).filterMap Value.weekDays? :=
      Value.Blind.filterMap (fun _ a => by cases a <;> rfl) (hv.list 0)
    simp only [CalendarAction.perform, days]
    exact parallel_pure rfl
  | dayRange => exact (parallel_dayRange hv).map fun _ _ same => same ▸ rfl
  | noTimes => exact parallel_pure rfl
  | timeRange => exact (parallel_timeRange hv).map fun _ _ same => same ▸ rfl
  | unit =>
    refine (parallel_taken (hv.string 0)).andThen fun word => ?_
    exact (steady_orFail _ _).andThen fun unit => parallel_pure rfl
  | calendarTicks | workingTicks =>
    refine parallel_project.bind fun p q same => ?_
    have settings : q.settings = p.settings := (congrArg Project.settings same :)
    rw [settings]
    refine (parallel_taken (hv.number 0)).andThen fun number => ?_
    exact (parallel_taken (hv.unit 1)).andThen fun unit => parallel_pure rfl
  | intervalSeconds =>
    refine (parallel_taken (hv.int 0)).andThen fun number => ?_
    exact (parallel_taken (hv.unit 1)).andThen fun unit => parallel_pure rfl

end Planfile

/-!
## Statements about reports in parallel

What a plan says about its reports, and which attributes it adds, depends on nothing but what has been
built, the grammar and the values of the statement. Reports are the one part of a project that keeps
expressions, so of the changes of a report it is only asked that they look the same.
-/

namespace Planfile

open Plan (Project ReportElement)
open Matcher

variable {L : RunRelation} {v w : Values}

/-! ## Added attributes -/

namespace RunRelation

theorem steady_live : L.Steady live := by
  refine parallel_read fun env env' he => parallel_get fun c d alike => parallel_pure ?_
  rw [L.grammar he, alike.extensions]

theorem steady_defineAttribute (kind : Plan.PropertyKind) (d : Plan.AttributeDefinition) :
    L.Steady (defineAttribute kind d) := by
  refine parallel_project.bind fun p q same => ?_
  have properties : q.properties kind = p.properties kind := (congrArg (·.properties kind) same :)
  rw [properties]
  split
  · exact parallel_fail _
  · refine parallel_setProject ?_
    rw [SameProject, Project.through_setProperties, same, Project.through_setProperties]

theorem steady_applyExtension (e : AttributeExtension) : L.Steady (applyExtension e) := by
  refine parallel_get fun c d alike => ?_
  rw [alike.extendTarget]
  refine (steady_orFail _ _).andThen fun target => ?_
  refine steady_live.andThen fun live => (steady_sound _).andThen fun used => ?_
  -- what remains to be done when the id is not in use yet
  have added : L.Steady (do
      defineAttribute target.kind e.definition
      let symbols ← sound (e.symbols.mapM (← read).grammar.symbol)
      let rule := if e.scenarioSpecific then target.scenarioRule else target.rule
      modify fun c => { c with extensions := c.extensions ++ [(rule, ⟨symbols, some e.action⟩)] }
      if (← read).preferences.parser.logExtensions then
        report <| (Log.Event.success .extensionApplied "Attribute pattern appended").detailed
          [("attribute", e.id), ("property", target.kind.word),
            ("rule", ((← read).grammar.rule rule).name)]) := by
    refine (steady_defineAttribute _ _).andThen fun _ => parallel_read fun env env' he => ?_
    rw [L.grammar he]
    refine (steady_sound _).andThen fun symbols => ?_
    -- the pattern is added to the same rule, and it does nothing but store a value
    refine Parallel.andThen (parallel_modify fun c d alike => ⟨alike.reading, ?_, ?_⟩) fun _ => ?_
    · intro entry mem a action
      rcases List.mem_append.mp mem with old | new
      · exact alike.allowed entry old a action
      · obtain rfl := List.mem_singleton.mp new
        obtain rfl := Option.mem_some_iff.mp action
        exact L.stores _ _ _
    · generalize (if e.scenarioSpecific then target.scenarioRule else target.rule) = rule
      exact (congrArg (fun c : Context =>
        { c with extensions := c.extensions ++ [(rule, Pattern.mk symbols (some e.action))] }) alike.built :)
    -- whether it is reported that an attribute has been added is for the preferences to say
    refine parallel_read fun env env' _ => parallel_of_onlyReports ?_ ?_
    · split
      · exact fun env c => ⟨_, rfl⟩
      · exact fun env c => ⟨_, rfl⟩
    · split
      · exact fun env c => ⟨_, rfl⟩
      · exact fun env c => ⟨_, rfl⟩
  cases used with
  | true =>
    refine (parallel_report _ _).andThen fun _ => ?_
    exact (parallel_fail _ : L.Steady (fail (α := Unit) _)).andThen fun _ => added
  | false => exact added

theorem steady_chooseTarget (word : String) : L.Steady (chooseTarget word) := by
  have choose (kind : Plan.PropertyKind) (rule scenarioRule : String) :
      L.Steady (do
        let target : ExtendTarget := ⟨kind, ← ruleId rule, ← ruleId scenarioRule⟩
        modify fun c => { c with extendTarget := some target }) := by
    refine (steady_ruleId rule).andThen fun _ => (steady_ruleId scenarioRule).andThen fun _ => ?_
    exact steady_change (fun _ => rfl) fun _ => rfl
  unfold chooseTarget
  split
  · exact choose _ _ _
  · split
    · exact choose _ _ _
    · -- no other property can be extended
      exact Parallel.andThen (parallel_fail _) fun x => choose x.1 x.2.1 x.2.2

theorem steady_extensionId (id : String) : L.Steady (extensionId id) := by
  unfold extensionId
  split
  · exact parallel_pure rfl
  · exact parallel_fail _

end RunRelation

open RunRelation

/-- The value of an added attribute is the same. -/
theorem Values.Same.extensionValue (hv : v.Same L.view w) (kind : Plan.AttributeKind) :
    extensionValue kind w = extensionValue kind v := by
  cases kind <;> simp only [Planfile.extensionValue, hv.date, hv.string, hv.strings]

theorem ExtendAction.parallel_perform (hv : v.Same L.view w) (a : ExtendAction) :
    L.Parallel (Value.Same L.view) (a.perform v) (a.perform w) := by
  cases a with
  | target =>
    refine (parallel_taken (hv.string 0)).andThen fun word => ?_
    exact (steady_chooseTarget word).andThen fun _ => parallel_pure rfl
  | close =>
    refine Parallel.andThen ?_ fun _ => parallel_pure rfl
    exact steady_change (fun _ => rfl) fun _ => rfl
  | declare kind =>
    refine Parallel.andThen ?_ fun _ => parallel_pure rfl
    unfold declareAttribute
    rw [hv.strings]
    refine (parallel_taken (hv.string 1)).andThen fun id => ?_
    exact (parallel_taken (hv.string 2)).andThen fun name => steady_applyExtension _
  | id =>
    refine (parallel_taken (hv.string 0)).andThen fun id => ?_
    exact (steady_extensionId id).map fun _ _ same => same ▸ rfl
  | store name kind scenarioSpecific =>
    -- the value goes into the current scenario or into the property itself
    refine (parallel_taken (hv.extensionValue kind)).andThen fun value => ?_
    split
    · exact (steady_setScenarioAttribute _ _).andThen fun _ => parallel_pure rfl
    · exact (steady_modifyProperty _).andThen fun _ => parallel_pure rfl

/-! ## Reports -/

namespace RunRelation

theorem steady_openReport (word name : String) : L.Steady (openReport word name) := by
  refine (steady_orFail _ _).andThen fun kind => parallel_project.bind fun p q same => ?_
  -- the new report is the last one, so it has the same number in both projects
  have count := Project.length_reports same
  have element : ReportElement.over q.start q.stop = .over p.start p.stop :=
    (congrArg (fun p : Project => ReportElement.over p.start p.stop) same :)
  dsimp only
  rw [element, count]
  refine parallel_modify fun c d alike => ⟨alike.reading, alike.allowed, ?_⟩
  generalize Plan.Report.mk kind name (.over p.start p.stop) = added
  have grown : L.SameProject { p with reports := p.reports ++ [added] }
      { q with reports := q.reports ++ [added] } := by
    have reports : q.reports.map (Plan.Report.through L.view) = p.reports.map (Plan.Report.through L.view) :=
      (congrArg Project.reports same :)
    show { q.through L.view with reports := (q.reports ++ [added]).map (Plan.Report.through L.view) } =
      { p.through L.view with reports := (p.reports ++ [added]).map (Plan.Report.through L.view) }
    rw [same, List.map_append, List.map_append, reports]
  have built := (alike.withProject grown).built
  exact (congrArg (fun c : Context => { c with report := some p.reports.length }) built :)

theorem steady_openColumn (id : String) : L.Steady (openColumn id) := by
  refine parallel_reportElement.bind fun _ _ _ => (steady_orFail _ _).andThen fun title => ?_
  exact steady_change (fun _ => rfl) fun _ => rfl

theorem steady_closeColumn : L.Steady closeColumn := by
  refine parallel_get fun c d alike => ?_
  rw [alike.column]
  refine Parallel.andThen ?_ fun _ => parallel_pure rfl
  exact steady_change (fun _ => rfl) fun _ => rfl

theorem steady_setTitle (title : String) : L.Steady (setTitle title) := by
  refine parallel_get fun c d alike => ?_
  rw [alike.column]
  refine (steady_orFail _ _).andThen fun column => ?_
  exact steady_change (fun _ => rfl) fun _ => rfl

theorem parallel_enabledScenarios {vs ws : List Value}
    (h : ws.map (Value.through L.view) = vs.map (Value.through L.view)) :
    L.Parallel Eq (enabledScenarios vs) (enabledScenarios ws) := by
  refine parallel_project.bind fun p q same => parallel_pure ?_
  have scenario (i : Nat) : q.scenario? i = p.scenario? i := (congrArg (·.scenario? i) same :)
  simp only [scenario]
  exact (Value.Blind.filterMap (fun _ a => by cases a <;> rfl) h).symm

theorem steady_sortDirection (word : String) : L.Steady (sortDirection word) := by
  unfold sortDirection
  split
  · exact parallel_pure rfl
  · split
    · exact parallel_pure rfl
    · exact parallel_fail _

theorem steady_sortCriterion (id : String) : L.Steady (Matcher.sortCriterion id) := by
  unfold Matcher.sortCriterion
  split
  · exact (steady_sortDirection _).map fun _ _ same => same ▸ rfl
  · next scenario name direction _ =>
    refine parallel_project.bind fun p q same => ?_
    have index : q.scenarioIndex? scenario = p.scenarioIndex? scenario :=
      (congrArg (·.scenarioIndex? scenario) same :)
    rw [index]
    refine (steady_orFail _ _).andThen fun index => ?_
    exact (steady_sortDirection _).map fun _ _ same => same ▸ rfl
  · exact parallel_fail _

theorem steady_knownTask (id : String) : L.Steady (knownTask id) := by
  refine parallel_project.bind fun p q same => ?_
  have tasks : q.tasks = p.tasks := (congrArg Project.tasks same :)
  rw [tasks]
  split
  · exact parallel_pure rfl
  · exact parallel_fail _

end RunRelation

/-- Statements in the body of a report change it to what looks the same. -/
theorem ReportAction.parallel_change (hv : v.Same L.view w) (a : ReportAction) :
    L.Parallel L.ChangesSame (a.change v) (a.change w) := by
  cases a with
  | columns =>
    have columns : (w.list 1).filterMap Value.column? = (v.list 1).filterMap Value.column? :=
      Value.Blind.filterMap (fun _ a => by cases a <;> rfl) (hv.list 1)
    simp only [ReportAction.change, columns]
    exact parallel_pure (changesSame_of_through fun _ => rfl)
  | sortResources | sortTasks =>
    have criteria :
        (w.list 1).filterMap Value.sortCriterion? = (v.list 1).filterMap Value.sortCriterion? :=
      Value.Blind.filterMap (fun _ a => by cases a <;> rfl) (hv.list 1)
    simp only [ReportAction.change, criteria]
    exact parallel_pure (changesSame_of_through fun _ => rfl)
  | headline | timeFormat =>
    refine (parallel_taken (hv.string 1)).andThen fun _ => ?_
    exact parallel_pure (changesSame_of_through fun _ => rfl)
  | hideResource | hideTask | rollupTask =>
    -- an expression comes into the report with its place, and looks the same there
    refine (parallel_take (hv.expression 1)).bind fun filter filter' looks => ?_
    refine parallel_pure fun e e' same => ?_
    simp only [ReportElement.through, ReportElement.mk.injEq] at same
    simp only [ReportElement.through, Option.map_some, looks, same]
  | period =>
    refine (parallel_taken (hv.interval 1)).andThen fun _ => ?_
    exact parallel_pure (changesSame_of_through fun _ => rfl)
  | start | stop =>
    refine (parallel_taken (hv.date 1)).andThen fun _ => ?_
    exact parallel_pure (changesSame_of_through fun _ => rfl)
  | scenarios =>
    refine (parallel_enabledScenarios (hv.list 1)).andThen fun _ => ?_
    exact parallel_pure (changesSame_of_through fun _ => rfl)
  | taskRoot =>
    refine (parallel_taken (hv.string 1)).andThen fun id => ?_
    refine (steady_knownTask id).andThen fun _ => ?_
    exact parallel_pure (changesSame_of_through fun _ => rfl)
  | header | close | column | columnId | columnTitle | sortPath | sortTree =>
    exact parallel_pure fun _ _ same => same

theorem ReportAction.parallel_perform (hv : v.Same L.view w) (a : ReportAction) :
    L.Parallel (Value.Same L.view) (a.perform v) (a.perform w) := by
  cases a with
  | header =>
    refine (parallel_taken (hv.string 0)).andThen fun word => ?_
    refine (parallel_taken (hv.string 1)).andThen fun name => ?_
    exact (steady_openReport word name).andThen fun _ => parallel_pure rfl
  | close =>
    refine Parallel.andThen ?_ fun _ => parallel_pure rfl
    exact steady_change (fun _ => rfl) fun _ => rfl
  | column => exact steady_closeColumn.andThen fun _ => parallel_pure rfl
  | columnId =>
    refine (parallel_taken (hv.string 0)).andThen fun id => ?_
    exact (steady_openColumn id).andThen fun _ => parallel_pure rfl
  | columnTitle =>
    refine (parallel_taken (hv.string 1)).andThen fun title => ?_
    exact (steady_setTitle title).andThen fun _ => parallel_pure rfl
  | sortPath =>
    refine (parallel_taken (hv.string 0)).andThen fun id => ?_
    exact (steady_sortCriterion id).map fun _ _ same => same ▸ rfl
  | sortTree =>
    refine (parallel_taken (hv.string 0)).andThen fun word => ?_
    split
    · exact parallel_pure rfl
    · exact parallel_fail _
  | columns | headline | hideResource | hideTask | rollupTask | period | start | stop | scenarios
  | sortResources | sortTasks | taskRoot | timeFormat =>
    refine (ReportAction.parallel_change hv _).bind fun f g changes => ?_
    exact (parallel_modifyReport changes).andThen fun _ => parallel_pure rfl

end Planfile

/-! ## All actions -/

namespace Planfile

/-- Whether an action is one of the language that does not go on with another file: it is about the
plan, or passes values on. -/
def Action.isStatement : Action → Bool
  | .value _ | .collect | .pair _ | .nothing | .project _ | .scenario _ | .property _ | .extend _
  | .report _ | .logical _ | .calendar _ => true
  | _ => false

open Matcher RunRelation in
theorem Action.parallel_perform {L : RunRelation} {v w : Values} (hv : v.Same L.view w) {a : Action}
    (h : a.isStatement = true) (matchRule matchRule' : RuleId → Matcher (Option Value)) :
    L.Parallel (Value.Same L.view) (a.perform matchRule v) (a.perform matchRule' w) := by
  cases a with
  | value i => exact parallel_pure (hv.values i)
  | collect =>
    refine parallel_pure ?_
    have first : ((w.value? 0).toList).map (Value.through L.view) =
        ((v.value? 0).toList).map (Value.through L.view) := by
      rw [← Option.toList_map, hv.values 0, Option.toList_map]
    simp [Value.Same, first, hv.list 1]
  | pair i =>
    refine (parallel_take (hv.required 0)).bind fun first first' same => ?_
    refine (parallel_take (hv.required i)).bind fun second second' looks => parallel_pure ?_
    simp [Value.Same, Value.through, same, looks]
  | nothing => exact parallel_pure rfl
  | project a => exact (a.parallel_perform hv).andThen fun _ => parallel_pure rfl
  | scenario a => exact a.parallel_perform hv
  | property a => exact a.parallel_perform hv
  | extend a => exact a.parallel_perform hv
  | report a => exact a.parallel_perform hv
  | logical a => exact a.parallel_perform hv
  | calendar a => exact a.parallel_perform hv
  | _ => cases h

end Planfile
