import Planfile.Proofs.Typing.Shape
import Planfile.Proofs.Typing.Yields

/-!
# Planfile — what actions take and give

For every action it is said which symbols have to have which shape, and which shape its value has
then. An action that gets what it takes never ends for a defect of the grammar.

Main results:

* `Action.yields_perform` — what an action gives when it gets what it takes.
-/

namespace Planfile

/-- What an action takes: symbols by their place, each with the shape it has to have. -/
abbrev Demands := List (Nat × Shape)

/-- Whether the symbols of a pattern have the shapes that are asked of them. -/
def Demands.met (demands : Demands) (shapes : List Shape) : Bool :=
  demands.all fun (i, s) => offers shapes i s

/-- What is asked of one symbol. -/
theorem Demands.offers_of_met {demands : Demands} {shapes : List Shape}
    (h : demands.met shapes = true) {i : Nat} {s : Shape} (hi : (i, s) ∈ demands) :
    offers shapes i s = true :=
  List.all_eq_true.mp h _ hi

/-- What an action on the project takes. -/
def ProjectAction.takes : ProjectAction → Demands
  | .header => [(1, .text), (2, .text), (3, .text), (4, .interval)]
  | .copyright | .currency | .timeFormat | .shortTimeFormat => [(1, .text)]
  | .currencyFormat | .numberFormat => [(1, .text), (2, .text), (3, .text), (4, .text), (5, .text)]
  | .dailyWorkingHours | .yearlyWorkingDays => [(1, .number)]
  | .now => [(1, .date)]
  | .timezone => [(0, .text)]
  | .timingResolution => [(1, .int)]
  | .weekStartsMonday _ | .declareFlags | .vacation => []

/-- What an action on scenarios takes. -/
def ScenarioAction.takes : ScenarioAction → Demands
  | .header => [(1, .text), (2, .text)]
  | .select | .index => [(0, .text)]
  | .close | .enable _ => []

/-- What an action on tasks and resources takes. -/
def PropertyAction.takes : PropertyAction → Demands
  | .header _ => [(1, .text), (2, .text)]
  | .ticks _ | .priority => [(1, .int)]
  | .start | .stop => [(1, .date)]
  | .relativeId | .resourceId | .allocation => [(0, .text)]
  | .selectMode => [(1, .text)]
  | .close | .leaveScenario | .allocate | .depends | .flags | .vacation | .alternatives => []

/-- What an action that adds attributes takes. -/
def ExtendAction.takes : ExtendAction → Demands
  | .target | .id => [(0, .text)]
  | .declare _ => [(1, .name), (2, .text)]
  | .store _ .date _ => [(1, .date)]
  | .store _ _ _ => [(1, .text)]
  | .close => []

/-- What an action on reports takes. -/
def ReportAction.takes : ReportAction → Demands
  | .header => [(0, .reportWord), (1, .text)]
  | .columnId | .sortPath | .sortTree => [(0, .text)]
  | .columnTitle | .headline | .taskRoot | .timeFormat => [(1, .text)]
  | .hideResource | .hideTask | .rollupTask => [(1, .expression)]
  | .period => [(1, .interval)]
  | .start | .stop => [(1, .date)]
  | .close | .columns | .column | .scenarios | .sortResources | .sortTasks => []

/-- What an action on logical expressions takes. -/
def LogicalAction.takes : LogicalAction → Demands
  | .expression => [(0, .operation)]
  | .operation => [(0, .operand), (1, .chain)]
  | .nested => [(1, .operation)]
  | .negation => [(1, .operand)]
  | .attributeOf | .name | .string | .flag => [(0, .text)]
  | .date => [(0, .date)]
  | .integer => [(0, .int)]
  | .arguments => []

/-- What an action on dates, times and lengths takes. -/
def CalendarAction.takes : CalendarAction → Demands
  | .interval | .projectInterval => [(0, .date), (1, .intervalEnd)]
  | .endDate => [(1, .date)]
  | .endSeconds => [(1, .int)]
  | .projectDate => [(0, .date)]
  | .workingHours => [(1, .weekDays)]
  | .dayRange | .unit => [(0, .text)]
  | .timeRange => [(0, .time), (2, .time)]
  | .calendarTicks | .workingTicks => [(0, .number), (1, .unit)]
  | .intervalSeconds => [(0, .int), (1, .unit)]
  | .daySet | .noTimes => []

namespace Matcher

section
variable {t : GrammarTable} {v : Values} {shapes : List Shape}

/-! ## The project and what is current in it

What is missing is a fault of the plan, and a change of the project leaves tokens and grammar alone. -/

theorem yields_project : Yields t (fun _ => True) project :=
  yields_get fun _ _ => yields_present rfl

theorem yields_modifyProject (f : Plan.Project → Plan.Project) :
    Yields t (fun _ => True) (modifyProject f) := by
  refine yields_project.andThen fun _ => ?_
  exact yields_modify (fun _ => rfl) (fun _ => rfl) (fun _ => rfl)

theorem yields_modifySettings (f : Plan.Settings → Plan.Settings) :
    Yields t (fun _ => True) (modifySettings f) :=
  yields_modifyProject _

theorem yields_currentProperty : Yields t (fun _ => True) currentProperty := by
  refine yields_get fun _ _ => (yields_present rfl).andThen fun _ => ?_
  exact yields_project.andThen fun _ => yields_present rfl

theorem yields_modifyProperty (f : Plan.Property → Plan.Property) :
    Yields t (fun _ => True) (modifyProperty f) := by
  refine yields_get fun _ _ => (yields_present rfl).andThen fun _ => ?_
  refine (yields_present rfl).andThen fun _ => (yields_present rfl).andThen fun _ => ?_
  exact yields_modify (fun _ => rfl) (fun _ => rfl) (fun _ => rfl)

theorem yields_setScenarioAttribute (id : String) (value : Plan.AttributeValue) :
    Yields t (fun _ => True) (setScenarioAttribute id value) :=
  yields_get fun _ _ => yields_modifyProperty _

theorem yields_reportElement : Yields t (fun _ => True) reportElement := by
  refine yields_get fun _ _ => (yields_present rfl).andThen fun _ => ?_
  refine (yields_present rfl).andThen fun _ => ?_
  exact (yields_present rfl).map fun _ _ => trivial

theorem yields_modifyReport (f : Plan.ReportElement → Plan.ReportElement) :
    Yields t (fun _ => True) (modifyReport f) := by
  refine yields_get fun _ _ => (yields_present rfl).andThen fun _ => ?_
  refine (yields_present rfl).andThen fun _ => (yields_present rfl).andThen fun _ => ?_
  exact yields_modify (fun _ => rfl) (fun _ => rfl) (fun _ => rfl)

/-! ## Statements about the project -/

theorem yields_realFormat (hv : Suits v shapes)
    (h : Demands.met [(1, .text), (2, .text), (3, .text), (4, .text), (5, .text)] shapes = true) :
    Yields t (fun _ => True) (realFormat v) := by
  obtain ⟨_, before⟩ := hv.string (Demands.offers_of_met h (i := 1) (by decide))
  obtain ⟨_, behind⟩ := hv.string (Demands.offers_of_met h (i := 2) (by decide))
  obtain ⟨_, thousands⟩ := hv.string (Demands.offers_of_met h (i := 3) (by decide))
  obtain ⟨_, fraction⟩ := hv.string (Demands.offers_of_met h (i := 4) (by decide))
  obtain ⟨_, digits⟩ := hv.string (Demands.offers_of_met h (i := 5) (by decide))
  refine yields_take digits ((yields_present rfl).andThen fun _ => ?_)
  refine yields_take before (yields_take behind (yields_take thousands ?_))
  exact yields_take fraction yields_return

end

end Matcher

section
variable {t : GrammarTable} {v : Values} {shapes : List Shape}

open Matcher

/-- What statements about the project do. -/
theorem ProjectAction.yields_perform (hv : Suits v shapes) {a : ProjectAction}
    (h : a.takes.met shapes = true) : Yields t (fun _ => True) (a.perform v) := by
  have asked {i : Nat} {s : Shape} (hi : (i, s) ∈ a.takes) := Demands.offers_of_met h hi
  cases a with
  | header =>
    -- three texts and an interval, in the order in which they are taken
    obtain ⟨_, id⟩ := hv.string (asked (i := 1) (by decide))
    obtain ⟨_, name⟩ := hv.string (asked (i := 2) (by decide))
    obtain ⟨_, version⟩ := hv.string (asked (i := 3) (by decide))
    obtain ⟨_, time⟩ := hv.interval (asked (i := 4) (by decide))
    refine yields_take id (yields_take name (yields_take version (yields_take time ?_)))
    exact yields_modify (fun _ => rfl) (fun _ => rfl) (fun _ => rfl)
  | copyright | currency | timeFormat | shortTimeFormat =>
    obtain ⟨_, text⟩ := hv.string (asked (i := 1) (by decide))
    exact yields_take text (yields_modifySettings _)
  | timezone =>
    obtain ⟨_, zone⟩ := hv.string (asked (i := 0) (by decide))
    exact yields_take zone (yields_modifySettings _)
  | currencyFormat | numberFormat =>
    exact (yields_realFormat hv h).andThen fun _ => yields_modifySettings _
  | dailyWorkingHours | yearlyWorkingDays =>
    obtain ⟨_, number⟩ := hv.number (asked (i := 1) (by decide))
    exact yields_take number (yields_modifySettings _)
  | now =>
    obtain ⟨_, date⟩ := hv.date (asked (i := 1) (by decide))
    exact yields_take date (yields_modifySettings _)
  | timingResolution =>
    obtain ⟨_, seconds⟩ := hv.int (asked (i := 1) (by decide))
    refine yields_take seconds ?_
    split
    · exact yields_fail rfl
    · split
      · exact yields_fail rfl
      · exact yields_modifySettings _
  | weekStartsMonday monday | declareFlags | vacation => exact yields_modifySettings _

/-! ## Scenarios -/

theorem Matcher.yields_openScenario (hv : Suits v shapes) (name : offers shapes 1 .text = true)
    (title : offers shapes 2 .text = true) : Yields t (fun _ => True) (openScenario v) := by
  obtain ⟨_, name⟩ := hv.string name
  obtain ⟨_, title⟩ := hv.string title
  refine yields_get fun c _ => yields_project.andThen fun p => ?_
  refine yields_change (yields_take name (yields_take title ?_)) (fun _ => rfl) (fun _ => rfl)
    (fun _ => rfl)
  dsimp only
  split
  · exact yields_fail rfl
  · exact yields_modify (fun _ => rfl) (fun _ => rfl) (fun _ => rfl)

theorem Matcher.yields_scenarioIndex (id : String) :
    Yields t (fun _ => True) (Matcher.scenarioIndex id) :=
  yields_project.andThen fun _ => yields_present rfl

/-- What an action on scenarios gives. -/
def ScenarioAction.gives : ScenarioAction → Shape
  | .index => .int
  | _ => .any

/-- What statements about scenarios do. -/
theorem ScenarioAction.yields_perform (hv : Suits v shapes) {a : ScenarioAction}
    (h : a.takes.met shapes = true) : Yields t a.gives.Has (a.perform v) := by
  have asked {i : Nat} {s : Shape} (hi : (i, s) ∈ a.takes) := Demands.offers_of_met h hi
  cases a with
  | header =>
    refine (yields_openScenario hv (asked (by decide)) (asked (by decide))).andThen fun _ => ?_
    exact yields_return
  | close =>
    exact yields_change yields_return (fun _ => rfl) (fun _ => rfl) (fun _ => rfl)
  | enable enabled =>
    refine Yields.andThen ?_ fun _ => yields_return
    refine yields_get fun _ _ => (yields_present rfl).andThen fun _ => ?_
    refine (yields_present rfl).andThen fun _ => (yields_present rfl).andThen fun _ => ?_
    exact yields_modify (fun _ => rfl) (fun _ => rfl) (fun _ => rfl)
  | select =>
    obtain ⟨_, id⟩ := hv.string (asked (i := 0) (by decide))
    refine yields_take id ((yields_scenarioIndex _).andThen fun _ => ?_)
    exact yields_change yields_return (fun _ => rfl) (fun _ => rfl) (fun _ => rfl)
  | index =>
    obtain ⟨_, id⟩ := hv.string (asked (i := 0) (by decide))
    refine yields_take id ((yields_scenarioIndex _).map fun _ _ => ?_)
    exact ⟨_, rfl⟩

/-! ## Tasks and resources -/

theorem Matcher.yields_openProperty (kind : Plan.PropertyKind) (id name : String) :
    Yields t (fun _ => True) (openProperty kind id name) := by
  refine yields_get fun _ _ => yields_project.andThen fun p => ?_
  dsimp only
  split
  · exact yields_fail rfl
  · exact yields_modify (fun _ => rfl) (fun _ => rfl) (fun _ => rfl)

theorem Matcher.yields_relativeTask (id : String) : Yields t (fun _ => True) (relativeTask id) :=
  yields_project.andThen fun _ => yields_get fun _ _ => yields_present rfl

theorem Matcher.yields_knownResource (id : String) :
    Yields t (fun _ => True) (knownResource id) := by
  refine yields_project.andThen fun p => ?_
  split
  · exact yields_return
  · exact yields_fail rfl

/-- What an action on tasks and resources gives. -/
def PropertyAction.gives : PropertyAction → Shape
  | .relativeId | .resourceId => .text
  | _ => .any

/-- What statements about tasks and resources do. -/
theorem PropertyAction.yields_perform (hv : Suits v shapes) {a : PropertyAction}
    (h : a.takes.met shapes = true) : Yields t a.gives.Has (a.perform v) := by
  have asked {i : Nat} {s : Shape} (hi : (i, s) ∈ a.takes) := Demands.offers_of_met h hi
  have set (id : String) (value : Plan.AttributeValue) :
      Yields t (Shape.any.Has) (do setScenarioAttribute id value; return none) :=
    (yields_setScenarioAttribute id value).andThen fun _ => yields_return
  cases a with
  | header kind =>
    obtain ⟨_, id⟩ := hv.string (asked (i := 1) (List.mem_cons_self))
    obtain ⟨_, name⟩ := hv.string (asked (i := 2) (List.mem_cons_of_mem _ List.mem_cons_self))
    refine yields_take id (yields_take name ((yields_openProperty _ _ _).andThen fun _ => ?_))
    exact yields_change yields_return (fun _ => rfl) (fun _ => rfl) (fun _ => rfl)
  | close | leaveScenario =>
    exact yields_change yields_return (fun _ => rfl) (fun _ => rfl) (fun _ => rfl)
  | allocate | flags | vacation => exact yields_get fun _ _ => set _ _
  | depends => exact set _ _
  | ticks id =>
    obtain ⟨_, ticks⟩ := hv.int (asked (i := 1) List.mem_cons_self)
    exact yields_take ticks (set _ _)
  | start | stop =>
    obtain ⟨_, date⟩ := hv.date (asked (i := 1) (by decide))
    exact yields_take date ((yields_setScenarioAttribute _ _).andThen fun _ => set _ _)
  | priority =>
    obtain ⟨_, priority⟩ := hv.int (asked (i := 1) (by decide))
    refine yields_take priority ?_
    split
    · exact (yields_fail rfl : Yields t (fun _ => True) _).andThen fun _ => set _ _
    · exact set _ _
  | relativeId =>
    obtain ⟨_, id⟩ := hv.string (asked (i := 0) (by decide))
    exact yields_take id ((yields_relativeTask _).map fun _ _ => ⟨_, rfl⟩)
  | resourceId =>
    obtain ⟨_, id⟩ := hv.string (asked (i := 0) (by decide))
    exact yields_take id ((yields_knownResource _).map fun _ _ => ⟨_, rfl⟩)
  | allocation =>
    obtain ⟨_, id⟩ := hv.string (asked (i := 0) (by decide))
    exact yields_take_map id trivial
  | alternatives => exact yields_return
  | selectMode =>
    obtain ⟨_, word⟩ := hv.string (asked (i := 1) (by decide))
    refine yields_take word ?_
    split
    · exact yields_return
    · exact yields_fail rfl

/-! ## Reports -/

/-- Opening a report changes the project alone, if its keyword is known. -/
theorem Matcher.yields_openReport {word : String} (h : (Plan.ReportKind.ofWord? word).isSome)
    (name : String) : Yields t (fun _ => True) (openReport word name) := by
  obtain ⟨kind, known⟩ := Option.isSome_iff_exists.mp h
  -- the keyword is one of those that the grammar lets through
  have kindOf : orFail (Plan.ReportKind.ofWord? word) (.unknownReportType word) =
      (pure kind : Matcher Plan.ReportKind) := by
    rw [known]
    rfl
  rw [openReport, kindOf]
  refine yields_return.andThen fun kind => yields_project.andThen fun p => ?_
  exact yields_modify (fun _ => rfl) (fun _ => rfl) (fun _ => rfl)

theorem Matcher.yields_openColumn (id : String) : Yields t (fun _ => True) (openColumn id) := by
  refine yields_reportElement.andThen fun _ => (yields_present rfl).andThen fun _ => ?_
  exact yields_modify (fun _ => rfl) (fun _ => rfl) (fun _ => rfl)

theorem Matcher.yields_sortDirection (word : String) :
    Yields t (fun _ => True) (sortDirection word) := by
  unfold sortDirection
  split
  · exact yields_return
  · split
    · exact yields_return
    · exact yields_fail rfl

theorem Matcher.yields_sortCriterion (id : String) :
    Yields t (fun _ => True) (Matcher.sortCriterion id) := by
  unfold Matcher.sortCriterion
  split
  · exact (yields_sortDirection _).map fun _ _ => trivial
  · refine yields_project.andThen fun _ => (yields_present rfl).andThen fun _ => ?_
    exact (yields_sortDirection _).map fun _ _ => trivial
  · exact yields_fail rfl

theorem Matcher.yields_knownTask (id : String) : Yields t (fun _ => True) (knownTask id) := by
  refine yields_project.andThen fun p => ?_
  split
  · exact yields_return
  · exact yields_fail rfl

/-- What statements in the body of a report change. -/
theorem ReportAction.yields_change (hv : Suits v shapes) {a : ReportAction}
    (h : a.takes.met shapes = true) : Yields t (fun _ => True) (a.change v) := by
  have asked {i : Nat} {s : Shape} (hi : (i, s) ∈ a.takes) := Demands.offers_of_met h hi
  cases a with
  | headline | timeFormat =>
    obtain ⟨_, text⟩ := hv.string (asked (i := 1) (by decide))
    exact yields_take text yields_return
  | hideResource | hideTask | rollupTask =>
    obtain ⟨_, filter⟩ := hv.expression (asked (i := 1) (by decide))
    exact yields_take filter yields_return
  | period =>
    obtain ⟨_, period⟩ := hv.interval (asked (i := 1) (by decide))
    exact yields_take period yields_return
  | start | stop =>
    obtain ⟨_, date⟩ := hv.date (asked (i := 1) (by decide))
    exact yields_take date yields_return
  | scenarios =>
    refine Yields.andThen ?_ fun _ => yields_return
    exact yields_project.andThen fun _ => yields_return
  | taskRoot =>
    obtain ⟨_, task⟩ := hv.string (asked (i := 1) (by decide))
    exact yields_take task ((yields_knownTask _).andThen fun _ => yields_return)
  | columns | sortResources | sortTasks | header | close | column | columnId | columnTitle
  | sortPath | sortTree => exact yields_return

/-- What statements about reports do. -/
theorem ReportAction.yields_perform (hv : Suits v shapes) {a : ReportAction}
    (h : a.takes.met shapes = true) : Yields t (fun _ => True) (a.perform v) := by
  have asked {i : Nat} {s : Shape} (hi : (i, s) ∈ a.takes) := Demands.offers_of_met h hi
  cases a with
  | header =>
    obtain ⟨_, word, known⟩ := hv.reportWord (asked (i := 0) (by decide))
    obtain ⟨_, name⟩ := hv.string (asked (i := 1) (by decide))
    refine yields_take word (yields_take name ?_)
    exact (yields_openReport known _).andThen fun _ => yields_return
  | close => exact Matcher.yields_change yields_return (fun _ => rfl) (fun _ => rfl) (fun _ => rfl)
  | column =>
    refine Yields.andThen ?_ fun _ => yields_return
    refine yields_get fun _ _ => ?_
    exact Matcher.yields_change yields_return (fun _ => rfl) (fun _ => rfl) (fun _ => rfl)
  | columnId =>
    obtain ⟨_, id⟩ := hv.string (asked (i := 0) (by decide))
    exact yields_take id ((yields_openColumn _).andThen fun _ => yields_return)
  | columnTitle =>
    obtain ⟨_, title⟩ := hv.string (asked (i := 1) (by decide))
    refine yields_take title (Yields.andThen ?_ fun _ => yields_return)
    refine yields_get fun _ _ => (yields_present rfl).andThen fun _ => ?_
    exact yields_modify (fun _ => rfl) (fun _ => rfl) (fun _ => rfl)
  | sortPath =>
    obtain ⟨_, id⟩ := hv.string (asked (i := 0) (by decide))
    exact yields_take id ((yields_sortCriterion _).map fun _ _ => trivial)
  | sortTree =>
    obtain ⟨_, id⟩ := hv.string (asked (i := 0) (by decide))
    refine yields_take id ?_
    split
    · exact yields_return
    · exact yields_fail rfl
  | columns | headline | hideResource | hideTask | rollupTask | period | start | stop | scenarios
  | sortResources | sortTasks | taskRoot | timeFormat =>
    refine (ReportAction.yields_change hv h).andThen fun _ => ?_
    exact (yields_modifyReport _).andThen fun _ => yields_return

/-! ## Logical expressions -/

/-- What stands behind an operand is an operator that is known and another operand. -/
theorem Matcher.yields_operationOf (left : Plan.Operand) {rest : Option Value}
    (h : Shape.chain.Has rest) : Yields t (fun _ => True) (operationOf left rest) := by
  rcases h with rfl | ⟨symbol, right, rfl, known⟩
  · exact yields_return
  · -- the symbol of a chain is that of an operator
    obtain ⟨operator, known⟩ := Option.isSome_iff_exists.mp known
    have operatorOf : Matcher.operatorOf (.str symbol) = (pure operator : Matcher _) := by
      rw [Matcher.operatorOf, known]
      rfl
    rw [operationOf, operatorOf]
    exact yields_return.andThen fun _ => yields_return

theorem Matcher.yields_attributeOperand (id : String) :
    Yields t (fun _ => True) (attributeOperand id) := by
  unfold attributeOperand
  split
  · refine yields_project.andThen fun _ => (yields_present rfl).andThen fun _ => ?_
    exact yields_return
  · exact yields_fail rfl

theorem Matcher.yields_declaredFlag (id : String) :
    Yields t (fun _ => True) (declaredFlag id) := by
  refine yields_project.andThen fun p => ?_
  split
  · exact yields_return
  · exact yields_fail rfl

theorem Matcher.yields_functionCall (function : String) (arguments : Nat) (location : Location) :
    Yields t (fun _ => True) (functionCall function arguments location) :=
  (yields_report _).andThen fun _ => yields_return

/-- What an action on logical expressions gives. -/
def LogicalAction.gives : LogicalAction → Shape
  | .expression => .expression
  | .operation => .operation
  | .arguments => .any
  | .flag => .text
  | _ => .operand

/-- What the parts of expressions are. -/
theorem LogicalAction.yields_perform (hv : Suits v shapes) {a : LogicalAction}
    (h : a.takes.met shapes = true) : Yields t a.gives.Has (a.perform v) := by
  have asked {i : Nat} {s : Shape} (hi : (i, s) ∈ a.takes) := Demands.offers_of_met h hi
  cases a with
  | expression =>
    obtain ⟨_, operation⟩ := hv.operation (asked (i := 0) (by decide))
    exact yields_take operation (yields_pure ⟨_, rfl⟩)
  | operation =>
    obtain ⟨_, left⟩ := hv.operand (asked (i := 0) (by decide))
    have right : Shape.chain.Has (v.value? 1) := hv.has (asked (by decide))
    exact yields_take left ((yields_operationOf _ right).map fun _ _ => ⟨_, rfl⟩)
  | nested =>
    obtain ⟨_, operation⟩ := hv.operation (asked (i := 1) (by decide))
    exact yields_take_map operation ⟨_, rfl⟩
  | negation =>
    obtain ⟨_, operand⟩ := hv.operand (asked (i := 1) (by decide))
    exact yields_take_map operand ⟨_, rfl⟩
  | attributeOf =>
    obtain ⟨_, id⟩ := hv.string (asked (i := 0) (by decide))
    exact yields_take id ((yields_attributeOperand _).map fun _ _ => ⟨_, rfl⟩)
  | date =>
    obtain ⟨_, date⟩ := hv.date (asked (i := 0) (by decide))
    exact yields_take_map date ⟨_, rfl⟩
  | name =>
    -- with arguments it is the call of a function, without them a flag
    obtain ⟨_, id⟩ := hv.string (asked (i := 0) (by decide))
    refine yields_take id ?_
    dsimp only
    split
    · exact (yields_functionCall _ _ _).andThen fun _ => yields_pure ⟨_, rfl⟩
    · refine Yields.andThen ?_ fun _ => yields_pure ⟨_, rfl⟩
      exact (yields_declaredFlag _).map fun _ _ => trivial
  | integer =>
    obtain ⟨_, n⟩ := hv.int (asked (i := 0) (by decide))
    exact yields_take_map n ⟨_, rfl⟩
  | string =>
    obtain ⟨_, s⟩ := hv.string (asked (i := 0) (by decide))
    exact yields_take_map s ⟨_, rfl⟩
  | arguments => exact yields_return
  | flag =>
    obtain ⟨_, id⟩ := hv.string (asked (i := 0) (by decide))
    exact yields_take id ((yields_declaredFlag _).map fun _ _ => ⟨_, rfl⟩)

/-! ## Dates, times and lengths -/

/-- The end of an interval may be wrong, but it is one. -/
theorem Matcher.yields_matchedInterval (hv : Suits v shapes) (start : offers shapes 0 .date = true)
    (stop : offers shapes 1 .intervalEnd = true) :
    Yields t (fun _ => True) (matchedInterval v) := by
  obtain ⟨start, hs⟩ := hv.date start
  obtain ⟨stop, he⟩ := hv.has stop
  refine yields_take hs (yields_take ((Values.required_eq_ok_iff _ _ _).mpr he) ?_)
  cases hi : intervalOf start (.intervalEnd stop) with
  | ok i => exact yields_return
  | error fault =>
    refine yields_fail ?_
    -- of the faults of an interval, only one is about what its end is
    unfold intervalOf endOf at hi
    cases stop with
    | date d =>
      simp only [bind, Except.bind] at hi
      split at hi
      · cases hi
        rfl
      · cases hi
    | seconds n =>
      cases hd : start.addSeconds? n with
      | none =>
        simp only [hd, bind, Except.bind, Except.error.injEq] at hi
        exact hi ▸ rfl
      | some d =>
        simp only [hd, bind, Except.bind] at hi
        split at hi
        · cases hi
          rfl
        · cases hi

theorem Matcher.yields_projectDate (hv : Suits v shapes) (date : offers shapes 0 .date = true) :
    Yields t (fun _ => True) (projectDate v) := by
  obtain ⟨_, date⟩ := hv.date date
  refine yields_take date (yields_project.andThen fun p => ?_)
  split
  · exact yields_return
  · exact yields_fail rfl

theorem Matcher.yields_projectInterval (hv : Suits v shapes)
    (start : offers shapes 0 .date = true) (stop : offers shapes 1 .intervalEnd = true) :
    Yields t (fun _ => True) (projectInterval v) := by
  refine (yields_matchedInterval hv start stop).andThen fun i => yields_project.andThen fun p => ?_
  split
  · exact yields_fail rfl
  · split
    · exact yields_fail rfl
    · exact yields_return

theorem Matcher.yields_dayRange (hv : Suits v shapes) (first : offers shapes 0 .text = true) :
    Yields t (fun _ => True) (dayRange v) := by
  obtain ⟨_, first⟩ := hv.string first
  refine yields_take first ((yields_present rfl).andThen fun _ => ?_)
  split
  · exact (yields_present rfl).map fun _ _ => trivial
  · exact yields_return

theorem Matcher.yields_timeRange (hv : Suits v shapes) (start : offers shapes 0 .time = true)
    (stop : offers shapes 2 .time = true) : Yields t (fun _ => True) (Matcher.timeRange v) := by
  obtain ⟨_, start⟩ := hv.time start
  obtain ⟨_, stop⟩ := hv.time stop
  refine yields_take start (yields_take stop ?_)
  split
  · exact yields_fail rfl
  · exact yields_return

theorem Matcher.yields_setWorkingHours (days : Calendar.DaySet) (ranges : List Calendar.TimeRange) :
    Yields t (fun _ => True) (setWorkingHours days ranges) := by
  refine yields_get fun c _ => ?_
  split
  · exact yields_modifySettings _
  · refine yields_currentProperty.andThen fun _ => ?_
    split
    · exact yields_return.andThen fun _ => yields_modifyProperty _
    · refine yields_project.andThen fun p => ?_
      exact yields_return.andThen fun _ => yields_modifyProperty _

/-- The days of working hours are days. -/
theorem Matcher.yields_workingHours (hv : Suits v shapes)
    (days : offers shapes 1 .weekDays = true) : Yields t (fun _ => True) (workingHours v) := by
  obtain ⟨_, days⟩ := hv.has days
  exact yields_take ((Values.required_eq_ok_iff _ _ _).mpr days) (yields_setWorkingHours _ _)

/-- What an action on dates, times and lengths gives. -/
def CalendarAction.gives : CalendarAction → Shape
  | .interval | .projectInterval => .interval
  | .endDate | .endSeconds => .intervalEnd
  | .projectDate => .date
  | .daySet | .dayRange => .weekDays
  | .unit => .unit
  | .calendarTicks | .workingTicks | .intervalSeconds => .int
  | _ => .any

/-- What dates, times and lengths are. -/
theorem CalendarAction.yields_perform (hv : Suits v shapes) {a : CalendarAction}
    (h : a.takes.met shapes = true) : Yields t a.gives.Has (a.perform v) := by
  have asked {i : Nat} {s : Shape} (hi : (i, s) ∈ a.takes) := Demands.offers_of_met h hi
  cases a with
  | interval =>
    refine (yields_matchedInterval hv (asked ?_) (asked ?_)).map fun _ _ => ⟨_, rfl⟩ <;> decide
  | endDate =>
    obtain ⟨_, date⟩ := hv.date (asked (i := 1) (by decide))
    exact yields_take_map date ⟨_, rfl⟩
  | endSeconds =>
    obtain ⟨_, seconds⟩ := hv.int (asked (i := 1) (by decide))
    exact yields_take_map seconds ⟨_, rfl⟩
  | projectDate => exact (yields_projectDate hv (asked (by decide))).map fun _ _ => ⟨_, rfl⟩
  | projectInterval =>
    refine (yields_projectInterval hv (asked ?_) (asked ?_)).map fun _ _ => ⟨_, rfl⟩ <;> decide
  | workingHours =>
    exact (yields_workingHours hv (asked (by decide))).andThen fun _ => yields_return
  | daySet => exact yields_pure ⟨_, rfl⟩
  | dayRange => exact (yields_dayRange hv (asked (by decide))).map fun _ _ => ⟨_, rfl⟩
  | noTimes => exact yields_return
  | timeRange =>
    refine (yields_timeRange hv (asked ?_) (asked ?_)).map fun _ _ => trivial <;> decide
  | unit =>
    obtain ⟨_, word⟩ := hv.string (asked (i := 0) (by decide))
    exact yields_take word ((yields_present rfl).andThen fun _ => yields_pure ⟨_, rfl⟩)
  | calendarTicks | workingTicks =>
    -- how long a unit is depends on the settings of the project
    obtain ⟨_, number⟩ := hv.number (asked (i := 0) (by decide))
    obtain ⟨_, unit⟩ := hv.unit (asked (i := 1) (by decide))
    refine yields_project.andThen fun p => ?_
    exact yields_take number (yields_take unit (yields_pure ⟨_, rfl⟩))
  | intervalSeconds =>
    obtain ⟨_, number⟩ := hv.int (asked (i := 0) (by decide))
    obtain ⟨_, unit⟩ := hv.unit (asked (i := 1) (by decide))
    exact yields_take number (yields_take unit (yields_pure ⟨_, rfl⟩))

end

end Planfile
