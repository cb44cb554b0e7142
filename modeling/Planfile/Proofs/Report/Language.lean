import Planfile.Proofs.Course.Region
import Planfile.Proofs.Matching.ScenarioState
import Planfile.Proofs.Reference.Language

/-!
# Planfile — reports and disabled scenarios

In the language, scenarios are declared, and switched, in the body of the project, and reports come behind
it. So a report shows no disabled scenario, with one exception: unless its body lists scenarios it shows the
first one, and this one may be disabled.

Main results:

* `ScenarioLists.Fair` — each report shows the first scenario, or such as are enabled.
* `Course.fair` — where there are no reports before the scenarios are complete, this holds of a project.
* `Language.showsEnabled_iff_of_plan` — a report shows enabled scenarios alone, unless it shows the first
  one as it does from the start and this one is disabled.
* `Language.showsDisabled_unlistedPlan` — a plan in which this is so.
-/

/-!
## The scenarios that reports show

A report shows the first scenario, unless a statement in its body lists others, of which those that are
disabled are left out. The first scenario is not looked at, so it is shown though it may be disabled. When
reports are read all scenarios are there and none is switched off any more.
-/

namespace Planfile

open Matcher

/-- Whether each report shows the first scenario, or such as are enabled. -/
def ScenarioLists.Fair (l : ScenarioLists) : Prop :=
  ∀ shown ∈ l.shown, shown = [0] ∨ ∀ i ∈ shown, l.scenarios[i]?.any (·.enabled) = true

/-- Whether an action neither starts a project, nor adds a report, nor says which scenarios one shows. -/
def Action.isBeforeReports : Action → Bool
  | .project .header | .report .header | .report .scenarios | .rule _ => false
  | _ => true

/-- Whether an action neither starts a project nor adds a scenario or switches one. -/
def Action.isBehindScenarios : Action → Bool
  | .project .header | .scenario .header | .scenario (.enable _) | .rule _ => false
  | _ => true

section
variable {v : Values} {env : Surroundings} {c d : Context} {o : Option Value}
  {matchRule : RuleId → Matcher (Option Value)}

/-- Tasks and resources are neither scenarios nor reports. -/
theorem PropertyAction.keeps_scenarioLists (a : PropertyAction) :
    Keeps (fun c => c.scenarioState.scenarioLists) (a.perform v) := by
  intro env c
  cases a with
  | header kind => simp +contextual [perform, Matcher.leaveScenario, Context.scenarioState]
  | leaveScenario => simp [perform, Matcher.leaveScenario, Context.scenarioState]
  | _ => exact (keeps_scenarioState v rfl).seen ScenarioState.scenarioLists env c

/-- All but two statements about reports are not about which scenarios these show. -/
theorem ReportAction.keeps_scenarioLists {a : ReportAction} (added : a ≠ .header) (listed : a ≠ .scenarios) :
    Keeps (fun c => c.scenarioState.scenarioLists) (a.perform v) := by
  intro env c
  cases a with
  | header => exact absurd rfl added
  | scenarios => exact absurd rfl listed
  | close | column | columnId | columnTitle =>
    simp [perform, openColumn, closeColumn, Matcher.setTitle, Context.scenarioState]
  | _ => exact (keeps_scenarioState v rfl).seen ScenarioState.scenarioLists env c

/-! ## Before there are reports -/

/-- A scenario is no report. -/
theorem ScenarioAction.keeps_shown (a : ScenarioAction) :
    Keeps (fun c => c.scenarioState.scenarioLists.map (·.shown)) (a.perform v) := by
  intro env c
  cases a with
  | header =>
    simp +contextual [perform, Context.scenarioState, Plan.Project.scenarioLists]
  | _ =>
    simp +contextual [perform, closeScenario, enableScenario, scenarioIndex, Context.scenarioState,
      Plan.Project.scenarioLists]

/-- Until there are reports none shows anything. -/
theorem Action.shown_of_run {a : Action} (h : a.isBeforeReports = true)
    (run : a.perform matchRule v env c = (.ok o, d)) :
    d.scenarioState.scenarioLists.map (·.shown) = c.scenarioState.scenarioLists.map (·.shown) := by
  by_cases sets : a.setsScenarioState = false
  · rw [a.scenarioState_of_run v sets run]
  cases a with
  | rule name => cases h
  | project a =>
    cases a with
    | header => cases h
    | _ => exact absurd rfl sets
  | scenario a => exact (a.keeps_shown env c).of_ok run
  | property a => exact (a.keeps_scenarioLists.seen (·.map (·.shown)) env c).of_ok run
  | report a =>
    -- neither header nor list of scenarios stands in front of all reports
    have added : a ≠ .header := by
      rintro rfl
      cases h
    have listed : a ≠ .scenarios := by
      rintro rfl
      cases h
    exact ((a.keeps_scenarioLists added listed).seen (·.map (·.shown)) env c).of_ok run
  | _ => exact absurd rfl sets

/-! ## When all scenarios are there -/

/-- What a report shows is changed for another list that is fair. -/
theorem ScenarioLists.Fair.modify {p : Plan.Project} (h : p.scenarioLists.Fair) {shown : List Nat}
    (enabled : ∀ i ∈ shown, p.scenarios[i]?.any (·.enabled) = true) (index : Nat) :
    ScenarioLists.Fair ⟨p.scenarios, (p.reports.modify index fun r =>
      { r with element := { r.element with scenarios := shown } }).map (·.element.scenarios)⟩ := by
  intro list mem
  obtain ⟨r, listed, rfl⟩ := List.mem_map.mp mem
  obtain ⟨j, there⟩ := List.mem_iff_getElem?.mp listed
  rw [List.getElem?_modify] at there
  obtain ⟨q, found, rfl⟩ := Option.map_eq_some_iff.mp there
  dsimp only
  split
  · exact .inr enabled
  · exact h _ (List.mem_map_of_mem (List.mem_of_getElem? found))

/-- Of those that are listed the enabled ones are left. -/
theorem Matcher.ends_enabledScenarios {ask : List Nat → Context → Prop} (items : List Value)
    (h : ∀ p shown, c.project = some p →
      (∀ i ∈ shown, p.scenarios[i]?.any (·.enabled) = true) → ask shown c) :
    Ends ask (enabledScenarios items) env c := by
  simp only [enabledScenarios, ends_bind, ends_project, ends_pure]
  refine fun p there => h p _ there fun i mem => ?_
  obtain ⟨item, -, kept⟩ := List.mem_filterMap.mp mem
  split at kept
  · split at kept
    · next enabled =>
      cases kept
      exact enabled
    · cases kept
  · cases kept

/-- Whether the scenarios of a state are those of a project, and each report shows the first one, or such
as are enabled. -/
def Context.FairTo (scenarios : List Plan.Scenario) (c : Context) : Prop :=
  ∃ l, c.scenarioState.scenarioLists = some l ∧ l.scenarios = scenarios ∧ l.Fair

/-- A report is added with the first scenario, or gets a list of enabled ones; the others are as
before. -/
theorem ReportAction.fair_perform {scenarios : List Plan.Scenario} (h : c.FairTo scenarios)
    (a : ReportAction) : Ends (fun _ d => d.FairTo scenarios) (a.perform v) env c := by
  obtain ⟨_, lined, rfl, fair⟩ := h
  obtain ⟨p, there, rfl⟩ := Option.map_eq_some_iff.mp lined
  by_cases added : a = .header
  · subst added
    simp only [perform, openReport, ends_bind, ends_take, ends_orFail, ends_project, ends_modify,
      ends_pure]
    intro _ _ _ _ kind _ q hq
    cases there.symm.trans hq
    refine ⟨_, rfl, rfl, fun shown mem => ?_⟩
    obtain ⟨r, listed, rfl⟩ := List.mem_map.mp mem
    -- a new report shows the first scenario alone
    rcases List.mem_append.mp listed with before | new
    · exact fair _ (List.mem_map_of_mem before)
    · rw [List.mem_singleton.mp new]
      exact .inl rfl
  by_cases listed : a = .scenarios
  · subst listed
    simp only [perform, change, ends_bind, ends_pure]
    -- a list that a plan gives has only enabled ones left
    refine ends_enabledScenarios _ fun q shown hq enabled => ?_
    cases there.symm.trans hq
    rw [ends_modifyReport]
    intro index _ q hq r _
    cases there.symm.trans hq
    exact ⟨_, rfl, rfl, fair.modify enabled index⟩
  · refine (keeps_scenarioLists added listed env c).weaken fun _ d kept => ?_
    exact ⟨_, kept.trans lined, rfl, fair⟩

/-- Where all scenarios are there, each report shows the first one, or such as are enabled. -/
theorem Action.fair_of_run {a : Action} (h : a.isBehindScenarios = true)
    (run : a.perform matchRule v env c = (.ok o, d)) {scenarios : List Plan.Scenario}
    (fair : c.FairTo scenarios) : d.FairTo scenarios := by
  have same (h : d.scenarioState.scenarioLists = c.scenarioState.scenarioLists) : d.FairTo scenarios := by
    rwa [Context.FairTo, h]
  by_cases sets : a.setsScenarioState = false
  · exact same (congrArg ScenarioState.scenarioLists (a.scenarioState_of_run v sets run))
  cases a with
  | rule name => cases h
  | project a =>
    cases a with
    | header => cases h
    | _ => exact absurd rfl sets
  | scenario a =>
    cases a with
    | header | enable enabled => cases h
    | close =>
      cases run
      exact fair
    | select =>
      have keeps : Keeps (fun c => c.scenarioState.scenarioLists) (ScenarioAction.perform v .select) := by
        intro env c
        simp [ScenarioAction.perform, scenarioIndex, Context.scenarioState]
      exact same ((keeps env c).of_ok run)
    | index => exact absurd rfl sets
  | property a => exact same ((a.keeps_scenarioLists env c).of_ok run)
  | report a => exact (a.fair_perform fair).of_ok run
  | _ => exact absurd rfl sets

/-- A project starts without reports. -/
theorem Action.shown_of_run_header (run : (Action.project .header).perform matchRule v env c = (.ok o, d)) :
    d.scenarioState.scenarioLists.map (·.shown) = some [] := by
  have ends : Ends (fun _ d => d.scenarioState.scenarioLists.map (·.shown) = some [])
      (ProjectAction.perform v .header) env c := by
    simp [ProjectAction.perform, Context.scenarioState, Plan.Project.scenarioLists, Plan.Project.initial]
  obtain ⟨_, x, started, last⟩ := exists_of_run_bind run
  cases last
  exact ends.of_ok started

end

/-! ## Plans -/

/-- Whether the rule for projects stands for a header, for a part in which there are no reports, and for
one in which all scenarios are there. -/
structure GrammarTable.Phased (t : GrammarTable) (before behind : RuleId → Bool) (project : RuleId) :
    Prop where
  single : t.isSingle project = true
  parts : ∀ p ∈ (t.rule project).patterns, p.action = none ∧ ∃ header body properties,
    p.symbols = [.rule header, .rule body, .rule properties] ∧ t.isSingle header = true ∧
      (∀ q ∈ (t.rule header).patterns, q.action = some (.project .header)) ∧ before body = true ∧
      behind properties = true
  before : t.Encloses before Action.isBeforeReports
  behind : t.Encloses behind Action.isBehindScenarios

section
variable {ofRule : RuleId → Shape} {effects : Effects} {env : Surroundings} {c d : Context}
  {before behind : RuleId → Bool} {project : RuleId} {v : Option Value}

/-- What the actions of some rules keep is kept while one of them is matched. -/
theorem Course.keeps_of_acts {inside : RuleId → Bool} {acts : Action → Bool}
    (ht : env.grammar.Encloses inside acts) (ask : Context → Prop)
    (noise : ∀ c tokens journal depth stop, ask c → ask { c with tokens, journal, depth, stop })
    (acted : ∀ (a : Action) matchRule v o c d, acts a = true →
      a.perform matchRule v env c = (.ok o, d) → ask c → ask d)
    {id : RuleId} (course : Course ofRule effects env (.rule id) c v d) (within : inside id = true)
    (h : ask c) : ask d := by
  refine course.keeps ht (fun c => noise c c.tokens) (fun c _ => noise c _ _ c.depth c.stop) ?_ within h
  intro matchRule p v o c d _ within there run
  rcases cases_of_run_performed run with ⟨-, ⟨⟩, rfl⟩ | ⟨a, journal, action, run⟩
  · exact there
  · have mine := (Bool.and_eq_true_iff.mp within).2
    rw [action, Option.all_some] at mine
    exact acted a matchRule v o _ d mine run (noise c c.tokens journal c.depth c.stop there)

/-- In a project that has been read, each report shows the first scenario, or such as are enabled. -/
theorem Course.fair (ht : env.grammar.Phased before behind project)
    (course : Course ofRule effects env (.rule project) c v d) :
    ∃ scenarios, d.FairTo scenarios := by
  obtain ⟨p, _, x, mem, rfl, whole⟩ := course.of_isSingle ht.single
  obtain ⟨none, header, body, properties, form, single, starts, early, late⟩ := ht.parts p mem
  cases whole with
  | pattern course _ acted =>
    rw [performed, none] at acted
    cases acted
    rw [form] at course
    cases course with
    | terminal hs => cases hs
    | reference head course =>
    cases course with
    | terminal hs => cases hs
    | reference inside course =>
    cases course with
    | terminal hs => cases hs
    | reference last course =>
    cases course
    -- the header starts the project
    obtain ⟨q, _, y, listed, rfl, heading⟩ := head.of_isSingle single
    cases heading with
    | @pattern _ _ _ _ _ _ matchRule _ _ acted =>
    obtain ⟨journal, run⟩ := exists_run_performed matchRule (starts q listed) _ _ env _
    rw [run] at acted
    have empty := Action.shown_of_run_header acted
    -- its body adds no reports
    have still := inside.keeps_of_acts ht.before
      (fun c => c.scenarioState.scenarioLists.map (·.shown) = some []) (fun _ _ _ _ _ h => h)
      (fun a _ _ _ _ _ acts run h => (a.shown_of_run acts run).trans h) early empty
    obtain ⟨l, lined, none⟩ := Option.map_eq_some_iff.mp still
    refine ⟨l.scenarios, ?_⟩
    have fair := last.keeps_of_acts ht.behind (Context.FairTo l.scenarios)
      (fun _ _ _ _ _ h => h) (fun a _ _ _ _ _ acts run h => a.fair_of_run acts run h) late
      ⟨l, lined, rfl, fun shown mem => by rw [none] at mem; cases mem⟩
    exact fair

end

end Planfile

/-! ## The rules of the language -/

namespace Planfile

/-- Whether all that a report shows are scenarios of the project that are enabled. -/
def Plan.Project.ShowsEnabled (p : Plan.Project) (r : Plan.Report) : Prop :=
  ∀ i ∈ r.element.scenarios, ∃ s, p.scenario? i = some s ∧ s.enabled = true

namespace Language

open Matcher

/-- The rules that are read when there are no reports. -/
def isBeforeReports (t : GrammarTable) (id : RuleId) : Bool :=
  ! ["project", "projectHeader", "properties", "report", "reportHeader", "reportBody",
    "reportAttributes"].contains (t.rule id).name

/-- The rules that are read when all scenarios are there. -/
def isBehindScenarios (t : GrammarTable) (id : RuleId) : Bool :=
  ! ["project", "projectHeader", "projectBody", "projectBodyAttributes", "scenario", "scenarioHeader",
    "scenarioBody", "scenarioAttributes"].contains (t.rule id).name

/-- Whether the rule for projects is found to stand for a header, a body and what is behind it. -/
def checkParts (t : GrammarTable) (project : RuleId) : Bool :=
  t.isSingle project && (t.rule project).patterns.all fun p =>
    p.action == none &&
      match p.symbols with
      | [.rule header, .rule body, .rule properties] =>
        t.isSingle header &&
          (t.rule header).patterns.all (·.action == some (.project .header)) &&
          isBeforeReports t body && isBehindScenarios t properties
      | _ => false

/-- The language is found to have scenarios in front of reports. -/
theorem check_phases :
    satisfies (fun t =>
      (t.ruleId? "project").any (checkParts t) &&
        t.checkWithin (isBeforeReports t) Action.isBeforeReports &&
        t.checkWithin (isBehindScenarios t) Action.isBehindScenarios) = true := by
  decide +kernel

/-- The language has scenarios in front of reports. -/
theorem phased {table : GrammarTable} (h : grammar = .ok table) {project : RuleId}
    (known : table.ruleId? "project" = some project) :
    table.Phased (isBeforeReports table) (isBehindScenarios table) project := by
  have found := of_satisfies check_phases h
  rw [known, Option.any_some] at found
  simp only [Bool.and_eq_true] at found
  obtain ⟨⟨parts, before⟩, behind⟩ := found
  obtain ⟨single, parts⟩ := Bool.and_eq_true_iff.mp parts
  refine ⟨single, fun p mem => ?_, GrammarTable.encloses_of_check (fun _ _ _ => rfl) before,
    GrammarTable.encloses_of_check (fun _ _ _ => rfl) behind⟩
  obtain ⟨action, form⟩ := Bool.and_eq_true_iff.mp (List.all_eq_true.mp parts p mem)
  refine ⟨beq_iff_eq.mp action, ?_⟩
  split at form
  · next header body properties symbols =>
    simp only [Bool.and_eq_true] at form
    obtain ⟨⟨⟨single, starts⟩, early⟩, late⟩ := form
    exact ⟨header, body, properties, symbols, single,
      fun q listed => beq_iff_eq.mp (List.all_eq_true.mp starts q listed), early, late⟩
  · cases form

/-- Whatever plan makes a project, the scenarios that a report shows are there. They are enabled, however
the report has come to show them, but for one case: the report shows the first scenario alone, as every
report does until its body lists others, and this scenario is disabled. -/
theorem showsEnabled_iff_of_plan {env : Surroundings} (h : grammar = .ok env.grammar)
    {tokens : TokenSource} {journal : Log.Journal} {p : Plan.Project} {c : Context}
    (run : plan env (Context.initial tokens journal) = (.ok p, c)) :
    ∀ r ∈ p.reports, (∀ i ∈ r.element.scenarios, (p.scenario? i).isSome) ∧
      (p.ShowsEnabled r ↔ r.element.scenarios = [0] → (p.scenario? 0).any (·.enabled)) := by
  obtain ⟨charted, -⟩ := exists_charted h
  obtain ⟨id, v, d, known, course, -, there, -⟩ := course_of_plan h run
  obtain ⟨stays, -⟩ := course.stays (casts h) charted.typed (Context.intact_initial tokens journal)
  obtain ⟨_, l, lined, rfl, fair⟩ := course.fair (phased h known)
  rw [Context.scenarioState, there] at lined
  obtain rfl := Option.some.inj lined
  intro r mem
  have intact := ((stays.intact.project p there).reports r mem).scenarios
  have shown (i : Nat) (listed : i ∈ r.element.scenarios) : ∃ s, p.scenario? i = some s :=
    ⟨_, List.getElem?_eq_getElem (intact i listed)⟩
  refine ⟨fun i listed => Option.isSome_iff_exists.mpr (shown i listed), fun enabled first => ?_,
    fun first i listed => ?_⟩
  · obtain ⟨s, found, on⟩ := enabled 0 (by rw [first]; exact List.mem_singleton_self 0)
    rw [found]
    exact on
  · obtain ⟨s, found⟩ := shown i listed
    refine ⟨s, found, ?_⟩
    -- the list is the one of the start, or only enabled ones were put into it
    rcases fair _ (List.mem_map_of_mem mem) with alone | enabled
    · have on := first alone
      rw [alone] at listed
      rw [← List.mem_singleton.mp listed, found] at on
      exact on
    · have on := enabled i listed
      rw [show p.scenarioLists.scenarios[i]? = some s from found] at on
      exact on

/-- A plan with a disabled scenario and an enabled one, in which the first report lists both and the second
one lists none. -/
def switchedPlan : TokenStream :=
  plainStream <| yearHeader ++
    [.mark .leftBrace, .id "scenario", .id "plan", .string "Plan", .mark .leftBrace, .id "disabled",
      .id "scenario", .id "late", .string "Late", .mark .rightBrace, .mark .rightBrace,
    .id "export", .string "both", .mark .leftBrace,
      .id "scenarios", .id "plan", .mark .comma, .id "late", .mark .rightBrace,
    .id "export", .string "none", .eof]

/-- The plan makes a project, in which the first report shows the second scenario and the second one the
first. -/
theorem run_switchedPlan :
    satisfies (fun t =>
      (plan ⟨t, .empty, .default⟩ (.initial (.ofStream switchedPlan "main.tjp" none) .silent)).1.toOption.any
        fun p => p.reports.map (·.element.scenarios) == [[1], [0]] &&
          p.scenarios.map (·.enabled) == [false, true]) = true := by
  decide +kernel

/-- What the first report shows is enabled. -/
theorem showsEnabled_of_plan_switchedPlan :
    ∃ table p c, grammar = .ok table ∧
      plan ⟨table, .empty, .default⟩ (.initial (.ofStream switchedPlan "main.tjp" none) .silent) =
        (.ok p, c) ∧
      ∃ r ∈ p.reports, r.element.scenarios = [1] ∧ p.ShowsEnabled r := by
  obtain ⟨table, p, c, made, run, found⟩ := exists_run_of_check run_switchedPlan
  simp only [Bool.and_eq_true, beq_iff_eq] at found
  obtain ⟨reports, -⟩ := found
  have mem : [1] ∈ p.reports.map (·.element.scenarios) := by
    rw [reports]
    exact List.mem_cons_self
  obtain ⟨r, listed, shown⟩ := List.mem_map.mp mem
  refine ⟨table, p, c, made, run, r, listed, shown, ?_⟩
  have iff := (@showsEnabled_iff_of_plan ⟨table, .empty, .default⟩ made _ _ p c run r listed).2
  exact iff.mpr fun first => by rw [shown] at first; cases first

/-- A plan with a disabled scenario alone, and a report that lists none. -/
def unlistedPlan : TokenStream :=
  plainStream <| yearHeader ++
    [.mark .leftBrace, .id "scenario", .id "plan", .string "Plan", .mark .leftBrace, .id "disabled",
      .mark .rightBrace, .mark .rightBrace,
    .id "export", .string "All", .eof]

/-- The report shows the disabled scenario. -/
theorem showsDisabled_unlistedPlan :
    ∃ table p c, grammar = .ok table ∧
      plan ⟨table, .empty, .default⟩ (.initial (.ofStream unlistedPlan "main.tjp" none) .silent) =
        (.ok p, c) ∧
      ¬ ∀ r ∈ p.reports, p.ShowsEnabled r := by
  have runs : satisfies (fun t =>
      (plan ⟨t, .empty, .default⟩ (.initial (.ofStream unlistedPlan "main.tjp" none) .silent)).1.toOption.any
        fun p => p.reports.map (·.element.scenarios) == [[0]] &&
          p.scenarios.map (·.enabled) == [false]) = true := by
    decide +kernel
  obtain ⟨table, p, c, made, run, found⟩ := exists_run_of_check runs
  refine ⟨table, p, c, made, run, fun enabled => ?_⟩
  simp only [Bool.and_eq_true, beq_iff_eq] at found
  obtain ⟨reports, scenarios⟩ := found
  obtain ⟨r, _, listed, shown, -⟩ := List.map_eq_cons_iff.mp reports
  obtain ⟨s, _, only, off, -⟩ := List.map_eq_cons_iff.mp scenarios
  obtain ⟨_, there, on⟩ := enabled r (by rw [listed]; exact List.mem_cons_self) 0
    (by rw [shown]; exact List.mem_singleton_self 0)
  rw [Plan.Project.scenario?, only] at there
  cases there
  rw [off] at on
  cases on

end Language

end Planfile
