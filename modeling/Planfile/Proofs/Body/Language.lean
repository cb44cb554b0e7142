import Planfile.Proofs.Body.Trail
import Planfile.Proofs.Course.Language
import Planfile.Proofs.Course.Origin

/-!
# Planfile — the registers while a plan is read

The rules of the language agree with a layout: bodies stand where they can, and what a rule opens is closed
where the alternative with it ends. So while a plan is read, the registers of the state say which bodies are
open around the next token, whatever the plan says and wherever it is refused. Between the statements about
tasks, resources and reports no register is set, and no statement misses what its body is about.

Main results:

* `Language.shows_of_trail` — the registers show the bodies that a statement is in.
* `Language.registers_of_plan` — so it is throughout a plan, and nothing is found missing.
-/

namespace Planfile

open Matcher
open Plan (PropertyKind)

/-- Whether the registers of a state are those of a statement in some bodies. A scenario other than the first
one is selected at most for the attribute that stands next. -/
structure Context.Registers (c : Context) (bodies : List Body) : Prop where
  property : ∀ kind i, c.property = some (kind, i) ↔ innermost bodies (.property kind) = some i
  scenario : c.scenario = innermost bodies .scenario
  report : c.report = innermost bodies .report
  column : c.column = none ↔ innermost bodies .column = none
  target : c.extendTarget = none ↔ innermost bodies .target = none
  scenarioIndex : c.scenarioIndex ≠ 0 → zone bodies = some .selected

/-- Whether no register is set. -/
structure Context.AtRest (c : Context) : Prop where
  property : c.property = none
  scenario : c.scenario = none
  report : c.report = none
  column : c.column = none
  target : c.extendTarget = none
  scenarioIndex : c.scenarioIndex = 0

section
variable {c : Context} {bodies : List Body}

/-- Before the first token nothing is open. -/
theorem Context.shows_initial (tokens : TokenSource) (journal : Log.Journal) :
    (Context.initial tokens journal).openScopes.Shows [] where
  current s _ := by cases s <;> rfl
  selected h := absurd rfl h
  holds := trivial

/-- Where the registers show bodies, they are those of a statement in these. -/
theorem OpenScopes.Shows.registers (h : c.openScopes.Shows bodies) : c.Registers bodies where
  property kind i := by
    rw [← h.current (.property kind) (by simp)]
    refine ⟨fun inside => ?_, Context.property_of_openScopes⟩
    simp [Context.openScopes, openProperty?, inside]
  scenario := h.current .scenario (by simp)
  report := h.current .report (by simp)
  column := by
    rw [← h.current .column (by simp)]
    exact Option.map_eq_none_iff.symm
  target := by
    rw [← h.current .target (by simp)]
    exact Option.map_eq_none_iff.symm
  scenarioIndex selected := by
    refine h.selected ?_
    simp [Context.openScopes, selected]

/-- Where nothing but a project is open, no register is set. -/
theorem OpenScopes.Shows.atRest (h : c.openScopes.Shows bodies) (outside : zone bodies = some .project) :
    c.AtRest := by
  obtain ⟨b, first, project⟩ := Option.map_eq_some_iff.mp outside
  obtain ⟨outer, rfl⟩ := List.head?_eq_some_iff.mp first
  -- around a project there is nothing
  have mem := h.holds.1
  rw [project] at mem
  have empty : outer = [] := by
    cases outer with
    | nil => rfl
    | cons _ _ => simp [Scope.inside, zone] at mem
  subst empty
  have nothing {s : Scope} (other : s ≠ .project) : innermost [b] s = none :=
    innermost_cons_ne (project ▸ Ne.symm other)
  have registers := h.registers
  refine ⟨?_, ?_, ?_, ?_, ?_, ?_⟩
  · cases inside : c.property with
    | none => rfl
    | some current =>
      have found := (registers.property _ _).mp inside
      rw [nothing (by simp)] at found
      cases found
  · rw [registers.scenario, nothing (by simp)]
  · rw [registers.report, nothing (by simp)]
  · exact registers.column.mpr (nothing (by simp))
  · exact registers.target.mpr (nothing (by simp))
  · by_contra selected
    rw [registers.scenarioIndex selected] at outside
    cases outside

end

namespace Language

/-! ## The layout of the language -/

/-- The rules that open something. -/
def opening : List (String × Scope) := [
  ("project", .project), ("projectHeader", .project), ("taskHeader", .property .task),
  ("resourceHeader", .property .resource), ("scenarioHeader", .scenario), ("scenarioId", .selected),
  ("reportHeader", .report), ("columnId", .column), ("extendProperty", .target)]

/-- The rules that can stand in some bodies only. -/
def standing : List (String × List (Option Scope)) := [
  ("project", [none]), ("projectHeader", [none]), ("projectBody", [some .project]),
  ("projectBodyAttributes", [some .project]), ("properties", [some .project]),
  ("scenario", [some .project, some .scenario]), ("scenarioHeader", [some .project, some .scenario]),
  ("scenarioBody", [some .scenario]), ("scenarioAttributes", [some .scenario]),
  ("scenarioId", [some (.property .task), some (.property .resource)]),
  ("task", [some .project, some (.property .task)]),
  ("taskHeader", [some .project, some (.property .task)]),
  ("taskBody", [some (.property .task)]), ("taskAttributes", [some (.property .task)]),
  ("taskScenarioAttributes", [some (.property .task), some .selected]),
  ("resource", [some .project, some (.property .resource)]),
  ("resourceHeader", [some .project, some (.property .resource)]),
  ("resourceBody", [some (.property .resource)]), ("resourceAttributes", [some (.property .resource)]),
  ("resourceScenarioAttributes", [some (.property .resource), some .selected]),
  ("extendProperty", [some .project]), ("extendBody", [some .target]), ("extendAttributes", [some .target]),
  ("report", [some .project]), ("reportHeader", [some .project]), ("reportBody", [some .report]),
  ("reportAttributes", [some .report]), ("columnDefs", [some .report]), ("moreColumnDefs", [some .report]),
  ("columnDef", [some .report]), ("columnId", [some .report]), ("columnBody", [some .column]),
  ("columnOptions", [some .column])]

/-- Further rules that can stand in the header of a project, where nothing is open yet. -/
def unopened : List String := ["interval", "intervalEnd", "intervalDuration", "durationUnit"]

/-- The layout of the language. All other rules can stand wherever something is open. -/
def layoutIn (t : GrammarTable) : Layout where
  allows id z :=
    match standing.lookup (t.rule id).name with
    | some places => places.contains z
    | none => z.isSome || unopened.contains (t.rule id).name
  opens id := opening.lookup (t.rule id).name

/-- The rules of the language are found to agree with its layout. -/
theorem check_layout :
    satisfies (fun t => t.checkLayout (layoutIn t)) = true := by
  decide +kernel

/-- The rules of the language agree with its layout. -/
theorem laidOut {table : GrammarTable} (h : grammar = .ok table) : table.LaidOut (layoutIn table) := by
  have found := of_satisfies check_layout h
  exact GrammarTable.laidOut_of_check found

section
variable {t : GrammarTable} {id : RuleId} {z : Option Scope}

/-- A project can stand where nothing is open. -/
theorem allows_project (known : t.ruleId? "project" = some id) : (layoutIn t).allows id none = true := by
  show (match standing.lookup (t.rule id).name with
    | some places => places.contains none
    | none => _) = true
  rw [GrammarTable.name_of_ruleId? known]
  decide

/-- A rule that can stand in one place only stands there. -/
theorem zone_of_standing {name : String} {place : Option Scope} (known : t.ruleId? name = some id)
    (listed : standing.lookup name = some [place]) (allowed : (layoutIn t).allows id z = true) : z = place := by
  change (match standing.lookup (t.rule id).name with
    | some places => places.contains z
    | none => _) = true at allowed
  rw [GrammarTable.name_of_ruleId? known, listed] at allowed
  simpa using allowed

/-- What is beside tasks, resources and reports stands next in the project. -/
theorem zone_of_properties (known : t.ruleId? "properties" = some id)
    (allowed : (layoutIn t).allows id z = true) : z = some .project :=
  zone_of_standing known (by decide) allowed

/-- A rule of which nothing else is said stands where something is open. -/
theorem isSome_zone {name : String} (known : t.ruleId? name = some id) (unlisted : standing.lookup name = none)
    (later : unopened.contains name = false) (allowed : (layoutIn t).allows id z = true) : z.isSome = true := by
  change (match standing.lookup (t.rule id).name with
    | some places => places.contains z
    | none => z.isSome || unopened.contains (t.rule id).name) = true at allowed
  rwa [GrammarTable.name_of_ruleId? known, unlisted, later, Bool.or_false] at allowed

end

/-! ## Plans -/

section
variable {env : Surroundings} (h : grammar = .ok env.grammar) {tokens : TokenSource}
  {journal : Log.Journal} {id : RuleId} (known : env.grammar.ruleId? "project" = some id)
  {n : Nat} {s : Stage} {bodies : List Body} {x : Context}

include h known

/-- Throughout a plan the registers show the bodies that the trail is in. -/
theorem shows_of_trail (trail : Trail (layoutIn env.grammar) env ampleFuel (.symbols [.rule id]) []
    (.initial tokens journal) n s bodies x) :
    x.openScopes.Shows bodies ∧ s.Fits (layoutIn env.grammar) (zone bodies) := by
  have fits : (Stage.symbols [.rule id]).Fits (layoutIn env.grammar) (zone []) := by
    have allowed := allows_project known
    show ∃ opened, (if (layoutIn env.grammar).allows id none = true then _ else none) = some opened
    rw [if_pos allowed]
    cases (layoutIn env.grammar).opened (.rule id) with
    | none => exact ⟨none, rfl⟩
    | some s => exact ⟨some s, rfl⟩
  exact trail.shows (exists_charted h).1 (laidOut h) (grounded_initial _ _ tokens journal)
    (stands_initial h known) fits (Context.shows_initial tokens journal)

/-- Between the statements about tasks, resources and reports no register is set. -/
theorem atRest_of_visits {properties : RuleId} (named : env.grammar.ruleId? "properties" = some properties)
    (visit : Visits env ampleFuel (.symbols [.rule id]) (.initial tokens journal) n
      (.alternatives properties) x) : x.AtRest := by
  obtain ⟨bodies, trail⟩ := visit.exists_trail (layoutIn env.grammar) []
  obtain ⟨shown, allowed⟩ := shows_of_trail h known trail
  exact shown.atRest (zone_of_properties named allowed)

/-- Behind the last one of them no register is set. -/
theorem atRest_of_run {properties : RuleId} (named : env.grammar.ruleId? "properties" = some properties)
    (visit : Visits env ampleFuel (.symbols [.rule id]) (.initial tokens journal) n (.rule properties) x)
    {v : Option Value} {y : Context} (run : matchRule n properties env x = (.ok v, y)) : y.AtRest := by
  obtain ⟨bodies, trail⟩ := visit.exists_trail (layoutIn env.grammar) []
  obtain ⟨shown, allowed⟩ := shows_of_trail h known trail
  obtain ⟨charted, -⟩ := exists_charted h
  obtain ⟨grounded, e, he, ready⟩ :=
    visit.stands charted (grounded_initial _ _ tokens journal) (stands_initial h known)
  have behind := (Course.of_run charted n properties x v y e grounded he ready run).shows (laidOut h) shown
    allowed
  -- nothing has been opened
  have nothing : (layoutIn env.grammar).opens properties = none := by
    show opening.lookup (env.grammar.rule properties).name = none
    rw [GrammarTable.name_of_ruleId? named]
    decide
  rw [nothing] at behind
  exact behind.atRest (zone_of_properties named allowed)

omit h known in
/-- What is wrong with a token that does not fit is not that anything is missing. -/
theorem ne_of_unfit (g : GrammarTable) (fault : ParseFault) (other : ∀ f, fault ≠ .semantic f)
    {missed : SemanticFault} {l : Location} :
    Stop.error ⟨.semantic missed, l⟩ ≠ .error ⟨(unknownAttribute? g x).getD fault, x.tokens.location⟩ := by
  intro same
  cases unknown : unknownAttribute? g x with
  | none =>
    rw [unknown] at same
    injection same with same
    injection same with same
    exact other missed same.symm
  | some found =>
    rw [unknown] at same
    cases same
    unfold unknownAttribute? at unknown
    split at unknown
    · split at unknown <;> cases unknown
    · cases unknown

/-- Where reading breaks off, nothing is found missing. -/
theorem not_missing_of_breaks {fault : SemanticFault} (listed : fault ∈ missing) {l : Location} {y : Context}
    (visit : Visits env ampleFuel (.symbols [.rule id]) (.initial tokens journal) n s x) :
    ¬ Breaks env n s x (.error ⟨.semantic fault, l⟩) y := by
  intro breaks
  obtain ⟨bodies, trail⟩ := visit.exists_trail (layoutIn env.grammar) []
  obtain ⟨shown, fits⟩ := shows_of_trail h known trail
  generalize hstop : Stop.error ⟨.semantic fault, l⟩ = stop at breaks
  cases breaks with
  | @acting p v _ _ _ run =>
    subst hstop
    obtain ⟨a, action, misses, -⟩ := (prepared_of_visits h known visit).objects run
    exact Action.not_misses shown (fits a action) listed misses
  | @unfit _ a _ _ hs refused =>
    refine ne_of_unfit env.grammar (a.refusal x.tokens.peek) (fun f same => ?_) hstop
    cases a <;> cases same
  | _ => cases hstop

end

/-- The rules for the bodies of tasks and resources. -/
def ownBodies : List (String × PropertyKind) := [("taskBody", .task), ("resourceBody", .resource)]

/-- The bodies of tasks and resources stand behind their headers. -/
theorem zone_of_ownBodies {t : GrammarTable} {r : String × PropertyKind} (mem : r ∈ ownBodies)
    {id : RuleId} (known : t.ruleId? r.1 = some id) {z : Option Scope}
    (allowed : (layoutIn t).allows id z = true) : z = some (.property r.2) := by
  have only : ∀ r ∈ ownBodies, standing.lookup r.1 = some [some (.property r.2)] := by decide
  exact zone_of_standing known (only r mem) allowed

/-- Whatever a plan says, and wherever it is refused, a trail leads to each point of its reading. There the
registers are those of the bodies that the trail is in: inside of the body of a task or a resource this one is
current, and a scenario other than the first one is selected at most behind the name of a scenario, up to the
end of the attribute that it stands before. Whenever a statement beside tasks, resources and reports can
stand next, and behind all of them, no register is set. So no plan is refused for want of a project, a task or
a resource, a report, a column or a scenario. -/
theorem registers_of_plan {env : Surroundings} (h : grammar = .ok env.grammar) {tokens : TokenSource}
    {journal : Log.Journal} {id : RuleId} (known : env.grammar.ruleId? "project" = some id) :
    (∀ n s x, Visits env ampleFuel (.symbols [.rule id]) (.initial tokens journal) n s x →
      ∃ bodies, Trail (layoutIn env.grammar) env ampleFuel (.symbols [.rule id]) []
        (.initial tokens journal) n s bodies x) ∧
    (∀ n s bodies x, Trail (layoutIn env.grammar) env ampleFuel (.symbols [.rule id]) []
      (.initial tokens journal) n s bodies x → x.Registers bodies ∧
        ∀ r ∈ ownBodies, ∀ body, env.grammar.ruleId? r.1 = some body → s = .rule body →
          ∃ i outer, bodies = ⟨.property r.2, i⟩ :: outer ∧ x.property = some (r.2, i)) ∧
    (∀ properties, env.grammar.ruleId? "properties" = some properties → ∀ n x,
      (Visits env ampleFuel (.symbols [.rule id]) (.initial tokens journal) n (.alternatives properties) x →
        x.AtRest) ∧
      (Visits env ampleFuel (.symbols [.rule id]) (.initial tokens journal) n (.rule properties) x →
        ∀ v y, matchRule n properties env x = (.ok v, y) → y.AtRest)) ∧
    ∀ fault ∈ missing, ∀ l c,
      plan env (.initial tokens journal) ≠ (.error (.error ⟨.semantic fault, l⟩), c) := by
  refine ⟨fun n s x visit => visit.exists_trail _ [], fun n s bodies x trail => ?_,
    fun properties named n x => ⟨atRest_of_visits h known named,
      fun visit v y run => atRest_of_run h known named visit run⟩,
    fun fault listed l c run => ?_⟩
  · obtain ⟨shown, fits⟩ := shows_of_trail h known trail
    refine ⟨shown.registers, fun r mem body named here => ?_⟩
    subst here
    obtain ⟨b, first, scope⟩ := Option.map_eq_some_iff.mp (zone_of_ownBodies mem named fits)
    obtain ⟨outer, rfl⟩ := List.head?_eq_some_iff.mp first
    have own : b = ⟨.property r.2, b.entry⟩ := by rw [← scope]
    refine ⟨b.entry, outer, congrArg (· :: outer) own, (shown.registers.property _ _).mpr ?_⟩
    rw [← scope]
    exact innermost_cons_self
  · -- a plan stops at an action, at the end of its text, or for want of a project
    rcases cases_of_run_plan known run with failed | ⟨v, e, parsed, refused | none⟩
    · rcases Halts.of_run failed with fuel | ⟨_, _, x, y, visit, breaks, _⟩
      · cases fuel
      · exact not_missing_of_breaks h known listed (.reference visit) breaks
    · exact ne_of_unfit env.grammar _ (fun f same => by cases same) refused.2
    · exact started_of_run h known parsed none

/-- A plan in which a task inside of another one has an attribute for the second scenario, in front of a
report with a column that has a title. -/
def selectingPlan : TokenStream :=
  plainStream <| yearHeader ++
    [.mark .leftBrace, .id "scenario", .id "plan", .string "Plan", .mark .leftBrace,
      .id "scenario", .id "late", .string "Late", .mark .rightBrace, .mark .rightBrace,
    .id "task", .id "a", .string "A", .mark .leftBrace,
      .id "task", .id "b", .string "B", .mark .leftBrace, .idWithColon "late", .id "priority", .integer 3,
        .id "priority", .integer 7, .mark .rightBrace,
      .id "priority", .integer 5, .mark .rightBrace,
    .id "htmltaskreport", .string "r", .mark .leftBrace, .id "columns", .id "name", .mark .leftBrace,
      .id "title", .string "Name", .mark .rightBrace, .mark .rightBrace, .eof]

/-- Each priority of the plan is that of the task in whose body it stands. -/
theorem run_selectingPlan :
    satisfies (fun t =>
      (plan ⟨t, .empty, .default⟩ (.initial (.ofStream selectingPlan "main.tjp" none) .silent)).1.toOption.any
        fun p => p.tasks.properties.toList.map (·.scenarioAttributes) ==
          [[[("priority", .integer 5)]], [[("priority", .integer 7)], [("priority", .integer 3)]]]) =
      true := by
  decide +kernel

/-- While it is read, the registers are those of the bodies that the trail is in. -/
theorem registers_of_plan_selectingPlan :
    ∃ table p c, grammar = .ok table ∧
      plan ⟨table, .empty, .default⟩ (.initial (.ofStream selectingPlan "main.tjp" none) .silent) = (.ok p, c) ∧
      ∃ id, table.ruleId? "project" = some id ∧ ∀ n s bodies x,
        Trail (layoutIn table) ⟨table, .empty, .default⟩ ampleFuel (.symbols [.rule id]) []
          (.initial (.ofStream selectingPlan "main.tjp" none) .silent) n s bodies x → x.Registers bodies := by
  obtain ⟨table, p, c, made, run, -⟩ := exists_run_of_check run_selectingPlan
  obtain ⟨-, id, known, -⟩ := exists_charted made
  refine ⟨table, p, c, made, run, id, known, fun n s bodies x trail => ?_⟩
  exact ((@registers_of_plan ⟨table, .empty, .default⟩ made _ _ id known).2.1 n s bodies x trail).1

end Language

end Planfile
