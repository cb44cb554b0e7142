import Planfile.Proofs.Matching.Levels
import Planfile.Proofs.Scenario.Table
import Planfile.Proofs.Statement.Retelling
import Planfile.Proofs.Words.Soundness

/-!
# Planfile — the scenarios of a project are the declared forest

Statements that declare scenarios stand in the body of a project, one in the body of another. Their headers
are words of one rule, the ends of their bodies are those of one alternative, and between them only switches
change a scenario. So the table of a project can be read off its text: it holds one scenario for each
statement, and an id that is taken ends the reading.

Main results:

* `Prepared.table` — what an action does to the table is its note.
* `ScenarioAction.refuses_header` — a header with an id that is taken is objected to.
* `ScenarioTable.tracks` — the table comes from the notes on scenarios.
* `Language.scenarios_of_plan` — the table of a project is the forest of the statements in its text.
-/

namespace Planfile

open Matcher
open Plan (Scenario)

/-! ## What is seen of scenarios -/

/-- The table of scenarios in what a state says about them. As long as there is no project it is that of the
start. -/
def ScenarioState.table (s : ScenarioState) : ScenarioTable :=
  match s.scenarioLists with
  | some l => ⟨l.scenarios, s.scenario, s.scenariosReplaced⟩
  | none => { ScenarioTable.initial with replaced := s.scenariosReplaced }

/-- The table of scenarios of a state. -/
def Context.scenarioTable (c : Context) : ScenarioTable := c.scenarioState.table

theorem Context.scenarioTable_of_project {c : Context} {p : Plan.Project} (there : c.project = some p) :
    c.scenarioTable = ⟨p.scenarios, c.scenario, c.scenariosReplaced⟩ := by
  simp [scenarioTable, ScenarioState.table, scenarioState, there, Plan.Project.scenarioLists]

theorem Context.scenarioTable_of_none {c : Context} (unstarted : c.project = none) :
    c.scenarioTable = { ScenarioTable.initial with replaced := c.scenariosReplaced } := by
  simp [scenarioTable, ScenarioState.table, scenarioState, unstarted]

namespace ScenarioTable

/-- How the header of a scenario is read. -/
def reads (text : List Token) (note : Note (String × String) Bool) : Prop :=
  ∃ id name, text = [.id "scenario", .id id, .string name] ∧ note = .opens (id, name)

/-- What the rules of a grammar are for, as far as scenarios are concerned. -/
def concern (t : GrammarTable) : Concern (Note (String × String) Bool) where
  words id := if (t.rule id).name = "scenarioHeader" then some reads else none
  coda
    | .scenario (.enable enabled) => some (.tells enabled)
    | .scenario .close => some .closes
    | _ => none
  allows
    | .scenario .header | .includeFile _ => false
    | _ => true

/-- Scenarios, with what is seen of them and what becomes of this. -/
def matter (t : GrammarTable) : Matter (Note (String × String) Bool) ScenarioTable where
  toConcern := concern t
  view := Context.scenarioTable
  step := step

end ScenarioTable

/-! ## Actions -/

section
variable {v : Values} {env : Surroundings} {c d : Context} {o : Option Value}
  {matchRule : RuleId → Matcher (Option Value)}

/-- The header of a scenario declares it. -/
theorem ScenarioAction.table_header (run : header.perform v env c = (.ok o, d)) :
    ∃ id name, v.string 1 = .ok id ∧ v.string 2 = .ok name ∧ d.extensions = c.extensions ∧
      c.scenarioTable.step (.opens (id, name)) = some d.scenarioTable := by
  have ends : Ends (fun _ d => ∃ id name, v.string 1 = .ok id ∧ v.string 2 = .ok name ∧
      d.extensions = c.extensions ∧ c.scenarioTable.step (.opens (id, name)) = some d.scenarioTable)
      (header.perform v) env c := by
    simp only [perform, ends_bind, ends_openScenario, ends_pure]
    intro p there id first name second free
    refine ⟨id, name, first, second, trivial, ?_⟩
    rw [Context.scenarioTable_of_project there, Context.scenarioTable_of_project rfl]
    exact if_neg free
  exact ends.of_ok run

/-- Where its id is taken, this is objected to. -/
theorem ScenarioAction.refuses_header {p : Plan.Project} (there : c.project = some p) {id name : String}
    (first : v.string 1 = .ok id) (second : v.string 2 = .ok name)
    (taken : id ∈ c.scenarioTable.kept.map (·.id)) : ∃ location d,
      header.perform v env c = (.error (.error ⟨.semantic (.scenarioExists ⟨id⟩), location⟩), d) := by
  have kept : (if c.scenario.isNone && !c.scenariosReplaced then p.clearScenarios else p) =
      { p with scenarios := c.scenarioTable.kept } := by
    rw [Context.scenarioTable_of_project there, ScenarioTable.kept]
    split <;> rfl
  have adds := Plan.Project.addScenario_eq { p with scenarios := c.scenarioTable.kept }
    (.declared id name c.scenario)
  simp only [perform, openScenario, run_bind, run_get, project, there, orFail, run_pure, kept, run_modify,
    take, first, second, adds.trans (if_pos taken)]
  exact ⟨_, _, rfl⟩

/-- The end of its body goes back to the scenario around. -/
theorem ScenarioAction.table_close (run : close.perform v env c = (.ok o, d)) :
    c.scenarioTable.step .closes = some d.scenarioTable := by
  have ends : Ends (fun _ d => c.scenarioTable.step .closes = some d.scenarioTable)
      (close.perform v) env c := by
    simp only [perform, closeScenario, ends_bind, ends_modify, ends_pure]
    cases there : c.project with
    | none =>
      rw [Context.scenarioTable_of_none there, Context.scenarioTable_of_none rfl]
      rfl
    | some p =>
      rw [Context.scenarioTable_of_project there, Context.scenarioTable_of_project rfl]
      rfl
  exact ends.of_ok run

/-- A switch changes the scenario whose body is read. -/
theorem ScenarioAction.table_enable {enabled : Bool}
    (run : (enable enabled).perform v env c = (.ok o, d)) :
    c.scenarioTable.step (.tells enabled) = some d.scenarioTable := by
  have ends : Ends (fun _ d => c.scenarioTable.step (.tells enabled) = some d.scenarioTable)
      ((enable enabled).perform v) env c := by
    simp only [perform, enableScenario, ends_bind, ends_get, ends_orFail, ends_modify, ends_pure]
    intro i current p there s found
    rw [Context.scenarioTable_of_project there, Context.scenarioTable_of_project rfl, ScenarioTable.step,
      current]
    exact if_pos (List.getElem?_eq_some_iff.mp found).1
  exact ends.of_ok run

/-- What is said in reports changes no scenario. -/
theorem ReportAction.keeps_table (a : ReportAction) : Keeps Context.scenarioTable (a.perform v) := by
  intro env c
  cases a with
  | header | close | column | columnId | columnTitle | scenarios =>
    simp +contextual [perform, openReport, openColumn, closeColumn, Matcher.setTitle, change,
      enabledScenarios, Context.scenarioTable, ScenarioState.table, Context.scenarioState,
      Plan.Project.scenarioLists]
  | _ => exact (keeps_scenarioState v rfl).seen ScenarioState.table env c

/-- Tasks and resources are no scenarios, nor is one that is chosen for a value. -/
theorem PropertyAction.keeps_table (a : PropertyAction) : Keeps Context.scenarioTable (a.perform v) := by
  intro env c
  cases a with
  | header kind | leaveScenario =>
    simp +contextual [perform, Matcher.leaveScenario, Context.scenarioTable, ScenarioState.table,
      Context.scenarioState]
  | _ => exact (keeps_scenarioState v rfl).seen ScenarioState.table env c

/-- A project starts with the scenario of the start. -/
theorem ProjectAction.table_header (unstarted : c.project = none) {u : Unit}
    (run : header.perform v env c = (.ok u, d)) : d.scenarioTable = c.scenarioTable := by
  have ends : Ends (fun _ d => d.scenarioTable = c.scenarioTable) (header.perform v) env c := by
    simp only [perform, ends_bind, ends_take, ends_modify]
    intro id _ name _ version _ time _
    rw [Context.scenarioTable_of_none unstarted, Context.scenarioTable_of_project rfl]
    rfl
  exact ends.of_ok run

/-- What an action does to the table is its note, and if it is none the table stays. -/
theorem Prepared.table {ofRule : RuleId → Shape} {effects : Effects} {p : Pattern} {a : Action}
    (prepared : Prepared env.grammar ofRule effects p v c) (action : p.action = some a)
    (allowed : (ScenarioTable.concern env.grammar).allows a = true)
    (run : a.perform matchRule v env c = (.ok o, d)) :
    ((ScenarioTable.concern env.grammar).coda a).toList.foldlM ScenarioTable.step c.scenarioTable =
      some d.scenarioTable := by
  have single {note : Note (String × String) Bool} (h : c.scenarioTable.step note = some d.scenarioTable) :
      [note].foldlM ScenarioTable.step c.scenarioTable = some d.scenarioTable := by
    rw [List.foldlM_cons, h]
    rfl
  have same (h : d.scenarioTable = c.scenarioTable) :
      ([] : List (Note (String × String) Bool)).foldlM ScenarioTable.step c.scenarioTable =
        some d.scenarioTable := congrArg some h.symm
  cases a with
  | scenario a =>
    cases a with
    | header => cases allowed
    | enable enabled => exact single (ScenarioAction.table_enable (v := v) run)
    | close => exact single (ScenarioAction.table_close (v := v) run)
    | select =>
      have keeps : Keeps Context.scenarioTable (ScenarioAction.perform v .select) := by
        intro env c
        simp [ScenarioAction.perform, scenarioIndex, Context.scenarioTable, ScenarioState.table,
          Context.scenarioState]
      exact same ((keeps env c).of_ok run)
    | index => exact same (congrArg ScenarioState.table (Action.scenarioState_of_run v rfl run))
  | project a =>
    -- a project starts with its own scenario, which the table has from the beginning
    by_cases starts : a = .header
    · subst starts
      obtain ⟨_, x, started, last⟩ := exists_of_run_bind run
      cases last
      exact same (ProjectAction.table_header (prepared.allows _ action).unstarted started)
    · have sets : (Action.project a).setsScenarioState = false := by
        cases a <;> first | rfl | exact absurd rfl starts
      exact same (congrArg ScenarioState.table (Action.scenarioState_of_run v sets run))
  | property a => exact same ((a.keeps_table env c).of_ok run)
  | report a => exact same ((a.keeps_table env c).of_ok run)
  | rule name => exact (prepared.allows _ action).not_rule.elim
  | _ => exact same (congrArg ScenarioState.table (Action.scenarioState_of_run v rfl run))

end

/-! ## Rules -/

/-- How the header of a scenario is read. -/
def scenarioPattern : Pattern := headingPattern "scenario" (.scenario .header)

namespace ScenarioTable

/-- Whether a rule is for headers of scenarios. -/
def starts (t : GrammarTable) (id : RuleId) : Bool := (t.rule id).name == "scenarioHeader"

/-- Whether headers of scenarios are read in one way. -/
def checkHeaders (t : GrammarTable) : Bool :=
  (List.range t.rules.size).all fun i =>
    !starts t ⟨i⟩ || t.isOnly scenarioPattern ⟨i⟩

/-- The word by which the scenario whose body is read is enabled or disabled. -/
def switchWord (enabled : Bool) : String := if enabled then "enabled" else "disabled"

/-- Whether an alternative is such a word, if it is a switch. -/
def isWordOfSwitch (p : Pattern) : Bool :=
  match p.action with
  | some (.scenario (.enable enabled)) => p.symbols == [.literal (switchWord enabled)]
  | _ => true

/-- Whether scenarios are enabled and disabled by these words alone. -/
def checkSwitches (t : GrammarTable) : Bool :=
  (List.range t.rules.size).all fun i => (t.rule ⟨i⟩).patterns.all isWordOfSwitch

section
variable {t : GrammarTable} {id : RuleId}

theorem known_of_starts (h : starts t id = true) : t.rule id ≠ default := by
  intro absent
  rw [starts, absent] at h
  cases h

theorem isOnly_of_starts (checked : checkHeaders t = true) (h : starts t id = true) :
    t.isOnly scenarioPattern id = true := by
  have passed := @GrammarTable.rule_eq_default_or_of_all t
    (fun id => !starts t id || t.isOnly scenarioPattern id)
    (fun i known => List.all_eq_true.mp checked i (List.mem_range.mpr known)) id
  simpa [h] using passed.resolve_left (known_of_starts h)

/-- A switch is one of two tokens, and nothing else is read with it. -/
theorem derives_switch_iff (checked : checkSwitches t = true) {p : Pattern} (offered : t.Offers id p)
    {enabled : Bool} (action : p.action = some (.scenario (.enable enabled)))
    (added : List (RuleId × Pattern)) (text : List Token) :
    LiveGrammar.Derives ⟨t, added⟩ p.symbols text ↔ text = [.id (switchWord enabled)] := by
  have word : p.symbols = [.literal (switchWord enabled)] := by
    rcases offered with declared | ⟨-, e, -, -, storing⟩
    · rcases @GrammarTable.rule_eq_default_or_of_all t (fun id => (t.rule id).patterns.all isWordOfSwitch)
        (fun i known => List.all_eq_true.mp checked i (List.mem_range.mpr known)) id with absent | passed
      · rw [absent] at declared
        cases declared
      · have found := List.all_eq_true.mp passed p declared
        rw [isWordOfSwitch, action] at found
        exact beq_iff_eq.mp found
    · cases action.symm.trans storing
  have isWord : Terminal.isWord (switchWord enabled) = true := by cases enabled <;> decide
  rw [word]
  constructor
  · intro derived
    rcases derived with _ | ⟨found, fits, rest⟩
    cases found
    cases rest
    rw [Token.eq_of_matchesLiteral fits isWord]
  · rintro rfl
    exact .terminal rfl (by cases enabled <;> decide) .nil

/-- A rule is a note if it is for headers of scenarios. -/
theorem words_concern : (concern t).words id = if starts t id = true then some reads else none := by
  simp only [concern, starts, beq_iff_eq]

end

/-- The table comes from the notes on scenarios. -/
theorem tracks {ofRule : RuleId → Shape} {effects : Effects} {env : Surroundings} {k : Assertions}
    (headers : checkHeaders env.grammar = true) :
    (matter env.grammar).Tracks ofRule effects env k where
  noise _ _ _ _ _ := rfl
  word {id reads c v d} reading _ course := by
    change (concern env.grammar).words id = some reads at reading
    rw [words_concern, Option.ite_none_right_eq_some] at reading
    obtain ⟨isHeader, ⟨⟩⟩ := reading
    obtain ⟨own, name, tokens, journal, matchRule, x, through, word, v, isId, isName, -, acted, rfl⟩ :=
      Course.of_isOnly_heading (by decide) (isOnly_of_starts headers isHeader) course
    have ahead : x.tokens = tokens :=
      Action.tokens_eq_of_run (a := .scenario .header)
        (c := { c with tokens, journal, depth := c.depth + 1 }) (fun _ => nofun) (fun _ => nofun) acted
    obtain ⟨_, _, first, second, extensions, follows⟩ := ScenarioAction.table_header acted
    -- id and name of the action are those of the text
    cases isId.symm.trans first
    cases isName.symm.trans second
    exact ⟨_, _, ⟨own, name, rfl, rfl⟩, ahead ▸ through, fun added _ => word added, extensions, follows⟩
  acted prepared action _ _ allowed run := prepared.table action allowed run
  unfiled _ := rfl

end ScenarioTable

end Planfile

/-! ## The language -/

namespace Planfile.Language

open Matcher
open Plan (Scenario)
open ScenarioTable (concern starts checkHeaders checkSwitches switchWord)
open TokenSource (Pastes)

/-- In the language statements that declare scenarios start and end in pairs, and only they and two words change
them. -/
theorem check_scenarios :
    satisfies (fun t => t.checkAttends (concern t) &&
      t.checkPairs (starts t) (concern t) && (checkHeaders t && checkSwitches t) &&
      (t.ruleId? "project").all (t.isPlain (concern t))) = true := by
  decide +kernel

section
variable {t : GrammarTable} (h : grammar = .ok t)

include h

/-- What the check finds. -/
theorem scenarios_checked : (t.checkAttends (concern t) = true ∧ t.checkPairs (starts t) (concern t) = true) ∧
    (checkHeaders t = true ∧ checkSwitches t = true) ∧
      ∀ id, t.ruleId? "project" = some id → t.isPlain (concern t) id = true := by
  have found := of_satisfies check_scenarios h
  simp only [Bool.and_eq_true, Option.all_eq_true] at found
  obtain ⟨⟨rules, headers⟩, project⟩ := found
  exact ⟨rules, headers, project⟩

/-- Headers of scenarios are words of one rule, and all other rules do nothing else about scenarios than
what they should. -/
theorem attends_scenarios : t.Attends (concern t) :=
  GrammarTable.attends_of_check (fun _ _ _ => rfl) (scenarios_checked h).1.1

/-- With whatever a plan adds to the language, statements that declare scenarios start and end in pairs. -/
theorem nests_scenarios {added : List (RuleId × Pattern)}
    (offers : ∀ id, ∀ q ∈ LiveGrammar.patterns ⟨t, added⟩ id, t.Offers id q) :
    LiveGrammar.Nests (starts t) ⟨t, added⟩ (concern t) := by
  obtain ⟨reference, body⟩ := (exists_charted h).1.typed.extensible.reference
  have word {id : RuleId} {reads : List Token → Note (String × String) Bool → Prop}
      (reading : (concern t).words id = some reads) : starts t id = true ∧ ScenarioTable.reads = reads := by
    rw [ScenarioTable.words_concern, Option.ite_none_right_eq_some] at reading
    exact ⟨reading.1, Option.some.inj reading.2⟩
  refine LiveGrammar.nests_of_check (scenarios_checked h).1.2 (fun id isHeader reads reading => ?_)
    (fun id other reads reading => ?_) (fun id => ScenarioTable.known_of_starts) body ?_
    (fun _ _ _ => rfl) offers
  · obtain ⟨-, rfl⟩ := word reading
    rintro text note ⟨own, name, -, rfl⟩
    exact ⟨(own, name), rfl⟩
  · obtain ⟨isHeader, -⟩ := word reading
    rw [isHeader] at other
    cases other
  · rw [starts, GrammarTable.name_of_ruleId? body]
    decide

end

/-- Where a header gives an id that is taken there will be no project: if there were, the header would have been
read, and its id would have been free. -/
theorem plan_ne_of_taken {env : Surroundings} (h : grammar = .ok env.grammar) {tokens : TokenSource}
    {journal : Log.Journal} {id header : RuleId} {n : Nat} {x : Context} {own name : String} {behind : TokenSource}
    (known : env.grammar.ruleId? "project" = some id) (named : env.grammar.ruleId? "scenarioHeader" = some header)
    (visit : Visits env ampleFuel (.symbols [.rule id]) (.initial tokens journal) n (.rule header) x)
    (reads : x.tokens.Reads [.id "scenario", .id own, .string name] behind)
    (taken : own ∈ x.scenarioTable.kept.map (·.id)) (p : Plan.Project) (c : Context) :
    plan env (.initial tokens journal) ≠ (.ok p, c) := by
  intro run
  obtain ⟨charted, -⟩ := exists_charted h
  obtain ⟨v, d, matched⟩ := succeeds_of_plan known visit run
  obtain ⟨grounded, e, he, ready⟩ := visit.stands charted (grounded_initial _ _ _ _) (stands_initial h known)
  have course := Course.of_run charted n header x v d e grounded he ready matched
  have isHeader : starts env.grammar header = true := by
    rw [starts, GrammarTable.name_of_ruleId? named]
    decide
  have reading : (concern env.grammar).words header = some ScenarioTable.reads := by
    rw [ScenarioTable.words_concern, if_pos isHeader]
  have tracks : (ScenarioTable.matter env.grammar).Tracks (shapeIn env.grammar) (effectsIn env.grammar) env
      (.ofStates fun _ => True) := ScenarioTable.tracks (scenarios_checked h).2.1.1
  obtain ⟨_, _, ⟨other, title, rfl, rfl⟩, through, -, -, follows⟩ := tracks.word reading trivial course
  have same := (List.append_inj (reads.rest.symm.trans through.rest) rfl).1
  cases same
  have refused : x.scenarioTable.step (.opens (own, name)) = none := if_pos taken
  cases refused.symm.trans follows

/-- Where a plan has made a project, the text, in which all include statements have given way to the
tokens of their files, is a word of the language, and the scenarios of the project are those that the
statements in it declare, in their order: each with the id and the name that it gives, below the one of the
statement whose body is around it, which is in front of it, and as the last switch directly in its own body
says, or enabled if there is none. A switch is the word `enabled` or the word `disabled`. If there is no such
statement there is the one scenario of the start. No id is there twice: a statement with an id that is taken is
objected to, and whatever comes behind it the plan makes no project. -/
theorem scenarios_of_plan {env : Surroundings} (h : grammar = .ok env.grammar) (main : TokenStream)
    (file : String) (path : Option String) (journal : Log.Journal) :
    (∀ p c, plan env (.ofStream main file path journal) = (.ok p, c) →
      ∃ id files text, ∃ n : Nest (String × String) Bool, env.grammar.ruleId? "project" = some id ∧
        Pastes env.preferences env.files (.ofStream main file path) text c.tokens ∧
        Pasted env.preferences env.files main.rest files text ∧
        LiveGrammar.Recounts ⟨env.grammar, c.extensions⟩ (concern env.grammar) [.rule id] text n.notes ∧
        (∀ rule q enabled switch, q ∈ LiveGrammar.patterns ⟨env.grammar, c.extensions⟩ rule →
          q.action = some (.scenario (.enable enabled)) →
          (LiveGrammar.Derives ⟨env.grammar, c.extensions⟩ q.symbols switch ↔
            switch = [.id (switchWord enabled)])) ∧
        p.scenarios = (if n.size = 0 then [.declared "plan" "Plan Scenario" none]
          else n.scenarios none 0) ∧
        (p.scenarios.map (·.id)).Nodup ∧
        ∀ i (s : Scenario) j, p.scenarios[i]? = some s → s.parent = some j → j < i) ∧
    (∀ id header n x own name behind, env.grammar.ruleId? "project" = some id →
      env.grammar.ruleId? "scenarioHeader" = some header →
      Visits env ampleFuel (.symbols [.rule id]) (.ofStream main file path journal) n (.rule header) x →
      x.tokens.Reads [.id "scenario", .id own, .string name] behind →
      own ∈ x.scenarioTable.kept.map (·.id) →
      ∀ p c, plan env (.ofStream main file path journal) ≠ (.ok p, c)) ∧
    ∀ v x p own name, x.project = some p → v.string 1 = .ok own → v.string 2 = .ok name →
      own ∈ x.scenarioTable.kept.map (·.id) → ∃ location d,
        ScenarioAction.header.perform v env x =
          (.error (.error ⟨.semantic (.scenarioExists ⟨own⟩), location⟩), d) := by
  obtain ⟨-, ⟨headers, switches⟩, plain⟩ := scenarios_checked h
  obtain ⟨charted, -⟩ := exists_charted h
  have invariant : ValueInvariant (shapeIn env.grammar) (effectsIn env.grammar) env
      (.ofStates fun _ => True) :=
    .of_acts (fun _ _ _ _ _ _ => trivial) fun _ _ _ _ _ _ _ _ _ _ _ => trivial
  have tracks : (ScenarioTable.matter env.grammar).Tracks (shapeIn env.grammar) (effectsIn env.grammar) env
      (.ofStates fun _ => True) := ScenarioTable.tracks headers
  refine ⟨fun p c run => ?_, fun id header n x own name behind known named visit reads taken =>
    plan_ne_of_taken h known named visit reads taken, fun v x p own name there first second taken =>
      ScenarioAction.refuses_header there first second taken⟩
  obtain ⟨id, files, text, n, d, known, pastes, pasted, recounts, follows, there⟩ :=
    retold_of_plan h (attends_scenarios h) tracks invariant (fun _ => nests_scenarios h) plain trivial run
  have follows : n.notes.foldlM ScenarioTable.step ScenarioTable.initial = some d.scenarioTable := follows
  have table := ScenarioTable.scenarios_of_run follows
  have distinct := ScenarioTable.nodup_of_run (by decide) follows
  rw [Context.scenarioTable_of_project there] at table distinct
  have table : p.scenarios = if n.size = 0 then [.declared "plan" "Plan Scenario" none]
      else n.scenarios none 0 := table
  have offers := offers_of_plan h run
  refine ⟨id, files, text, n, known, pastes, pasted, recounts, fun rule q enabled switch mem action =>
    ScenarioTable.derives_switch_iff switches (offers rule q mem) action _ switch, table, distinct,
    fun i s j found parent => ?_⟩
  rw [table] at found
  split at found
  · -- the scenario of the start is below no other one
    obtain rfl := List.mem_singleton.mp (List.mem_of_getElem? found)
    cases parent
  · have lt := Nest.parent_lt (by simp) found parent
    rwa [Nat.zero_add] at lt

/-- A plan with a scenario that has another one in its body and is disabled behind it, and with a third one
beside both. The one in the body is disabled first and then enabled. -/
def scenariosPlan : TokenStream :=
  plainStream <| yearHeader ++
    [.mark .leftBrace,
      .id "scenario", .id "a", .string "A", .mark .leftBrace,
        .id "scenario", .id "b", .string "B", .mark .leftBrace, .id "disabled", .id "enabled",
        .mark .rightBrace, .id "disabled", .mark .rightBrace,
      .id "scenario", .id "c", .string "C", .mark .rightBrace, .eof]

/-- The plan makes a project with these scenarios. -/
theorem run_scenariosPlan :
    satisfies (fun t =>
      (plan ⟨t, .empty, .default⟩ (.initial (.ofStream scenariosPlan "main.tjp" none) .silent)).1.toOption.any
        fun p => p.scenarios ==
          [⟨"a", "A", none, false⟩, ⟨"b", "B", some 0, true⟩, ⟨"c", "C", none, true⟩]) = true := by
  decide +kernel

/-- A plan with a scenario that has one with the same id in its body. -/
def repeatedScenario : TokenStream :=
  plainStream <| yearHeader ++
    [.mark .leftBrace, .id "scenario", .id "a", .string "A", .mark .leftBrace,
      .id "scenario", .id "a", .string "B", .mark .rightBrace, .mark .rightBrace, .eof]

/-- The second header is reached with its tokens ahead, where there is a scenario with the id. -/
theorem seek_repeatedScenario :
    satisfies (fun t =>
      (t.ruleId? "project").any fun id => (t.ruleId? "scenarioHeader").any fun header =>
        (seek ⟨t, .empty, .default⟩ (fun other c => other == header && c.scenario == some 0) 60
            ampleFuel (.symbols [.rule id])
            (.initial (.ofStream repeatedScenario "main.tjp" none) .silent)).any
          fun (_, _, c) => c.project.isSome && c.tokens.below.isEmpty &&
            c.tokens.top.stream.ahead.map (·.token) == [.id "scenario", .id "a", .string "B",
              .mark .rightBrace, .mark .rightBrace, .eof] &&
            c.scenarioTable.kept.map (·.id) == ["a"]) = true := by
  decide +kernel

/-- The table of the first plan is the forest of its statements. The second header of the other plan is
objected to, and this plan makes no project. -/
theorem scenarios_of_plan_scenariosPlan :
    ∃ table, grammar = .ok table ∧
      (∃ p c id files text, ∃ n : Nest (String × String) Bool,
        plan ⟨table, .empty, .default⟩ (.ofStream scenariosPlan "main.tjp" none .silent) = (.ok p, c) ∧
        Pasted .default .empty scenariosPlan.rest files text ∧
        LiveGrammar.Recounts ⟨table, c.extensions⟩ (concern table) [.rule id] text n.notes ∧
        (if n.size = 0 then [.declared "plan" "Plan Scenario" none] else n.scenarios none 0) =
          [⟨"a", "A", none, false⟩, ⟨"b", "B", some 0, true⟩, ⟨"c", "C", none, true⟩]) ∧
      ∃ id header n x location d,
        Visits ⟨table, .empty, .default⟩ ampleFuel (.symbols [.rule id])
          (.ofStream repeatedScenario "main.tjp" none .silent) n (.rule header) x ∧
        ScenarioAction.header.perform ⟨[.token (.id "scenario"), .token (.id "a"), .token (.string "B")],
            x.tokens.location⟩ ⟨table, .empty, .default⟩ x =
          (.error (.error ⟨.semantic (.scenarioExists ⟨"a"⟩), location⟩), d) ∧
        ∀ p c, plan ⟨table, .empty, .default⟩ (.ofStream repeatedScenario "main.tjp" none .silent) ≠
          (.ok p, c) := by
  obtain ⟨table, p, c, made, run, listed⟩ := exists_run_of_check run_scenariosPlan
  obtain ⟨forest, -⟩ := @scenarios_of_plan ⟨table, .empty, .default⟩ made scenariosPlan "main.tjp" none .silent
  obtain ⟨id, files, text, n, known, -, pasted, recounts, -, scenarios, -⟩ := forest p c run
  obtain ⟨-, repeats, objects⟩ :=
    @scenarios_of_plan ⟨table, .empty, .default⟩ made repeatedScenario "main.tjp" none .silent
  have found := of_satisfies seek_repeatedScenario made
  obtain ⟨other, known', found⟩ := (Option.any_eq_true _ _).mp found
  obtain ⟨header, named, found⟩ := (Option.any_eq_true _ _).mp found
  obtain ⟨⟨m, rule, x⟩, sought, content⟩ := (Option.any_eq_true _ _).mp found
  obtain ⟨visit, wanted⟩ := Visits.of_seek sought
  simp only [Bool.and_eq_true, beq_iff_eq, List.isEmpty_iff] at wanted content
  obtain ⟨rfl, -⟩ := wanted
  obtain ⟨⟨⟨started, single⟩, tokens⟩, ids⟩ := content
  obtain ⟨q, there⟩ := Option.isSome_iff_exists.mp started
  have ahead : x.tokens.Ahead ([.id "scenario", .id "a", .string "B"] ++ [.mark .rightBrace, .mark .rightBrace]) :=
    ⟨single, tokens⟩
  obtain ⟨behind, reads, -⟩ := ahead.exists_reads (by decide)
  have taken : "a" ∈ x.scenarioTable.kept.map (·.id) := by simp [ids]
  obtain ⟨location, d, objection⟩ := objects
    ⟨[.token (.id "scenario"), .token (.id "a"), .token (.string "B")], x.tokens.location⟩ x q "a" "B" there
    rfl rfl taken
  exact ⟨table, made, ⟨p, c, id, files, text, n, run, pasted, recounts,
    scenarios.symm.trans (beq_iff_eq.mp listed)⟩, other, rule, m, x, location, d, visit, objection,
    repeats other rule m x "a" "B" behind known' named visit reads taken⟩

end Planfile.Language
