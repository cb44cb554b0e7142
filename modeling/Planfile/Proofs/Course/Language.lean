import Planfile.Proofs.Course.Invariant
import Planfile.Proofs.Schema.Language
import Planfile.Proofs.Session.Outcome

/-!
# Planfile — on the way through a plan in the language

The rules of the language have their shapes and their effects, and a plan starts where its rule can
stand. So whatever every action keeps holds in every state that is passed while a plan is read, and a
plan that comes to its end has been matched along a tree.

Main results:

* `Language.holds_of_passes` — what is kept holds in every state that is passed.
* `Language.course_of_plan` — a plan that has come to its end has been matched along a tree.
* `Language.visits_of_plan` — matching comes to the end of a plan.
* `Language.succeeds_of_plan` — nothing ends early on the way to a project.
-/

namespace Planfile.Language

open Matcher

/-- The rules of the language have their shapes and their effects, and a project starts outside of
bodies. -/
theorem exists_charted {table : GrammarTable} (h : grammar = .ok table) :
    table.Charted (shapeIn table) (effectsIn table) ∧
      ∃ id, table.ruleId? "project" = some id ∧ effectsIn table id none = some .start := by
  obtain ⟨other, made, typed, -⟩ := exists_typed
  obtain rfl : table = other := Except.ok.inj (h.symm.trans made)
  obtain ⟨follows, project⟩ := exists_follows h
  exact ⟨⟨typed, follows⟩, project⟩

/-- Before the first token nothing has been said. -/
theorem grounded_initial (t : GrammarTable) (effects : Effects) (tokens : TokenSource)
    (journal : Log.Journal) : (Context.initial tokens journal).Grounded t effects :=
  ⟨Context.sound_initial t tokens journal, conforming_initial effects tokens journal⟩

section
variable {env : Surroundings} (h : grammar = .ok env.grammar) {tokens : TokenSource}
  {journal : Log.Journal} {id : RuleId} (known : env.grammar.ruleId? "project" = some id)

include h known

/-- The rule for projects can stand where a plan starts. -/
theorem stands_initial : (Stage.symbols [.rule id]).Stands env.grammar (shapeIn env.grammar)
    (effectsIn env.grammar) (Context.initial tokens journal) := by
  obtain ⟨-, other, same, starts⟩ := exists_charted h
  obtain rfl : id = other := Option.some.inj (known.symm.trans same)
  exact Stage.stands_rule starts fun _ => rfl

/-- A project has been started where the rule for projects has come to its end. -/
theorem started_of_run {v : Option Value} {c : Context}
    (run : matchRule ampleFuel id env (Context.initial tokens journal) = (.ok v, c)) :
    c.project ≠ none := by
  obtain ⟨charted, other, same, starts⟩ := exists_charted h
  obtain rfl : id = other := Option.some.inj (known.symm.trans same)
  have initial := grounded_initial env.grammar (effectsIn env.grammar) tokens journal
  have led := led_matchRule charted.follows ampleFuel id none .start starts
  obtain ⟨-, -, started⟩ := led env _ v c rfl initial.conforming rfl (fun _ => rfl) run
  exact started

/-- What holds at the start and is kept by every action holds in every state that is passed. -/
theorem holds_of_passes {ask : Context → Prop}
    (hk : StateInvariant (shapeIn env.grammar) (effectsIn env.grammar) env ask)
    (start : ask (Context.initial tokens journal)) {x : Context}
    (passes : Passes env ampleFuel (.symbols [.rule id]) (Context.initial tokens journal) x) : ask x :=
  hk.of_passes (exists_charted h).1 (grounded_initial _ _ tokens journal) (stands_initial h known)
    passes start

/-- Where an action is performed while a plan is read, it can be performed. -/
theorem prepared_of_visits {n : Nat} {p : Pattern} {v : Values} {x : Context}
    (visit : Visits env ampleFuel (.symbols [.rule id]) (Context.initial tokens journal) n
      (.action p v) x) :
    Prepared env.grammar (shapeIn env.grammar) (effectsIn env.grammar) p v x :=
  (visit.stands (exists_charted h).1 (grounded_initial _ _ tokens journal) (stands_initial h known)).2

end

/-- A plan that has come to its end has been matched along a tree, and at its end all has been read. -/
theorem course_of_plan {env : Surroundings} (h : grammar = .ok env.grammar) {tokens : TokenSource}
    {journal : Log.Journal} {p : Plan.Project} {c : Context}
    (run : plan env (Context.initial tokens journal) = (.ok p, c)) :
    ∃ id v d, env.grammar.ruleId? "project" = some id ∧
      Course (shapeIn env.grammar) (effectsIn env.grammar) env (.rule id) (Context.initial tokens journal)
        v d ∧
      d.tokens.peek.isEof = true ∧ d.project = some p ∧ c = { d with project := none } := by
  obtain ⟨charted, id, known, starts⟩ := exists_charted h
  obtain ⟨v, d, parsed, eof, there, left⟩ := exists_of_run_plan known run
  exact ⟨id, v, d, known, Course.of_run charted ampleFuel id _ v d .start
    (grounded_initial _ _ tokens journal) starts (fun _ => rfl) parsed, eof, there, left⟩

/-- Matching comes to the end of a plan. -/
theorem visits_of_plan {env : Surroundings} {tokens : TokenSource} {journal : Log.Journal}
    {id : RuleId} (known : env.grammar.ruleId? "project" = some id) {p : Plan.Project} {c : Context}
    (run : plan env (Context.initial tokens journal) = (.ok p, c)) :
    ∃ x, Visits env ampleFuel (.symbols [.rule id]) (Context.initial tokens journal) ampleFuel
        (.symbols []) x ∧ x.project = some p ∧ c = { x with project := none } := by
  obtain ⟨v, x, parsed, -, there, left⟩ := exists_of_run_plan known run
  exact ⟨x, .past parsed .here, there, left⟩

/-- Where a plan makes a project, everything that matching comes to on the way comes to its end. -/
theorem succeeds_of_plan {env : Surroundings} {tokens : TokenSource} {journal : Log.Journal}
    {id : RuleId} (known : env.grammar.ruleId? "project" = some id) {n : Nat} {s : Stage} {x : Context}
    (visit : Visits env ampleFuel (.symbols [.rule id]) (Context.initial tokens journal) n s x)
    {p : Plan.Project} {c : Context} (run : plan env (Context.initial tokens journal) = (.ok p, c)) :
    s.Succeeds env n x := by
  obtain ⟨v, d, parsed, -⟩ := exists_of_run_plan known run
  refine visit.succeeds ⟨[.rule v], d, ?_⟩
  rw [matchSymbols, run_bind, matchSymbol, run_bind, parsed]
  rfl

/-! ## Single plans -/

/-- Where the tokens of a text have been matched and what comes of it passes a check, a session that
processes the text ends with something that passes. -/
theorem exists_process_of_check (s : Session) (name content : String)
    (check : Except ProcessError Processed → Bool)
    (found : satisfies (fun t =>
      (Lexer.lex s.preferences.lexical.countComments (quickChars content)).toOption.any fun tokens =>
        check ((matchPlan t s.files s.preferences
          (.ofStream (.ofTokens tokens (some ⟨name, content⟩)) name none)
          (s.journalOf name content)).1.map fun r => ⟨r.1, none,
            .ofTokens s.preferences.lexical.detailedMetrics tokens, r.2.consumed, r.2.included⟩)) =
      true) :
    ∃ r s', s.process (.text name content) = (r, s') ∧ check r = true := by
  obtain ⟨table, made⟩ := exists_grammar
  obtain ⟨tokens, known, passed⟩ := (Option.any_eq_true _ _).mp (of_satisfies found made)
  rw [quickChars_eq] at known
  rw [← Session.fst_processText made (eq_ok_of_toOption known)] at passed
  exact ⟨_, _, rfl, passed⟩

end Planfile.Language
