import Planfile.Proofs.Body.Language
import Planfile.Proofs.Expression.Reading
import Planfile.Proofs.Expression.Soundness

/-!
# Planfile — expressions in the language

In the language, an expression is read as it is written, and whatever is read as an expression can be written.
So an operation and its tokens stand for each other, if the tokens that follow do not go on with them and the
rules do not nest too deep.

Main results:

* `Language.isWritable_of_visits` — what is read as an expression can be written.
* `Language.expression_roundTrip` — an expression is read as it is written, and what is read can be.
-/

namespace Planfile.Language

open Matcher
open Plan (Operand Operation)

/-- The rules of expressions, by their names. -/
def expressionRulesIn (t : GrammarTable) : ExpressionRules :=
  let rule (name : String) : RuleId := (t.ruleId? name).getD ⟨0⟩
  ⟨rule "logicalExpression", rule "operation", rule "operatorAndOperand", rule "operand", rule "argumentList",
    rule "arguments", rule "moreArguments"⟩

/-- The language is found to have the rules of expressions, and scenarios to have their names. -/
theorem check_expressions : satisfies (fun t =>
    t.checkExpressions (expressionRulesIn t) && t.checkNames) = true := by
  decide +kernel

/-- The language has the rules of expressions, and scenarios have their names. -/
theorem hasExpressions {table : GrammarTable} (h : grammar = .ok table) :
    table.HasExpressions (expressionRulesIn table) ∧ table.NamesByIds := by
  have found := of_satisfies check_expressions h
  obtain ⟨rules, names⟩ := Bool.and_eq_true_iff.mp found
  exact ⟨GrammarTable.hasExpressions_of_check rules, GrammarTable.namesByIds_of_check names⟩

theorem expression_of_known {t : GrammarTable} {id : RuleId} (known : t.ruleId? "logicalExpression" = some id) :
    (expressionRulesIn t).expression = id := by
  show (t.ruleId? "logicalExpression").getD ⟨0⟩ = id
  rw [known]
  rfl

section
variable {env : Surroundings} (h : grammar = .ok env.grammar) {id : RuleId}
  (known : env.grammar.ruleId? "logicalExpression" = some id)

include h known

/-- Where an expression is read there is a project. -/
theorem started_of_visits {tokens : TokenSource} {journal : Log.Journal} {project : RuleId}
    (named : env.grammar.ruleId? "project" = some project) {n : Nat} {x : Context}
    (visit : Visits env ampleFuel (.symbols [.rule project]) (.initial tokens journal) n (.rule id) x) :
    x.project ≠ none := by
  obtain ⟨bodies, trail⟩ := visit.exists_trail (layoutIn env.grammar) []
  obtain ⟨shown, allowed⟩ := shows_of_trail h named trail
  -- the rule is none of those that can stand where nothing is open
  have inside : (zone bodies).isSome = true := isSome_zone known (by decide) (by decide) allowed
  exact project_ne_none shown fun outside => by simp [outside] at inside

/-- Wherever an expression is read in a text that has been split into tokens, the scenarios of the project are
told by their ids. If an expression comes of it, it can be written in the project, and it is no negation. -/
theorem isWritable_of_visits {cs : List Char} {tokens : List SpannedToken}
    (lexed : Lexer.lex env.preferences.lexical.countComments cs = .ok tokens) (source : Option SourceText)
    (name : String) (path : Option String) (journal : Log.Journal) {project : RuleId}
    (named : env.grammar.ruleId? "project" = some project) {n : Nat} {x : Context}
    (visit : Visits env ampleFuel (.symbols [.rule project])
      (.initial (.ofStream (.ofTokens tokens source) name path) journal) n (.rule id) x) :
    (∃ p, x.project = some p ∧ p.NamesScenarios) ∧
    ∀ v y, matchRule n id env x = (.ok v, y) → ∃ e q, v = some (.expression e) ∧ y.project = some q ∧
      e.operation.IsWritable q ∧ e.operation.isNegation = false := by
  obtain ⟨charted, -⟩ := exists_charted h
  obtain ⟨rules, names⟩ := hasExpressions h
  let start := TokenSource.ofStream (.ofTokens tokens source) name path
  have initial := grounded_initial env.grammar (effectsIn env.grammar) start journal
  have stands : (Stage.symbols [.rule project]).Stands env.grammar (shapeIn env.grammar)
      (effectsIn env.grammar) (.initial start journal) := stands_initial h named
  -- all tokens, also those of included files, are those of texts that have been split
  have anchored : TokenSource.Anchored env.preferences env.files start start :=
    TokenSource.anchored_ofStream lexed source name path
  have main : ∀ t ∈ start.top.stream.all, Lexer.Formed t.token := fun t ht =>
    Lexer.formed_of_produces ⟨_, _, tokens, t.span, lexed, ht⟩
  -- the invariants hold at the point: of names, and of references
  have invariant : ValueInvariant (shapeIn env.grammar) (effectsIn env.grammar) env
      (expressions env (expressionRulesIn env.grammar) start) :=
    valueInvariant_expressions rules names anchored main
  have refers : ValueInvariant (shapeIn env.grammar) (effectsIn env.grammar) env
      (references (rolesIn env.grammar)) := valueInvariant_references (casts h) charted.typed
  have asked : x.NamesScenarios ∧ _ :=
    invariant.of_visits charted visit initial stands ⟨fun p there => (nomatch there), .start⟩
  have intact := refers.of_visits charted visit initial stands (Context.intact_initial start journal)
  obtain ⟨p, there⟩ := Option.ne_none_iff_exists'.mp (started_of_visits h known named visit)
  refine ⟨⟨p, there, asked.1 p there⟩, fun v y run => ?_⟩
  obtain ⟨grounded, effect, placed, ready⟩ := visit.stands charted initial stands
  have course := Course.of_run charted n id x v y effect grounded placed ready run
  obtain ⟨-, yields⟩ := invariant.of_course course asked trivial
  obtain ⟨stays, serves⟩ := course.stays (casts h) charted.typed intact
  obtain ⟨e, rfl, legible, positive⟩ :=
    ExpressionRules.Yields.expression yields (expression_of_known known).symm
  -- a project with its scenarios does not get lost
  obtain ⟨q, still⟩ : ∃ q, y.project = some q := by
    refine Option.ne_none_iff_exists'.mp fun lost => ?_
    have scenarios := stays.within.scenarios
    rw [Context.known_of_project there, Context.known, lost] at scenarios
    exact absurd (intact.project p there).scenarios (Nat.not_lt.mpr scenarios)
  have referring : e.operation.Intact y.known := (serves _ rfl).1
  rw [Context.known_of_project still] at referring
  exact ⟨e, q, rfl, still, Operation.isWritable legible referring, positive⟩

/-- Let an operation be written in a project that tells its scenarios by their ids, with integers as the
arguments of its calls, and let a token follow that it does not go on with. Then matching an expression reads
just these tokens and gives the operation, with the place of the first of them, where the rules do not nest too
deep, and elsewhere the depth is what is wrong. In any text scenarios are told by their ids wherever an
expression is read, and whatever comes of it is an operation that can be written so. -/
theorem expression_roundTrip :
    (∀ n c p (o : Operation) (numbers : Nat → Int) behind, c.Sound env.grammar → c.project = some p →
      p.NamesScenarios → o.IsWritable p → o.isNegation = false → c.tokens.Reads (o.tokens p numbers) behind →
      o.canTake behind.peek = false → c.depth ≤ Limits.parseDepth →
      Limits.parseDepth + (o.tokens p numbers).length < n + c.depth →
      if c.depth + o.levels < Limits.parseDepth then
        ∃ journal stop, matchRule n id env c =
          (.ok (some (.expression ⟨o, c.tokens.location.file, c.tokens.location.line⟩)),
            { c with tokens := behind, journal, stop })
      else
        ∃ location d, matchRule n id env c =
          (.error (.error ⟨.maxParseDepth Limits.parseDepth, location⟩), d)) ∧
    ∀ cs tokens source name path journal project n x,
      Lexer.lex env.preferences.lexical.countComments cs = .ok tokens →
      env.grammar.ruleId? "project" = some project →
      Visits env ampleFuel (.symbols [.rule project])
        (.initial (.ofStream (.ofTokens tokens source) name path) journal) n (.rule id) x →
      (∃ p, x.project = some p ∧ p.NamesScenarios) ∧
      ∀ v y, matchRule n id env x = (.ok v, y) → ∃ e q, v = some (.expression e) ∧ y.project = some q ∧
        e.operation.IsWritable q ∧ e.operation.isNegation = false := by
  refine ⟨fun n c p o numbers behind sound there names writable positive reads next shallow fuel => ?_,
    fun cs tokens source name path journal project n x lexed named visit =>
      isWritable_of_visits h known lexed source name path journal named visit⟩
  have read := (hasExpressions h).1.expressionReads names writable positive n c behind
    ⟨sound, there⟩ reads next fuel
  rw [expression_of_known known] at read
  split
  · next room => exact read.fits (by omega)
  · next deep => exact read.deep shallow (by omega)

end

/-- A project with a flag and the scenario that is always there. -/
def weighingProject : Plan.Project :=
  (Plan.Project.initial "p" "P" "1" ⟨⟨2024, 1, 1, 0, 0, 0⟩, ⟨2025, 1, 1, 0, 0, 0⟩⟩).modifySettings
    ({ · with flags := ["a"] })

/-- An operation with another one in parentheses, and the negation of a call. -/
def weighing : Operation :=
  .binary (.operation (.binary (.flag "a") .or (.attribute "start" 0))) .and
    (.operation (.negation (.call "f" 2)))

/-- Where the tokens of the operation are ahead, and then the end of a body. -/
def weighingContext : Context :=
  { Context.initial (.ofStream (plainStream (weighing.tokens weighingProject Int.ofNat ++
      [.mark .rightBrace, .eof])) "main.tjp" none) .silent with project := some weighingProject }

/-- The text of a plan with such an operation. -/
def weighingPlan : String :=
  "project p \"P\" \"1\" 2024-01-01 - 2025-01-01 \x7b\n" ++
  "  scenario plan \"Plan\" \x7b scenario late \"Late\" \x7d \x7d\n" ++
  "flags a, b\n" ++
  "export \"list\" \x7b hidetask (a | late.start) & ~f(1, b) \x7d"

/-- An expression is read in the plan. -/
theorem seek_weighingPlan : satisfies (fun t =>
    (Lexer.lex false (quickChars weighingPlan)).toOption.any fun tokens =>
      (t.ruleId? "project").any fun project => (t.ruleId? "logicalExpression").any fun id =>
        (seek ⟨t, .empty, .default⟩ (fun other _ => other == id) 60 ampleFuel (.symbols [.rule project])
          (.initial (.ofStream (.ofTokens tokens none) "main.tjp" none) .silent)).any fun (n, _, x) =>
            (matchRule n id ⟨t, .empty, .default⟩ x).1.isOk) = true := by
  decide +kernel

/-- The operation is read as it is written, and what is read in the plan can be written. -/
theorem expression_roundTrip_weighing :
    ∃ table id, grammar = .ok table ∧ table.ruleId? "logicalExpression" = some id ∧
      (∃ behind journal stop, behind.Ahead [.mark .rightBrace] ∧
        matchRule 2000 id ⟨table, .empty, .default⟩ weighingContext =
          (.ok (some (.expression ⟨weighing, "main.tjp", weighingContext.tokens.location.line⟩)),
            { weighingContext with tokens := behind, journal, stop })) ∧
      ∃ tokens project n x y e q, Lexer.lex false weighingPlan.toList = .ok tokens ∧
        Visits ⟨table, .empty, .default⟩ ampleFuel (.symbols [.rule project])
          (.initial (.ofStream (.ofTokens tokens none) "main.tjp" none) .silent) n (.rule id) x ∧
        matchRule n id ⟨table, .empty, .default⟩ x = (.ok (some (.expression e)), y) ∧
        y.project = some q ∧ e.operation.IsWritable q := by
  obtain ⟨table, made⟩ := exists_grammar
  have found := of_satisfies seek_weighingPlan made
  rw [quickChars_eq] at found
  obtain ⟨tokens, split, found⟩ := (Option.any_eq_true _ _).mp found
  obtain ⟨project, named, found⟩ := (Option.any_eq_true _ _).mp found
  obtain ⟨id, known, found⟩ := (Option.any_eq_true _ _).mp found
  obtain ⟨⟨n, other, x⟩, sought, ends⟩ := (Option.any_eq_true _ _).mp found
  obtain ⟨visit, wanted⟩ := Visits.of_seek sought
  obtain rfl : other = id := beq_iff_eq.mp wanted
  have lexed := eq_ok_of_toOption split
  obtain ⟨reads, writes⟩ := @expression_roundTrip ⟨table, .empty, .default⟩ made other known
  refine ⟨table, other, made, known, ?_, ?_⟩
  · -- the tokens of the operation are ahead, and none of them is the end of the text
    have ahead : weighingContext.tokens.Ahead
        (weighing.tokens weighingProject Int.ofNat ++ [.mark .rightBrace]) := ⟨rfl, rfl⟩
    obtain ⟨behind, text, rest⟩ := ahead.exists_reads (by decide)
    have sound := Context.sound_initial table weighingContext.tokens .silent
    have names := Plan.Project.namesScenarios_initial "p" "P" "1"
      ⟨⟨2024, 1, 1, 0, 0, 0⟩, ⟨2025, 1, 1, 0, 0, 0⟩⟩
    have read := reads 2000 weighingContext weighingProject weighing Int.ofNat behind
      ⟨sound.extensions, sound.target⟩ rfl ⟨names.nodup, names.noDot⟩
      ⟨⟨⟨by decide, by decide⟩, by decide, by decide, _, rfl⟩, by decide, by decide, by decide⟩ rfl text rfl
      (by decide) (by decide)
    rw [if_pos (by decide)] at read
    obtain ⟨journal, stop, run⟩ := read
    exact ⟨behind, journal, stop, rest, run⟩
  · obtain ⟨-, gives⟩ := writes _ tokens none "main.tjp" none .silent project n x lexed named visit
    obtain ⟨v, y, run⟩ := exists_of_isOk ends
    obtain ⟨e, q, rfl, there, writable, -⟩ := gives v y run
    exact ⟨tokens, project, n, x, y, e, q, lexed, visit, run, there, writable⟩

end Planfile.Language
