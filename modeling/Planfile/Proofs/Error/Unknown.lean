import Planfile.Proofs.Error.Stops
import Planfile.Proofs.Layout.Session

/-!
# Planfile — unknown attributes are unknown

A plan that is refused for an unknown attribute is told which word is unknown, and to which rule. Both are
right: the word is the next one, the rule is the one that has just come to its end in front of it, and none of
its alternatives takes the word.

Main results:

* `Language.isTimely` — in the language, what includes a file or adds an attribute ends afresh.
* `Language.stop_of_unknownAttribute` — an unknown attribute is in front of the repetition that has stopped
  last, and no alternative of it takes its keyword.
-/

namespace Planfile

open Matcher

/-! ## Alternatives that end afresh -/

namespace GrammarTable

/-- Whether some symbols are found to end with one that stands for a token. -/
def checkEndsInToken (symbols : List Symbol) : Bool :=
  symbols.getLast?.any (·.terminal?.isSome)

/-- Symbols that are found to end so do. -/
theorem endsInToken_of_check {symbols : List Symbol} (h : checkEndsInToken symbols = true) :
    EndsInToken symbols := by
  obtain ⟨s, last, terminal⟩ := (Option.any_eq_true _ _).mp h
  obtain ⟨front, rfl⟩ := List.getLast?_eq_some_iff.mp last
  obtain ⟨a, hs⟩ := Option.isSome_iff_exists.mp terminal
  exact ⟨front, s, a, rfl, hs⟩

variable {t : GrammarTable}

/-- Whether a rule is found to be a body. -/
def checkBody (t : GrammarTable) (id : RuleId) : Bool :=
  let rule := t.rule id
  !rule.repeatable && !extendableNames.contains rule.name &&
    rule.patterns.all fun p => checkEndsInToken p.symbols

/-- A rule that is found to be a body is one. -/
theorem isBody_of_check {id : RuleId} (h : t.checkBody id = true) : t.IsBody id := by
  unfold checkBody at h
  simp only [Bool.and_eq_true, Bool.not_eq_true', List.all_eq_true] at h
  obtain ⟨⟨once, fixed⟩, ends⟩ := h
  exact ⟨once, not_isExtendable rfl fixed, fun p mem => endsInToken_of_check (ends p mem)⟩

/-- Whether some symbols are found to end afresh. -/
def checkEndsAfresh (t : GrammarTable) (symbols : List Symbol) : Bool :=
  checkEndsInToken symbols || match symbols.getLast? with
    | some (.rule id) => checkEndsInToken symbols.dropLast && t.checkBody id
    | _ => false

/-- Symbols that are found to end afresh do. -/
theorem endsAfresh_of_check {symbols : List Symbol} (h : t.checkEndsAfresh symbols = true) :
    EndsAfresh t symbols := by
  unfold checkEndsAfresh at h
  rcases Bool.or_eq_true_iff.mp h with token | body
  · exact .inl (endsInToken_of_check token)
  · cases last : symbols.getLast? with
    | none =>
      rw [last] at body
      cases body
    | some s =>
      rw [last] at body
      cases s with
      | rule id =>
        obtain ⟨front, rfl⟩ := List.getLast?_eq_some_iff.mp last
        obtain ⟨token, body⟩ := Bool.and_eq_true_iff.mp body
        rw [List.dropLast_concat] at token
        exact .inr ⟨front, id, rfl, endsInToken_of_check token, isBody_of_check body⟩
      | literal text => cases body
      | tokenClass cls => cases body

/-- Whether the alternatives of a grammar that include a file or add an attribute are found to end afresh. -/
def checkTimely (t : GrammarTable) : Bool :=
  (List.range t.rules.size).all fun i => (t.rule ⟨i⟩).patterns.all fun p =>
    p.action.all fun a => a.isSelfContained || t.checkEndsAfresh p.symbols

/-- Where the check passes, these alternatives end afresh. -/
theorem isTimely_of_check (placeless : t.IsPlaceless) (h : t.checkTimely = true) : t.IsTimely := by
  refine ⟨placeless, fun id p mem a action open' => ?_⟩
  rcases @rule_eq_default_or_of_all t
    (fun id => (t.rule id).patterns.all fun p =>
      p.action.all fun a => a.isSelfContained || t.checkEndsAfresh p.symbols)
    (fun i known => List.all_eq_true.mp h i (List.mem_range.mpr known)) id with absent | passed
  · rw [absent] at mem
    cases mem
  · have found := List.all_eq_true.mp passed p mem
    rw [Option.mem_def.mp action, Option.all_some, open', Bool.false_or] at found
    exact endsAfresh_of_check found

end GrammarTable

namespace Language

/-- In the language, what includes a file or adds an attribute is found to end afresh. -/
theorem check_timely : satisfies (·.checkTimely) = true := by
  decide +kernel

/-- In the language, what includes a file or adds an attribute ends afresh. -/
theorem isTimely {table : GrammarTable} (made : grammar = .ok table) : table.IsTimely := by
  have found := of_satisfies check_timely made
  exact GrammarTable.isTimely_of_check (isPlaceless made) found

/-- Where an attribute is said to be unknown, the next token is its keyword, and some repetition has stopped
in front of it. -/
theorem exists_of_unknownAttribute? {g : GrammarTable} {c : Context} {keyword name : String}
    (h : unknownAttribute? g c = some (.unknownAttribute keyword name)) :
    c.tokens.peek = .id keyword ∧
      ∃ stop, c.stop = some stop ∧ stop.consumed = c.tokens.consumed ∧ (g.rule stop.rule).name = name := by
  unfold unknownAttribute? at h
  split at h
  · rename_i word stop peek stopped
    split at h
    · rename_i same
      cases h
      exact ⟨peek, stop, stopped, same, rfl⟩
    · cases h
  · cases h

variable {env : Surroundings} {tokens : TokenSource} {journal : Log.Journal}

/-- All that has stopped while a plan has been matched is known where an attribute is unknown. -/
theorem logs_of_unknownAttribute (h : grammar = .ok env.grammar) {keyword name : String} {l : Location}
    {d : Context}
    (run : plan env (.initial tokens journal) =
      (.error (.error ⟨.unknownAttribute keyword name, l⟩), d)) :
    (Context.initial tokens journal).Logs env (stopsOfPlan env (.initial tokens journal)) d ∧
      unknownAttribute? env.grammar d = some (.unknownAttribute keyword name) ∧
      l = d.tokens.location := by
  obtain ⟨-, id, known, -⟩ := exists_charted h
  have told := (followed_matchRule (isTimely h) ampleFuel).tells id _
    (Context.hosted_initial env.grammar tokens journal)
  rw [stopsOfPlan, known]
  rcases cases_of_run_plan known run with failed | ⟨v, e, parsed, ⟨rfl, same⟩ | none⟩
  · rw [failed] at told
    exact told keyword name rfl
  · -- the project is there, but something follows it
    rw [parsed] at told
    injection same with same
    injection same with fault place
    refine ⟨told, ?_, place⟩
    cases unknown : unknownAttribute? env.grammar d with
    | some found =>
      rw [unknown] at fault
      exact congrArg some fault.symm
    | none =>
      rw [unknown] at fault
      cases fault
  · exact absurd none (started_of_run h known parsed)

/-- An attribute that a plan is refused for is unknown indeed. The next token is its keyword, which is what
the error is about and where it is. The rule that is named is a repeatable one, which has stopped in front of
this very token, and it is the last of all rules to have stopped while the plan has been matched, whatever has
been included or added. No alternative of this rule takes the keyword, be it one of the language or one that
the plan has added. -/
theorem stop_of_unknownAttribute (h : grammar = .ok env.grammar) {keyword name : String} {l : Location}
    {d : Context}
    (run : plan env (.initial tokens journal) =
      (.error (.error ⟨.unknownAttribute keyword name, l⟩), d)) :
    d.tokens.peek = .id keyword ∧ l = d.tokens.location ∧
      ∃ earlier s, stopsOfPlan env (.initial tokens journal) = earlier ++ [s] ∧
        (env.grammar.rule s.rule).name = name ∧ (env.grammar.rule s.rule).repeatable = true ∧
        s.state.tokens = d.tokens ∧ s.state.extensions = d.extensions ∧
        ∀ p ∈ (env.grammar.rule s.rule).patterns ++ (LiveGrammar.mk env.grammar d.extensions).addedTo s.rule,
          (LiveGrammar.mk env.grammar d.extensions).patternAccepts (.id keyword) p = .ok false := by
  obtain ⟨logs, unknown, place⟩ := logs_of_unknownAttribute h run
  obtain ⟨peek, stop, marked, consumed, named⟩ := exists_of_unknownAttribute? unknown
  refine ⟨peek, place, ?_⟩
  -- the mark is set, and before the first token it was not, so some rule has stopped
  have mark := logs.mark
  rw [marked] at mark
  cases last : (stopsOfPlan env (.initial tokens journal)).getLast? with
  | none =>
    rw [last] at mark
    cases mark
  | some s =>
    rw [last] at mark
    obtain rfl : stop = s.mark := Option.some.inj mark
    obtain ⟨earlier, whole⟩ := List.getLast?_eq_some_iff.mp last
    have among : s ∈ stopsOfPlan env (.initial tokens journal) := List.mem_of_getLast? last
    have genuine := logs.genuine s among
    -- nothing has been read since, so nothing has changed
    obtain ⟨same, additions⟩ : d.tokens = s.state.tokens ∧ d.extensions = s.state.extensions :=
      (logs.since s among).resolve_right fun read => Nat.ne_of_lt read consumed
    refine ⟨earlier, s, whole, named, genuine.repeatable, same.symm, additions.symm, ?_⟩
    have refuses := genuine.refuses
    rwa [← same, ← additions, peek] at refuses

/-- A plan that adds an attribute to tasks and then misspells it. -/
def misspeltNote : TokenStream :=
  plainStream (yearHeader ++ [.mark .leftBrace, .id "extend", .id "task", .mark .leftBrace, .id "text",
    .id "Note", .string "A note", .mark .rightBrace, .mark .rightBrace, .id "task", .id "a", .string "A",
    .mark .leftBrace, .id "note", .string "First", .id "nota", .string "Second", .mark .rightBrace])

/-- It is refused for an attribute of tasks that is unknown. -/
theorem run_misspeltNote :
    satisfies (fun t =>
      match (plan ⟨t, .empty, .default⟩ (.initial (.ofStream misspeltNote "main.tjp" none) .silent)).1 with
      | .error (.error e) => e.fault == .unknownAttribute "nota" "taskAttributes"
      | _ => false) = true := by
  decide +kernel

/-- The rule for the attributes of tasks has stopped in front of what is misspelt, after all others. -/
theorem stop_of_plan_misspeltNote :
    ∃ table d earlier s, grammar = .ok table ∧
      plan ⟨table, .empty, .default⟩ (.initial (.ofStream misspeltNote "main.tjp" none) .silent) =
        (.error (.error ⟨.unknownAttribute "nota" "taskAttributes", d.tokens.location⟩), d) ∧
      d.tokens.peek = .id "nota" ∧
      stopsOfPlan ⟨table, .empty, .default⟩
        (.initial (.ofStream misspeltNote "main.tjp" none) .silent) = earlier ++ [s] ∧
      (table.rule s.rule).name = "taskAttributes" ∧ s.state.tokens = d.tokens := by
  obtain ⟨table, made⟩ := exists_grammar
  have found := of_satisfies run_misspeltNote made
  cases run : plan ⟨table, .empty, .default⟩ (.initial (.ofStream misspeltNote "main.tjp" none) .silent) with
  | mk outcome d =>
    rw [run] at found
    dsimp only at found
    split at found
    · rename_i e
      obtain ⟨fault, l⟩ := e
      obtain rfl : fault = _ := beq_iff_eq.mp found
      obtain ⟨peek, place, earlier, s, whole, named, -, same, -⟩ :=
        @stop_of_unknownAttribute ⟨table, .empty, .default⟩ _ _ made _ _ _ _ run
      obtain rfl : l = _ := place
      exact ⟨table, d, earlier, s, made, run, peek, whole, named, same⟩
    · cases found

end Language

end Planfile
