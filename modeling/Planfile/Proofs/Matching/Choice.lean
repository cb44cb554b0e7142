import Planfile.Parse.Matcher
import Planfile.Proofs.Matching.Extension
import Planfile.Proofs.Matching.Reading

/-!
# Planfile — choosing alternatives

The next token chooses an alternative, and the alternative then reads it. So a rule that can start
with the next token never ends without having read one.

Main results:

* `LiveGrammar.symbolAccepts_mono` — following more references changes no answer.
* `Matcher.run_choose` — the candidates for the next token decide, and nothing is read.
* `Matcher.cases_of_run_matchAlternatives` — how a rule has been matched.
* `Matcher.run_plan` — a plan gives the project that has been read.
* `Matcher.exists_of_run_plan` — where a plan has come to its end, a project has been read.
* `Matcher.cases_of_run_plan` — why a plan ends early.
-/

namespace Planfile

namespace LiveGrammar

/-- Two tests that agree find the same. -/
theorem anyM_congr {f g : α → Except ε Bool} {xs : List α} {b : Bool}
    (h : ∀ x ∈ xs, ∀ b, f x = .ok b → g x = .ok b) (hf : xs.anyM f = .ok b) :
    xs.anyM g = .ok b := by
  induction xs with
  | nil => exact hf
  | cons x xs ih =>
    rw [List.anyM] at hf ⊢
    cases hx : f x with
    | error e => simp [hx, bind, Except.bind] at hf
    | ok first =>
      rw [hx] at hf
      rw [h x List.mem_cons_self first hx]
      cases first with
      | true => exact hf
      | false => exact ih (fun y hy => h y (List.mem_cons_of_mem _ hy)) hf

/-- Following more references changes no answer. -/
theorem symbolAccepts_mono {g : LiveGrammar} {token : Token} {room : Nat} {s : Symbol} {b : Bool}
    (h : g.symbolAccepts token room s = .ok b) :
    g.symbolAccepts token (room + 1) s = .ok b := by
  induction room generalizing s b with
  | zero =>
    cases s with
    | literal text => exact h
    | tokenClass c => exact h
    | rule id => cases h
  | succ room ih =>
    cases s with
    | literal text => exact h
    | tokenClass c => exact h
    | rule id =>
      rw [symbolAccepts] at h ⊢
      refine anyM_congr (fun p _ b hp => ?_) h
      cases hs : p.first? with
      | none => simpa [hs] using hp
      | some s =>
        simp only [hs] at hp ⊢
        exact ih hp

/-- A rule that can start with a token has an alternative that can. -/
theorem exists_patternAccepts {g : LiveGrammar} {token : Token} {id : RuleId}
    (h : g.symbolAccepts token Limits.firstSetDepth (.rule id) = .ok true) :
    ∃ p ∈ g.patterns id, g.patternAccepts token p = .ok true := by
  rw [show Limits.firstSetDepth = 63 + 1 from rfl, symbolAccepts] at h
  obtain ⟨p, hp, first⟩ := exists_of_anyM_true h
  refine ⟨p, hp, ?_⟩
  rw [patternAccepts]
  cases hs : p.first? with
  | none => simp [hs] at first
  | some s =>
    simp only [hs] at first
    exact symbolAccepts_mono first

/-- An alternative that can start with a token is among the candidates. -/
theorem mem_accepting {g : LiveGrammar} {token : Token} {ps found : List Pattern}
    (h : g.accepting token ps = .ok found) {p : Pattern} (hp : p ∈ ps)
    (ha : g.patternAccepts token p = .ok true) : p ∈ found := by
  induction ps generalizing found with
  | nil => cases hp
  | cons q rest ih =>
    rw [accepting] at h
    cases hq : g.patternAccepts token q with
    | error e => simp [hq, bind, Except.bind] at h
    | ok b =>
      cases hr : g.accepting token rest with
      | error e => simp [hq, hr, bind, Except.bind] at h
      | ok others =>
        simp only [hq, hr, bind, Except.bind, pure, Except.pure, Except.ok.injEq] at h
        subst h
        rcases List.mem_cons.mp hp with rfl | hp
        · have chosen : b = true := Except.ok.inj (hq.symm.trans ha)
          simp [chosen]
        · have known := ih hr hp
          cases b with
          | true => exact List.mem_cons_of_mem _ known
          | false => exact known

end LiveGrammar

namespace Matcher

/-- The candidates for the next token decide which alternative is chosen, and nothing is read. -/
theorem run_choose {rule : RuleId} {env : Surroundings} {c : Context} {found : List Pattern}
    (h : (LiveGrammar.mk env.grammar c.extensions).candidates rule c.tokens.peek = .ok found) :
    ∃ journal, choose rule env c = (.ok found.head?, { c with journal := journal }) := by
  have live : (live : Matcher LiveGrammar) env c = (.ok ⟨env.grammar, c.extensions⟩, c) := rfl
  by_cases several : 1 < found.length && env.preferences.parser.warnOnAmbiguity
  · apply Exists.intro
    simp only [choose, run_bind, run_read, run_get, live, h, sound, run_pure, several, if_true,
      report, run_modify]
    rfl
  · refine ⟨c.journal, ?_⟩
    simp only [choose, run_bind, run_read, run_get, live, h, sound, run_pure, several]
    rfl

/-- Where looking ahead gives no answer, choosing ends for this defect of the grammar. -/
theorem run_choose_of_error {rule : RuleId} {env : Surroundings} {c : Context} {e : GrammarError}
    (h : (LiveGrammar.mk env.grammar c.extensions).candidates rule c.tokens.peek = .error e) :
    choose rule env c = (.error (.error ⟨.grammar e, c.tokens.location⟩), c) := by
  have live : (live : Matcher LiveGrammar) env c = (.ok ⟨env.grammar, c.extensions⟩, c) := rfl
  simp [choose, run_bind, live, h, sound]

/-- What has been chosen is the first one of the candidates for the next token. -/
theorem exists_candidates_of_run_choose {rule : RuleId} {env : Surroundings} {c d : Context}
    {chosen : Option Pattern} (h : choose rule env c = (.ok chosen, d)) :
    ∃ found journal,
      (LiveGrammar.mk env.grammar c.extensions).candidates rule c.tokens.peek = .ok found ∧
        chosen = found.head? ∧ d = { c with journal := journal } := by
  cases answer : (LiveGrammar.mk env.grammar c.extensions).candidates rule c.tokens.peek with
  | error e =>
    rw [run_choose_of_error answer] at h
    cases h
  | ok found =>
    obtain ⟨journal, chooses⟩ := run_choose answer
    rw [chooses] at h
    cases h
    exact ⟨found, journal, rfl, rfl, rfl⟩

/-- What has been chosen is an alternative that is in force, and nothing has been read. -/
theorem exists_of_run_choose {rule : RuleId} {env : Surroundings} {c d : Context}
    {chosen : Option Pattern} (h : choose rule env c = (.ok chosen, d)) :
    (∃ journal, d = { c with journal := journal }) ∧
      ∀ p, chosen = some p → p ∈ (LiveGrammar.mk env.grammar c.extensions).patterns rule := by
  obtain ⟨found, journal, answer, rfl, rfl⟩ := exists_candidates_of_run_choose h
  exact ⟨⟨journal, rfl⟩, fun p first =>
    LiveGrammar.subset_of_candidates answer (List.mem_of_head? first)⟩

/-- Where no alternative can be chosen for want of an answer, the grammar is to blame, and the state is
kept. -/
theorem exists_of_choose_error {rule : RuleId} {env : Surroundings} {c d : Context} {stop : Stop}
    (h : choose rule env c = (.error stop, d)) :
    ∃ e, stop = .error ⟨.grammar e, c.tokens.location⟩ ∧ d = c := by
  cases answer : (LiveGrammar.mk env.grammar c.extensions).candidates rule c.tokens.peek with
  | error e =>
    rw [run_choose_of_error answer] at h
    cases h
    exact ⟨e, rfl, rfl⟩
  | ok found =>
    obtain ⟨journal, chooses⟩ := run_choose answer
    rw [chooses] at h
    cases h

section
variable [Meaning] {matchRule : RuleId → Matcher (Option Value)} {id : RuleId} {env : Surroundings}
  {c d : Context}

/-- How a repeatable rule comes to its end. -/
def endRepetition (id : RuleId) (mayStop : Bool) (values : List Value) : Matcher (List Value) := do
  if !mayStop then ruleExpected ((← read).grammar.rule id).name
  markStop id
  return values

/-- Where no alternative is chosen, a repeatable rule has come to its end. -/
theorem run_matchRepeatedly_of_none (h : choose id env c = (.ok none, d)) (mayStop : Bool)
    (fuel : Nat) (values : List Value) :
    matchRepeatedly matchRule id mayStop (fuel + 1) values env c =
      endRepetition id mayStop values env d := by
  rw [matchRepeatedly, run_bind, h]
  rfl

/-- Where an alternative is chosen, it is matched, and if it has read something the rule goes on. -/
theorem run_matchRepeatedly_of_some {p : Pattern} (h : choose id env c = (.ok (some p), d))
    (mayStop : Bool) (fuel : Nat) (values : List Value) :
    matchRepeatedly matchRule id mayStop (fuel + 1) values env c =
      match matchPattern matchRule p env d with
      | (.ok v, e) =>
        if e.tokens.consumed = d.tokens.consumed then
          (.error (.error ⟨.grammar (.noProgress (env.grammar.rule id).name), e.tokens.location⟩), e)
        else matchRepeatedly matchRule id true fuel (v.toList ++ values) env e
      | (.error stop, e) => (.error stop, e) := by
  rw [matchRepeatedly, run_bind, h]
  dsimp only
  rw [run_bind, run_get]
  dsimp only
  rw [run_bind]
  rcases matchPattern matchRule p env d with ⟨v | v, e⟩
  · rfl
  · dsimp only
    rw [run_bind, run_get]
    dsimp only
    by_cases stuck : e.tokens.consumed = d.tokens.consumed
    · rw [if_pos stuck, if_pos stuck]
      rfl
    · rw [if_neg stuck, if_neg stuck]

/-- A repeatable rule that has been matched has come to its end, which it was allowed to, or it has gone on
behind an alternative that has read something. -/
theorem cases_of_run_matchRepeatedly {mayStop : Bool} {fuel : Nat} {values all : List Value}
    (h : matchRepeatedly matchRule id mayStop (fuel + 1) values env c = (.ok all, d)) :
    (∃ e, choose id env c = (.ok none, e) ∧ mayStop = true ∧ all = values ∧
      d = { e with stop := some ⟨e.tokens.consumed, id⟩ }) ∨
    ∃ p e v f, choose id env c = (.ok (some p), e) ∧ matchPattern matchRule p env e = (.ok v, f) ∧
      f.tokens.consumed ≠ e.tokens.consumed ∧
      matchRepeatedly matchRule id true fuel (v.toList ++ values) env f = (.ok all, d) := by
  cases choice : choose id env c with
  | mk outcome e =>
    cases outcome with
    | error stop =>
      rw [matchRepeatedly, run_bind, choice] at h
      cases h
    | ok chosen =>
      cases chosen with
      | none =>
        rw [run_matchRepeatedly_of_none choice] at h
        cases mayStop with
        | false => cases h
        | true =>
          cases h
          exact .inl ⟨e, rfl, rfl, rfl, rfl⟩
      | some p =>
        rw [run_matchRepeatedly_of_some choice] at h
        cases matched : matchPattern matchRule p env e with
        | mk outcome f =>
          rw [matched] at h
          cases outcome with
          | error stop => cases h
          | ok v =>
            dsimp only at h
            split at h
            · cases h
            · next read => exact .inr ⟨p, e, v, f, rfl, matched, read, h⟩

/-- How a repeatable rule goes from one state to another, where it may or may not stop at once: it
stops where no alternative is chosen, and else goes on behind one that has read something. -/
inductive Repeats (matchRule : RuleId → Matcher (Option Value)) (id : RuleId) (env : Surroundings) :
    Bool → Context → Context → Prop
  | stop {c d : Context} (choice : choose id env c = (.ok none, d)) :
    Repeats matchRule id env true c { d with stop := some ⟨d.tokens.consumed, id⟩ }
  | next {mayStop : Bool} {c d e f : Context} {p : Pattern} {v : Option Value}
    (choice : choose id env c = (.ok (some p), d)) (matched : matchPattern matchRule p env d = (.ok v, e))
    (rest : Repeats matchRule id env true e f) : Repeats matchRule id env mayStop c f

/-- A repeatable rule that has been matched has been repeated until no alternative was chosen. -/
theorem repeats_of_run {mayStop : Bool} {fuel : Nat} {values all : List Value}
    (h : matchRepeatedly matchRule id mayStop fuel values env c = (.ok all, d)) :
    Repeats matchRule id env mayStop c d := by
  -- by induction on the number of times that the rule may still be repeated
  induction fuel generalizing mayStop values c with
  | zero => cases h
  | succ fuel ih =>
    rcases cases_of_run_matchRepeatedly h with ⟨e, choice, rfl, -, rfl⟩ | ⟨p, e, v, f, choice, matched, -, rest⟩
    · exact .stop choice
    · exact .next choice matched (ih rest)

/-- What a repeatable rule makes of the values, the latest first. -/
def collected (values : List Value) : Option Value :=
  if values.isEmpty then none else some (.list values.reverse)

omit [Meaning] in
/-- The items of what a repeatable rule collects. -/
theorem items_collected (values : List Value) :
    ((collected values).map (·.items)).getD [] = values.reverse := by
  cases values <;> rfl

/-- A repeatable rule collects what is repeated. -/
theorem run_matchAlternatives_of_repeatable (h : (env.grammar.rule id).repeatable = true)
    (fuel : Nat) :
    matchAlternatives matchRule fuel id env c =
      (collected <$> matchRepeatedly matchRule id (env.grammar.rule id).optional fuel []) env c := by
  rw [matchAlternatives, run_bind, run_read]
  dsimp only
  rw [if_pos h, ← bind_pure_comp]
  rfl

/-- Any other rule matches the alternative that is chosen, and may be absent if it is optional. -/
theorem run_matchAlternatives_of_single (h : (env.grammar.rule id).repeatable = false)
    (fuel : Nat) :
    matchAlternatives matchRule fuel id env c =
      match choose id env c with
      | (.ok (some p), d) => matchPattern matchRule p env d
      | (.ok none, d) =>
        (if (env.grammar.rule id).optional then return none
          else ruleExpected (env.grammar.rule id).name) env d
      | (.error stop, d) => (.error stop, d) := by
  rw [matchAlternatives, run_bind, run_read]
  dsimp only
  rw [h, if_neg Bool.false_ne_true, run_bind]
  rcases choose id env c with ⟨(stop | (none | p)), d⟩ <;> rfl

/-- A rule has been matched by being repeated, if it can be, and else by the alternative that was
chosen; where none was, it may be absent. -/
theorem cases_of_run_matchAlternatives {fuel : Nat} {v : Option Value}
    (h : matchAlternatives matchRule fuel id env c = (.ok v, d)) :
    ((env.grammar.rule id).repeatable = true ∧ ∃ all, v = collected all ∧
      matchRepeatedly matchRule id (env.grammar.rule id).optional fuel [] env c = (.ok all, d)) ∨
    ((env.grammar.rule id).repeatable = false ∧ (env.grammar.rule id).optional = true ∧ v = none ∧
      choose id env c = (.ok none, d)) ∨
    ((env.grammar.rule id).repeatable = false ∧
      ∃ p e, choose id env c = (.ok (some p), e) ∧ matchPattern matchRule p env e = (.ok v, d)) := by
  cases repeatable : (env.grammar.rule id).repeatable with
  | true =>
    rw [run_matchAlternatives_of_repeatable repeatable] at h
    obtain ⟨all, repeated, rfl⟩ := exists_of_run_map h
    exact .inl ⟨rfl, all, rfl, repeated⟩
  | false =>
    rw [run_matchAlternatives_of_single repeatable] at h
    cases choice : choose id env c with
    | mk outcome e =>
      rw [choice] at h
      cases outcome with
      | error stop => cases h
      | ok chosen =>
        cases chosen with
        | none =>
          dsimp only at h
          cases optional : (env.grammar.rule id).optional with
          | false =>
            rw [optional] at h
            cases h
          | true =>
            rw [optional] at h
            cases h
            exact .inr (.inl ⟨rfl, rfl, rfl, rfl⟩)
        | some p => exact .inr (.inr ⟨rfl, p, e, rfl, h⟩)

/-- A rule is matched by its alternatives one level deeper, if the limit leaves room. -/
theorem run_matchRule (fuel : Nat) (shallow : c.depth < Limits.parseDepth) :
    Matcher.matchRule (fuel + 1) id env c =
      let r := matchAlternatives (Matcher.matchRule fuel) fuel id env
        { c with depth := c.depth + 1 }
      (r.1, { r.2 with depth := r.2.depth - 1 }) := by
  rw [Matcher.matchRule, run_bind, run_get]
  dsimp only
  rw [if_neg (Nat.not_le_of_lt shallow)]
  rfl

/-- A rule has matched by one of its alternatives, one level deeper. -/
theorem exists_of_run_matchRule {fuel : Nat} {v : Option Value}
    (h : Matcher.matchRule (fuel + 1) id env c = (.ok v, d)) :
    c.depth < Limits.parseDepth ∧ ∃ e,
      matchAlternatives (Matcher.matchRule fuel) fuel id env { c with depth := c.depth + 1 } =
        (.ok v, e) ∧ d = { e with depth := e.depth - 1 } := by
  rw [Matcher.matchRule, run_bind, run_get] at h
  dsimp only at h
  split at h
  · cases h
  · rename_i shallow
    refine ⟨Nat.lt_of_not_le shallow, ?_⟩
    change (nested (matchAlternatives (Matcher.matchRule fuel) fuel id)) env c = (.ok v, d) at h
    obtain ⟨result, last⟩ := Prod.mk.inj h
    exact ⟨_, Prod.ext result rfl, last.symm⟩

/-- Matching the rule of a name, where the grammar has one. -/
theorem run_parseRule {name : String} (known : env.grammar.ruleId? name = some id) :
    parseRule name env c = Matcher.matchRule ampleFuel id env c := by
  have found : ruleId name env c = (.ok id, c) := by
    rw [ruleId, run_bind, run_read]
    dsimp only
    rw [known]
    rfl
  rw [parseRule, run_bind, found]

end

end Matcher

end Planfile

/-!
## Whole plans

A plan is the rule for projects, up to the end of the text. What comes of it is known from what comes
of the rule.
-/

namespace Planfile.Matcher

variable {env : Surroundings} {id : RuleId} {c d : Context} {v : Option Value}

/-- Behind a project that is all of a text, a plan is refused only if no project has been made. -/
theorem run_plan_of_isEof (known : env.grammar.ruleId? "project" = some id)
    (parsed : matchRule ampleFuel id env c = (.ok v, d)) (eof : d.tokens.peek.isEof = true) :
    plan env c = orFail d.project .noProject env { d with project := none } := by
  rw [plan, run_bind, run_parseRule known, parsed]
  dsimp only
  rw [run_bind, run_expectEnd_of_isEof eof]
  rfl

/-- Where a project has been read up to the end of the text, a plan has come to its end. -/
theorem run_plan (known : env.grammar.ruleId? "project" = some id)
    (parsed : matchRule ampleFuel id env c = (.ok v, d)) (eof : d.tokens.peek.isEof = true)
    {p : Plan.Project} (there : d.project = some p) :
    plan env c = (.ok p, { d with project := none }) := by
  rw [run_plan_of_isEof known parsed eof, there]
  rfl

/-- Where a plan has come to its end, its project has been read up to the end of the text. -/
theorem exists_of_run_plan (known : env.grammar.ruleId? "project" = some id) {p : Plan.Project}
    (run : plan env c = (.ok p, d)) :
    ∃ v e, matchRule ampleFuel id env c = (.ok v, e) ∧ e.tokens.peek.isEof = true ∧
      e.project = some p ∧ d = { e with project := none } := by
  obtain ⟨v, e, parsed, rest⟩ := exists_of_run_bind run
  rw [run_parseRule known] at parsed
  refine ⟨v, e, parsed, ?_⟩
  have eof : e.tokens.peek.isEof = true := by
    obtain ⟨_, e', ended, -⟩ := exists_of_run_bind rest
    cases eof : e.tokens.peek.isEof with
    | true => rfl
    | false =>
      rw [expectEnd, run_bind, run_get] at ended
      dsimp only at ended
      rw [eof] at ended
      cases ended
  rw [run_plan_of_isEof known parsed eof] at run
  -- a project has been made, since the plan has not been refused for want of one
  cases there : e.project with
  | none =>
    rw [there] at run
    cases run
  | some q =>
    rw [there] at run
    cases run
    exact ⟨eof, rfl, rfl⟩

/-- Where a plan ends early, so does the rule for projects, or something else than the end of the text
stands behind a project, or there is none. -/
theorem cases_of_run_plan (known : env.grammar.ruleId? "project" = some id) {stop : Stop}
    (run : plan env c = (.error stop, d)) :
    matchRule ampleFuel id env c = (.error stop, d) ∨
      ∃ v e, matchRule ampleFuel id env c = (.ok v, e) ∧
        (d = e ∧ stop = .error ⟨(unknownAttribute? env.grammar e).getD
            (.unexpectedToken "End of input" e.tokens.peek.text), e.tokens.location⟩ ∨
          e.project = none) := by
  rw [plan, run_bind, run_parseRule known] at run
  cases parsed : matchRule ampleFuel id env c with
  | mk outcome e =>
    rw [parsed] at run
    cases outcome with
    | error stop' =>
      cases run
      exact .inl rfl
    | ok v =>
      refine .inr ⟨v, e, rfl, ?_⟩
      dsimp only at run
      cases eof : e.tokens.peek.isEof with
      | false =>
        -- the end of the text is asked for before the project is, so it is what is missing
        have refused : expectEnd env e = (.error (.error ⟨(unknownAttribute? env.grammar e).getD
            (.unexpectedToken "End of input" e.tokens.peek.text), e.tokens.location⟩), e) := by
          simp [expectEnd, run_bind, eof, expected, unfit]
        rw [run_bind, refused] at run
        cases run
        exact .inl ⟨rfl, rfl⟩
      | true =>
        rw [run_bind, run_expectEnd_of_isEof eof] at run
        dsimp only at run
        rw [run_bind, run_takeProject] at run
        cases there : e.project with
        | none => exact .inr rfl
        | some p =>
          rw [there] at run
          cases run

/-! ## Plans as tokens -/

/-- A stream of tokens that stand nowhere. -/
def plainStream (tokens : List Token) : TokenStream :=
  .ofTokens (tokens.map fun t => ⟨t, ⟨.start, .start⟩⟩) none

/-- The header of a plan for a year. -/
def yearHeader : List Token :=
  [.id "project", .id "p", .string "P", .string "1", .date ⟨2024, 1, 1, 0, 0, 0⟩, .mark .minus,
    .date ⟨2025, 1, 1, 0, 0, 0⟩]

end Planfile.Matcher
