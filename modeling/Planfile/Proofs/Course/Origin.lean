import Planfile.Proofs.Course.Visit

/-!
# Planfile — where the reading of a plan breaks off

If a rule ends early, then at one point on the way there: rules nest too deep, no alternative can be chosen
though one is needed, the next token does not fit, or an action ends early. `Breaks` has one constructor for
each of these reasons. What an error says, and where, is known from the state at this point.

Main results:

* `Halts.of_run` — a rule that ends early breaks off at a point that has been visited.
-/

namespace Planfile

open Matcher

/-- What is wrong where a terminal does not accept a token. -/
def Terminal.refusal : Terminal → Token → ParseFault
  | .literal text, token => .unexpectedToken s!"'{text}'" token.text
  | .tokenClass name, token => .tokenMismatch name token.text

/-- Whether reading breaks off at a point, why, and in which state. -/
inductive Breaks (env : Surroundings) : Nat → Stage → Context → Stop → Context → Prop
  /-- Rules nest too deep. -/
  | deep {n : Nat} {id : RuleId} {c : Context} (full : Limits.parseDepth ≤ c.depth) :
    Breaks env n (.rule id) c (.error ⟨.maxParseDepth Limits.parseDepth, c.tokens.location⟩) c
  /-- A rule is needed, but no alternative of it can be chosen. -/
  | required {n : Nat} {id : RuleId} {c d : Context} (choice : choose id env c = (.ok none, d)) :
    Breaks env n (.alternatives id) c
      (.error ⟨.ruleExpected (env.grammar.rule id).name c.tokens.peek.text, c.tokens.location⟩) c
  /-- The next token does not fit. It is called an unknown attribute where it may be one. -/
  | unfit {n : Nat} {s : Symbol} {a : Terminal} {symbols : List Symbol} {c : Context}
    (hs : s.terminal? = some a) (refused : a.accepts c.tokens.peek = false) :
    Breaks env n (.symbols (s :: symbols)) c
      (.error ⟨(unknownAttribute? env.grammar c).getD (a.refusal c.tokens.peek), c.tokens.location⟩) c
  | acting {n : Nat} {p : Pattern} {v : Values} {c d : Context} {stop : Stop}
    (run : performed (matchRule n) p v.location v.items env c = (.error stop, d)) :
    Breaks env n (.action p v) c stop d
  /-- The grammar is to blame. -/
  | defect {n : Nat} {s : Stage} {c d : Context} {e : GrammarError} {l : Location} :
    Breaks env n s c (.error ⟨.grammar e, l⟩) d

/-- Whether reading that ends early in a state has broken off at a point on its way, but for the journal,
for how deep rules nest and for where one of them has stopped. Or else the fuel is used up. -/
def Halts (env : Surroundings) (n : Nat) (s : Stage) (c : Context) (stop : Stop) (d : Context) : Prop :=
  stop = .outOfFuel ∨ ∃ m s' x y, Visits env n s c m s' x ∧ Breaks env m s' x stop y ∧
    ∃ journal depth mark, d = { y with journal, depth, stop := mark }

namespace Halts

variable {env : Surroundings} {n m : Nat} {s s' : Stage} {c c' d : Context} {stop : Stop}

theorem here (h : Breaks env n s c stop d) : Halts env n s c stop d :=
  .inr ⟨n, s, c, d, .here, h, d.journal, d.depth, d.stop, rfl⟩

/-- What breaks off further on breaks off on the way. -/
theorem further (enter : ∀ {k s'' x}, Visits env m s' c' k s'' x → Visits env n s c k s'' x)
    (h : Halts env m s' c' stop d) : Halts env n s c stop d := by
  rcases h with fuel | ⟨k, s'', x, y, visit, breaks, same⟩
  · exact .inl fuel
  · exact .inr ⟨k, s'', x, y, enter visit, breaks, same⟩

/-- The journal and the like do not tell a difference. -/
theorem change (h : Halts env n s c stop d) (journal : Log.Journal) (depth : Nat)
    (mark : Option StopMark) : Halts env n s c stop { d with journal, depth, stop := mark } := by
  rcases h with fuel | ⟨k, s'', x, y, visit, breaks, _, _, _, rfl⟩
  · exact .inl fuel
  · exact .inr ⟨k, s'', x, y, visit, breaks, journal, depth, mark, rfl⟩

end Halts

namespace Matcher

variable {env : Surroundings} {c d : Context}

/-- A token that does not fit a symbol is refused, and is not read. -/
theorem run_matchSymbol_of_refused (matchRule : RuleId → Matcher (Option Value)) {s : Symbol}
    {a : Terminal} (hs : s.terminal? = some a) (h : a.accepts c.tokens.peek = false) :
    matchSymbol matchRule s env c = (.error (.error
      ⟨(unknownAttribute? env.grammar c).getD (a.refusal c.tokens.peek), c.tokens.location⟩), c) := by
  cases s with
  | literal text =>
    cases hs
    have unfits : c.tokens.peek.matchesLiteral text = false := h
    simp [matchSymbol, run_bind, unfits, expected, unfit, Terminal.refusal]
  | tokenClass k =>
    cases hs
    have unfits : c.tokens.peek.class? ≠ some k := by simpa [Terminal.accepts] using h
    simp [matchSymbol, run_bind, unfits, unfit, Terminal.refusal]
  | rule id => cases hs

end Matcher

namespace Halts

section
variable {env : Surroundings} {n : Nat} {c d : Context} {stop : Stop}
  (hr : ∀ id c stop d, matchRule n id env c = (.error stop, d) → Halts env n (.rule id) c stop d)

include hr

/-- A symbol that is not matched breaks off at its token, or where its rule does. -/
theorem of_run_symbol {first : Symbol} {symbols : List Symbol}
    (run : matchSymbol (matchRule n) first env c = (.error stop, d)) :
    Halts env n (.symbols (first :: symbols)) c stop d := by
  have terminal {a : Terminal} (hs : first.terminal? = some a) :
      Halts env n (.symbols (first :: symbols)) c stop d := by
    cases fits : a.accepts c.tokens.peek with
    | true =>
      rw [run_matchSymbol_of_accepts _ hs env fits] at run
      cases run
    | false =>
      rw [run_matchSymbol_of_refused _ hs fits] at run
      cases run
      exact here (.unfit hs fits)
  cases first with
  | literal text => exact terminal rfl
  | tokenClass class? => exact terminal rfl
  | rule id =>
    rw [matchSymbol, run_bind] at run
    rcases matched : matchRule n id env c with ⟨stop' | v, z⟩ <;> rw [matched] at run <;> cases run
    exact (hr id c stop d matched).further .reference

theorem of_run_symbols {symbols : List Symbol}
    (run : matchSymbols (matchRule n) symbols env c = (.error stop, d)) :
    Halts env n (.symbols symbols) c stop d := by
  induction symbols generalizing c with
  | nil => cases run
  | cons first symbols ih =>
    rw [matchSymbols, run_bind] at run
    cases one : matchSymbol (matchRule n) first env c with
    | mk outcome y =>
      rw [one] at run
      cases outcome with
      | error stop' =>
        cases run
        exact of_run_symbol hr one
      | ok item =>
        dsimp only at run
        rw [run_bind] at run
        rcases more : matchSymbols (matchRule n) symbols env y with ⟨stop' | items, z⟩ <;>
          rw [more] at run <;> cases run
        exact (ih more).further (.behind one)

theorem of_run_pattern {p : Pattern} (run : matchPattern (matchRule n) p env c = (.error stop, d)) :
    Halts env n (.pattern p) c stop d := by
  rw [run_matchPattern, run_bind] at run
  cases symbols : matchSymbols (matchRule n) p.symbols env c with
  | mk outcome y =>
    rw [symbols] at run
    cases outcome with
    | error stop' =>
      cases run
      exact (of_run_symbols hr symbols).further .symbols
    | ok items =>
      have broken : Breaks env n (.action p ⟨items, c.tokens.location⟩) y stop d := .acting run
      exact (here broken).further (.acting symbols)

theorem of_run_matchRepeatedly {id : RuleId} (repeatable : (env.grammar.rule id).repeatable = true)
    {mayStop : Bool} {count : Nat} {values : List Value}
    (run : matchRepeatedly (matchRule n) id mayStop count values env c = (.error stop, d)) :
    Halts env n (.alternatives id) c stop d := by
  -- by induction on the number of times that the rule may still be repeated
  induction count generalizing mayStop values c with
  | zero =>
    cases run
    exact .inl rfl
  | succ count ih =>
    cases choice : choose id env c with
    | mk outcome y =>
      cases outcome with
      | error stop' =>
        rw [matchRepeatedly, run_bind, choice] at run
        cases run
        obtain ⟨e, rfl, -⟩ := exists_of_choose_error choice
        exact here .defect
      | ok chosen =>
        obtain ⟨⟨journal, rfl⟩, -⟩ := exists_of_run_choose choice
        cases chosen with
        | none =>
          rw [run_matchRepeatedly_of_none choice] at run
          cases mayStop with
          | true => cases run
          | false =>
            cases run
            exact (here (.required choice)).change journal c.depth c.stop
        | some p =>
          rw [run_matchRepeatedly_of_some choice] at run
          cases matched : matchPattern (matchRule n) p env { c with journal } with
          | mk outcome z =>
            rw [matched] at run
            cases outcome with
            | error stop' =>
              cases run
              exact (of_run_pattern hr matched).further (.chosen choice)
            | ok v =>
              dsimp only at run
              split at run
              · cases run
                exact here .defect
              · exact (ih run).further (.again repeatable choice matched)

theorem of_run_matchAlternatives {id : RuleId}
    (run : matchAlternatives (matchRule n) n id env c = (.error stop, d)) :
    Halts env n (.alternatives id) c stop d := by
  cases repeatable : (env.grammar.rule id).repeatable with
  | true =>
    rw [run_matchAlternatives_of_repeatable repeatable, run_map] at run
    rcases repeated : matchRepeatedly (matchRule n) id (env.grammar.rule id).optional n [] env c with
      ⟨stop' | all, y⟩ <;> rw [repeated] at run <;> cases run
    exact of_run_matchRepeatedly hr repeatable repeated
  | false =>
    rw [run_matchAlternatives_of_single repeatable] at run
    cases choice : choose id env c with
    | mk outcome y =>
      rw [choice] at run
      cases outcome with
      | error stop' =>
        cases run
        obtain ⟨e, rfl, -⟩ := exists_of_choose_error choice
        -- the table gives no answer for the token
        exact here .defect
      | ok chosen =>
        cases chosen with
        | some p => exact (of_run_pattern hr run).further (.chosen choice)
        | none =>
          obtain ⟨⟨journal, rfl⟩, -⟩ := exists_of_run_choose choice
          cases optional : (env.grammar.rule id).optional <;> rw [optional] at run <;> cases run
          exact (here (.required choice)).change journal c.depth c.stop

end

/-- A rule that ends early breaks off at a point on its way, however deep rules nest. -/
theorem of_run {env : Surroundings} {n : Nat} {id : RuleId} {c d : Context} {stop : Stop}
    (run : matchRule n id env c = (.error stop, d)) : Halts env n (.rule id) c stop d := by
  -- by induction on how deep rules may still nest
  induction n generalizing id c stop d with
  | zero =>
    cases run
    exact .inl rfl
  | succ n ih =>
    by_cases shallow : c.depth < Limits.parseDepth
    · rw [run_matchRule n shallow] at run
      cases inside : matchAlternatives (matchRule n) n id env { c with depth := c.depth + 1 } with
      | mk outcome y =>
        rw [inside] at run
        cases run
        exact ((of_run_matchAlternatives (fun _ _ _ _ => ih) inside).further (.rule shallow)).change _ _ _
    · rw [matchRule_tooDeep n id (Nat.le_of_not_lt shallow)] at run
      cases run
      exact here (.deep (Nat.le_of_not_lt shallow))

end Halts

end Planfile
