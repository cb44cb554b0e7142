import Planfile.Proofs.Termination.Matching

/-!
# Planfile — an alternative reads the token it is chosen by

An alternative is chosen because its first symbol can start with the next token, be it over a chain of
rules. While it is matched every rule of this chain chooses again, with the same token ahead and the same
alternatives in force, so each of them finds an alternative, and the last one reads the token. Nothing is
asked of the grammar for this: where the chain is too long, or the choice is not clear, no alternative or
another one that starts with the token is chosen.

`Matcher.TakesNext` says of a computation in a state that it reads the next token, unless it ends early for
something else than the token.

Main results:

* `Matcher.takesNext_matchRule` — a rule that can start with the next token reads it.
* `Matcher.takesNext_of_run_choose` — an alternative that has been chosen reads the token.
* `Matcher.consumed_lt_of_chosen` — when it has been matched, something has been read.
-/

namespace Planfile

open Matcher

/-- What a fault says to have been found in place of what is expected. -/
def ParseFault.found? : ParseFault → Option String
  | .unexpectedToken _ found | .ruleExpected _ found | .tokenMismatch _ found => some found
  | .unknownAttribute keyword _ => some keyword
  | _ => none

/-- Whether a fault says that a token is not the one that is expected. -/
def ParseFault.IsMismatch (f : ParseFault) : Prop := f.found?.isSome = true

/-- Whether a reason to end early is about what the next token is. -/
def Stop.IsMismatch : Stop → Prop
  | .error e => e.fault.IsMismatch
  | .outOfFuel => False

namespace Matcher

/-- Whether a computation reads the next token, unless it ends early for something else than the token. -/
def TakesNext (m : Matcher α) (env : Surroundings) (c : Context) : Prop :=
  match m env c with
  | (.ok _, d) => c.tokens.consumed < d.tokens.consumed
  | (.error stop, d) => stop.IsMismatch → c.tokens.consumed < d.tokens.consumed

section
variable {fuel : Nat} {env : Surroundings} {c d : Context} {m more : Matcher α}

theorem TakesNext.of_ok (h : TakesNext m env c) {a : α} (run : m env c = (.ok a, d)) :
    c.tokens.consumed < d.tokens.consumed := by
  rwa [TakesNext, run] at h

theorem TakesNext.of_error (h : TakesNext m env c) {stop : Stop} (run : m env c = (.error stop, d))
    (mismatch : stop.IsMismatch) : c.tokens.consumed < d.tokens.consumed := by
  rw [TakesNext, run] at h
  exact h mismatch

/-- What ends early for something else need not read anything. -/
theorem takesNext_of_error {stop : Stop} (run : m env c = (.error stop, d)) (other : ¬stop.IsMismatch) :
    TakesNext m env c := by
  rw [TakesNext, run]
  exact fun mismatch => absurd mismatch other

/-- What ends early because the fuel has been used up need not either. -/
theorem takesNext_of_outOfFuel (run : m env c = (.error .outOfFuel, d)) : TakesNext m env c :=
  takesNext_of_error run fun wrong => wrong

/-- It depends on nothing but what comes of the computation, and how much has been read before. -/
theorem TakesNext.congr {n : Matcher α} (h : TakesNext n env d) (run : m env c = n env d)
    (same : d.tokens.consumed = c.tokens.consumed) : TakesNext m env c := by
  rw [TakesNext, run, ← same]
  exact h

/-- Where something has been read, what goes on from there takes nothing back. -/
theorem takesNext_of_advances {n : Matcher α} (read : c.tokens.consumed < d.tokens.consumed)
    (run : m env c = n env d) (onward : d.Advances (n env d).2) : TakesNext m env c := by
  have later := Nat.lt_of_lt_of_le read onward.consumed
  rw [TakesNext, run]
  -- the token has been read by then, whatever becomes of the rest
  split
  · next ended => rwa [ended] at later
  · next ended =>
    rw [ended] at later
    exact fun _ => later

/-- What comes behind a computation takes nothing back. -/
theorem TakesNext.bind {f : α → Matcher β} (h : TakesNext m env c)
    (onward : ∀ a d, m env c = (.ok a, d) → d.Advances (f a env d).2) :
    TakesNext (m >>= f) env c := by
  cases run : m env c with
  | mk outcome d =>
    cases outcome with
    | error stop =>
      have whole : (m >>= f) env c = (.error stop, d) := by rw [run_bind, run]
      rw [TakesNext, whole]
      exact h.of_error run
    | ok a =>
      have whole : (m >>= f) env c = f a env d := by rw [run_bind, run]
      exact takesNext_of_advances (h.of_ok run) whole (onward a d run)

/-- What is made of a value reads nothing. -/
theorem TakesNext.map (h : TakesNext m env c) (f : α → β) : TakesNext (f <$> m) env c := by
  rw [← bind_pure_comp]
  exact h.bind fun _ d _ => .refl d

/-- What is read one level deeper is read. -/
theorem TakesNext.nested (h : TakesNext m env { c with depth := c.depth + 1 }) :
    TakesNext (Matcher.nested m) env c := by
  unfold TakesNext at h ⊢
  have run : Matcher.nested m env c = ((m env { c with depth := c.depth + 1 }).1,
    { (m env { c with depth := c.depth + 1 }).2 with
      depth := (m env { c with depth := c.depth + 1 }).2.depth - 1 }) := rfl
  rw [run]
  split at h
  · next ended =>
    rw [ended]
    exact h
  · next ended =>
    rw [ended]
    exact h

end

/-! ## Choosing again -/

/-- Whether the alternatives of a rule can start with the next token. -/
def CanStart (t : GrammarTable) (c : Context) (id : RuleId) : Prop :=
  (LiveGrammar.mk t c.extensions).symbolAccepts c.tokens.peek Limits.firstSetDepth (.rule id) =
    .ok true

section
variable {env : Surroundings} {c d : Context} {id : RuleId}

/-- What is chosen accepts the next token. -/
theorem accepts_of_run_choose {p : Pattern} (h : choose id env c = (.ok (some p), d)) :
    (LiveGrammar.mk env.grammar c.extensions).patternAccepts c.tokens.peek p = .ok true := by
  obtain ⟨found, -, answer, first, -⟩ := exists_candidates_of_run_choose h
  exact (LiveGrammar.sublist_of_accepting answer).2 p (List.mem_of_head? first.symm)

/-- Where no alternative is chosen, none accepts the next token, and the state is kept. -/
theorem refused_of_run_choose (h : choose id env c = (.ok none, d)) :
    d = c ∧ ∀ p ∈ (LiveGrammar.mk env.grammar c.extensions).patterns id,
      (LiveGrammar.mk env.grammar c.extensions).patternAccepts c.tokens.peek p = .ok false := by
  obtain ⟨found, -, answer, first, -⟩ := exists_candidates_of_run_choose h
  obtain rfl : found = [] := List.head?_eq_none_iff.mp first.symm
  refine ⟨?_, fun p hp => ?_⟩
  · -- a warning is only given where there are several
    have live : (live : Matcher LiveGrammar) env c = (.ok ⟨env.grammar, c.extensions⟩, c) := rfl
    simp only [choose, run_bind, run_read, run_get, live, answer, sound, run_pure] at h
    exact (Prod.mk.inj h).2.symm
  · obtain ⟨b, hb⟩ := LiveGrammar.accepting_ok_iff.mp ⟨[], answer⟩ p hp
    cases b with
    | false => exact hb
    | true => cases LiveGrammar.mem_accepting answer hp hb

/-- A rule that can start with the next token chooses an alternative, unless there is no answer because of
chains that are too long. -/
theorem cases_of_canStart (h : CanStart env.grammar c id) :
    (∃ e, choose id env c = (.error (.error ⟨.grammar e, c.tokens.location⟩), c)) ∨
      ∃ p d, choose id env c = (.ok (some p), d) := by
  cases answer : (LiveGrammar.mk env.grammar c.extensions).candidates id c.tokens.peek with
  | error e => exact .inl ⟨e, run_choose_of_error answer⟩
  | ok found =>
    -- the alternative that the rule can start with is a candidate
    obtain ⟨p, hp, accepts⟩ := LiveGrammar.exists_patternAccepts h
    have candidate : p ∈ found := LiveGrammar.mem_accepting answer hp accepts
    obtain ⟨journal, chooses⟩ := run_choose answer
    cases found with
    | nil => cases candidate
    | cons q rest => exact .inr ⟨q, _, chooses⟩

/-- What is wrong with a grammar is not the next token. -/
theorem not_isMismatch_grammar (e : GrammarError) (l : Location) :
    ¬(Stop.error ⟨.grammar e, l⟩).IsMismatch := fun wrong => nomatch wrong

end

/-! ## The token that an alternative is chosen by -/

variable [Meaning]

section
variable {fuel : Nat} {env : Surroundings} {c d : Context} {id : RuleId}
  (hr : ∀ id c, CanStart env.grammar c id → TakesNext (matchRule fuel id) env c)

include hr

/-- A symbol that can start with the next token reads it, or a rule inside it does. -/
theorem takesNext_matchSymbol {s : Symbol}
    (ha : (LiveGrammar.mk env.grammar c.extensions).symbolAccepts c.tokens.peek
      Limits.firstSetDepth s = .ok true) : TakesNext (matchSymbol (matchRule fuel) s) env c := by
  have terminal {a : Terminal} (hs : s.terminal? = some a)
      (fits : a.accepts c.tokens.peek = true) : TakesNext (matchSymbol (matchRule fuel) s) env c := by
    rw [TakesNext, run_matchSymbol_of_accepts _ hs env fits]
    exact Nat.lt_succ_self _
  cases s with
  | literal text => exact terminal rfl (by simpa using ha)
  | tokenClass k => exact terminal rfl (by simpa using ha)
  | rule id =>
    rw [matchSymbol]
    exact (hr id c ha).map MatchedValue.rule

variable (wellBehaved : Meaning.WellBehaved env)
include wellBehaved

/-- So do the symbols of an alternative that can start with it: the first one reads it. -/
theorem takesNext_matchSymbols {p : Pattern}
    (ha : (LiveGrammar.mk env.grammar c.extensions).patternAccepts c.tokens.peek p = .ok true) :
    TakesNext (matchSymbols (matchRule fuel) p.symbols) env c := by
  rw [LiveGrammar.patternAccepts, Pattern.first?] at ha
  cases hs : p.symbols with
  | nil => simp [hs] at ha
  | cons s rest =>
    simp only [hs, List.head?_cons] at ha
    rw [matchSymbols]
    refine (takesNext_matchSymbol hr ha).bind fun item d _ => ?_
    -- those behind it take nothing back
    exact ((fares_matchSymbols (fares_matchRule wellBehaved fuel) rest d).map (item :: ·)).advances

/-- An alternative that has been chosen reads the token that it has been chosen by. -/
theorem takesNext_of_run_choose {p : Pattern} (choice : choose id env c = (.ok (some p), d)) :
    TakesNext (matchPattern (matchRule fuel) p) env d := by
  have accepts := accepts_of_run_choose choice
  obtain ⟨⟨journal, rfl⟩, -⟩ := exists_of_run_choose choice
  have symbols := takesNext_matchSymbols hr wellBehaved (c := { c with journal }) accepts
  refine (symbols.bind fun items e matched => ?_).congr (run_matchPattern _ p env _) rfl
  exact (fares_performed (wellBehaved.fares fuel) p _ items e).advances

/-- Where a repeatable rule can start with the next token it reads the token, however it goes on. -/
theorem takesNext_matchRepeatedly (h : CanStart env.grammar c id) (mayStop : Bool) (times : Nat)
    (values : List Value) :
    TakesNext (matchRepeatedly (matchRule fuel) id mayStop times values) env c := by
  cases times with
  | zero => exact takesNext_of_outOfFuel (d := c) rfl
  | succ times =>
    rcases cases_of_canStart h with ⟨e, choice⟩ | ⟨p, d, choice⟩
    · refine takesNext_of_error (d := c) ?_ (not_isMismatch_grammar e c.tokens.location)
      rw [matchRepeatedly, run_bind, choice]
    have takes := takesNext_of_run_choose hr wellBehaved choice
    have again := @run_matchRepeatedly_of_some _ (matchRule fuel) _ _ _ _ _ choice mayStop times values
    obtain ⟨⟨journal, rfl⟩, -⟩ := exists_of_run_choose choice
    cases matched : matchPattern (matchRule fuel) p env { c with journal } with
    | mk outcome e =>
      cases outcome with
      | error stop =>
        rw [matched] at again
        rw [TakesNext, again]
        exact takes.of_error matched
      | ok v =>
        have read : c.tokens.consumed < e.tokens.consumed := takes.of_ok matched
        have moved : e.tokens.consumed ≠ c.tokens.consumed := Nat.ne_of_gt read
        rw [matched] at again
        dsimp only at again
        rw [if_neg moved] at again
        -- what is repeated behind the first alternative takes nothing back
        have onward := (fares_matchRepeatedly (fares_matchRule wellBehaved fuel) (wellBehaved.fares fuel)
          id true times (v.toList ++ values) e).advances
        exact takesNext_of_advances read again onward

/-- A rule that can start with the next token chooses again, and what it chooses reads the token. -/
theorem takesNext_matchAlternatives (h : CanStart env.grammar c id) (times : Nat) :
    TakesNext (matchAlternatives (matchRule fuel) times id) env c := by
  cases repeatable : (env.grammar.rule id).repeatable with
  | true =>
    exact ((takesNext_matchRepeatedly hr wellBehaved h _ times []).map collected).congr
      (run_matchAlternatives_of_repeatable repeatable times) rfl
  | false =>
    have single := @run_matchAlternatives_of_single _ (matchRule fuel) _ _ c repeatable times
    rcases cases_of_canStart h with ⟨e, choice⟩ | ⟨p, d, choice⟩
    · rw [choice] at single
      exact takesNext_of_error single (not_isMismatch_grammar e c.tokens.location)
    · rw [choice] at single
      refine (takesNext_of_run_choose hr wellBehaved choice).congr single ?_
      obtain ⟨⟨journal, rfl⟩, -⟩ := exists_of_run_choose choice
      rfl

end

/-- A rule that can start with the next token reads it, unless it ends early for something else. -/
theorem takesNext_matchRule {env : Surroundings} {c : Context} {id : RuleId}
    (wellBehaved : Meaning.WellBehaved env) (h : CanStart env.grammar c id) (fuel : Nat) :
    TakesNext (matchRule fuel id) env c := by
  -- by induction on how deep rules may still nest
  induction fuel generalizing id c with
  | zero => exact takesNext_of_outOfFuel (d := c) rfl
  | succ fuel ih =>
    by_cases shallow : c.depth < Limits.parseDepth
    · -- one level deeper the same token is ahead
      have alternatives : TakesNext (matchAlternatives (matchRule fuel) fuel id) env
          { c with depth := c.depth + 1 } :=
        takesNext_matchAlternatives (c := { c with depth := c.depth + 1 }) (fun _ _ => ih) wellBehaved h
          fuel
      exact alternatives.nested.congr (run_matchRule fuel shallow) rfl
    · exact takesNext_of_error (matchRule_tooDeep fuel id (Nat.le_of_not_lt shallow))
        fun wrong => nomatch wrong

variable {env : Surroundings} {c d e : Context} {id : RuleId} {p : Pattern} {fuel : Nat}

/-- An alternative that has been chosen reads the token, as the rules do that it refers to. -/
theorem takesNext_of_chosen (wellBehaved : Meaning.WellBehaved env)
    (choice : choose id env c = (.ok (some p), d)) : TakesNext (matchPattern (matchRule fuel) p) env d :=
  takesNext_of_run_choose (fun _ _ ahead => takesNext_matchRule wellBehaved ahead fuel) wellBehaved choice

/-- An alternative that has been chosen has read something when it has been matched. -/
theorem consumed_lt_of_chosen {v : Option Value} (wellBehaved : Meaning.WellBehaved env)
    (choice : choose id env c = (.ok (some p), d))
    (matched : matchPattern (matchRule fuel) p env d = (.ok v, e)) :
    c.tokens.consumed < e.tokens.consumed := by
  have read := (takesNext_of_chosen wellBehaved choice).of_ok matched
  obtain ⟨⟨journal, rfl⟩, -⟩ := exists_of_run_choose choice
  exact read

end Matcher

end Planfile
