import Planfile.Proofs.Termination.WellBehaved

/-!
# Planfile — matching comes to an end

A rule is matched by what it is made of: a symbol, symbols in a row, an alternative with its action,
alternatives over and over. Of each it is said here that it fares well if the rules inside do, and by
induction on the fuel every rule does. Neither the grammar nor the text needs to be in any order for
that: where rules refer to each other without end the limit of nesting is met, and a repetition that
reads nothing is stopped. Of actions no more is asked than that they are well behaved; the rules that an
action has matched, one after the other, each have the fuel that the rules of its pattern have had.

Main results:

* `Fares.bind` — two computations that fare well do so one after the other.
* `WellBehaved.fares` — an action fares well if the rules do that it has matched.
* `Matcher.fares_matchRepeatedly` — no rule is repeated more often than there are tokens to be read.
* `Matcher.fares_matchRule` — matching a rule fares well, whatever the grammar and the text.
-/

/-!
## Computations with fuel

`Fares` says what becomes of a computation with some fuel, next to what becomes of it with more: whether
it runs out of fuel at all, and that more of it changes nothing else.
-/

namespace Planfile

open Matcher

/-- How a computation fares in a state where it has some fuel, next to the same one with more fuel: it
advances; it runs out of fuel only behind an include, if it has had what it needs; and where it does not,
more fuel makes no difference. -/
structure Fares (fuel : Nat) (m more : Matcher α) (env : Surroundings) (c : Context) : Prop where
  advances : c.Advances (m env c).2
  starves : c.need ≤ fuel → (m env c).1 = .error .outOfFuel →
    (m env c).2.tokens.included ≠ c.tokens.included
  settled : (m env c).1 ≠ .error .outOfFuel → more env c = m env c

namespace Fares

variable {fuel less : Nat} {env : Surroundings} {c d : Context}

/-- How far it has come in the state that it leaves. -/
theorem advances_of_run {m more : Matcher α} (h : Fares fuel m more env c) {outcome : Except Stop α}
    (run : m env c = (outcome, d)) : c.Advances d := by
  have advances := h.advances
  rwa [run] at advances

/-- With less fuel it has to need less. -/
theorem mono {m more : Matcher α} (h : Fares fuel m more env c) (le : less ≤ fuel) :
    Fares less m more env c :=
  ⟨h.advances, fun enough => h.starves (Nat.le_trans enough le), h.settled⟩

/-- A computation that does not depend on fuel. -/
theorem of_fed {m : Matcher α} (feeds : (m env c).1 ≠ .error .outOfFuel)
    (advances : c.Advances (m env c).2) : Fares fuel m m env c where
  advances := advances
  starves _ starved := absurd starved feeds
  settled _ := rfl

/-- It depends on nothing but what the computation does in this state. -/
theorem congr {m more n further : Matcher α} (h : Fares fuel n further env c) (run : m env c = n env c)
    (run' : more env c = further env c) : Fares fuel m more env c := by
  obtain ⟨advances, starves, settled⟩ := h
  rw [← run] at advances starves settled
  rw [← run'] at settled
  exact ⟨advances, starves, settled⟩

/-- A computation that changes nothing but the journal and what a misspelt attribute is told by. -/
theorem of_noise {m : Matcher α} (journal : Log.Journal) (stop : Option StopMark)
    {outcome : Except Stop α} (run : m env c = (outcome, { c with journal, stop }))
    (feeds : outcome ≠ .error .outOfFuel) : Fares fuel m m env c := by
  apply of_fed <;> rw [run]
  · exact feeds
  · exact .of_tokens rfl rfl

/-- A computation that keeps the state. -/
theorem of_kept {m : Matcher α} {outcome : Except Stop α} (run : m env c = (outcome, c))
    (feeds : outcome ≠ .error .outOfFuel) : Fares fuel m m env c :=
  of_noise c.journal c.stop run feeds

/-- Two computations fare well one after the other, where the second one needs what is then left. -/
theorem bind_of_need {m more : Matcher α} {f further : α → Matcher β} (first : Fares fuel m more env c)
    (second : ∀ a d, m env c = (.ok a, d) →
      ∃ less, Fares less (f a) (further a) env d ∧
        (c.Advances d → d.tokens.included = c.tokens.included → c.need ≤ fuel → d.need ≤ less)) :
    Fares fuel (m >>= f) (more >>= further) env c := by
  cases run : m env c with
  | mk outcome d =>
  obtain ⟨advances, starves, settled⟩ := first
  rw [run] at advances starves settled
  cases outcome with
  | error stop =>
    -- the second one is not begun
    have whole : (m >>= f) env c = (.error stop, d) := by rw [run_bind, run]
    refine ⟨?_, ?_, ?_⟩ <;> rw [whole]
    · exact advances
    · exact fun enough starved => starves enough (congrArg Except.error (Except.error.inj starved))
    · intro feeds
      have fed : stop ≠ .outOfFuel := fun starved => feeds (congrArg Except.error starved)
      rw [run_bind, settled fun starved => fed (Except.error.inj starved)]
  | ok a =>
    have whole : (m >>= f) env c = f a env d := by rw [run_bind, run]
    obtain ⟨less, ⟨onward, starvesLater, settledLater⟩, room⟩ := second a d run
    refine ⟨?_, ?_, ?_⟩ <;> rw [whole]
    · exact advances.trans onward
    · -- as nothing is included on the whole, nothing is in either part
      intro enough starved none
      obtain ⟨before, behind⟩ := advances.included_eq onward none
      exact starvesLater (room advances before enough) starved behind
    · intro feeds
      rw [run_bind, settled (by simp)]
      exact settledLater feeds

/-- Two computations that fare well do so one after the other. -/
theorem bind {m more : Matcher α} {f further : α → Matcher β} (first : Fares fuel m more env c)
    (second : ∀ a d, m env c = (.ok a, d) → Fares fuel (f a) (further a) env d) :
    Fares fuel (m >>= f) (more >>= further) env c :=
  first.bind_of_need fun a d run => ⟨fuel, second a d run, fun advances none enough =>
    Nat.le_trans (advances.need_le none) enough⟩

/-- What is made of a value needs no fuel. -/
theorem map {m more : Matcher α} (h : Fares fuel m more env c) (f : α → β) :
    Fares fuel (f <$> m) (f <$> more) env c := by
  rw [← bind_pure_comp, ← bind_pure_comp]
  exact h.bind fun a d _ => of_kept (run_pure (f a) env d) (by simp)

/-- Being told of an error instead of ending for it needs no fuel. -/
theorem attempt {m more : Matcher α} (h : Fares fuel m more env c) :
    Fares fuel (Matcher.attempt m) (Matcher.attempt more) env c := by
  refine ⟨?_, fun enough starved => ?_, fun feeds => ?_⟩
  · rw [snd_attempt]
    exact h.advances
  · rw [snd_attempt]
    exact h.starves enough (fst_attempt_eq_outOfFuel_iff.mp starved)
  · have fed : (m env c).1 ≠ .error .outOfFuel := fun starved =>
      feeds (fst_attempt_eq_outOfFuel_iff.mpr starved)
    simp only [Matcher.attempt, ExceptT.mk, h.settled fed]

end Fares

end Planfile

namespace Planfile.Matcher

variable {fuel : Nat} {env : Surroundings} {matchRule further : RuleId → Matcher (Option Value)}

/-! ## Symbols -/

/-- A token is read or refused, and both without fuel. -/
theorem fares_terminal (matchRule : RuleId → Matcher (Option Value)) {s : Symbol} {a : Terminal}
    (hs : s.terminal? = some a) (c : Context) :
    Fares fuel (matchSymbol matchRule s) (matchSymbol matchRule s) env c := by
  cases fits : a.accepts c.tokens.peek with
  | true =>
    have read := run_matchSymbol_of_accepts matchRule hs env fits
    apply Fares.of_fed <;> rw [read]
    · simp
    · exact .next env (Terminal.isEof_of_accepts fits)
  | false =>
    obtain ⟨fault, -, refused⟩ := run_matchSymbol_of_not_accepts matchRule hs env fits
    exact .of_kept refused (by simp)

section
variable (hr : ∀ id c, Fares fuel (matchRule id) (further id) env c)
include hr

theorem fares_matchSymbol (s : Symbol) (c : Context) :
    Fares fuel (matchSymbol matchRule s) (matchSymbol further s) env c := by
  cases s with
  | literal text => exact fares_terminal matchRule rfl c
  | tokenClass k => exact fares_terminal matchRule rfl c
  | rule id =>
    rw [matchSymbol, matchSymbol]
    exact (hr id c).map MatchedValue.rule

theorem fares_matchSymbols (symbols : List Symbol) (c : Context) :
    Fares fuel (matchSymbols matchRule symbols) (matchSymbols further symbols) env c := by
  induction symbols generalizing c with
  | nil => exact .of_kept (run_pure [] env c) (by simp)
  | cons s rest ih =>
    rw [matchSymbols, matchSymbols]
    exact (fares_matchSymbol hr s c).bind fun item d _ => (ih d).map (item :: ·)

/-! ## Alternatives -/

/-- The rule of a name is matched, or the name is refused. -/
theorem fares_answer (name : String) (c : Context) :
    Fares fuel (answer matchRule name) (answer further name) env c := by
  have named : Fares fuel (ruleId name) (ruleId name) env c := by
    cases known : env.grammar.ruleId? name with
    | none =>
      have refused : ruleId name env c = (.error (.error
          ⟨.grammar (.undefinedRule "<runtime>" name), c.tokens.location⟩), c) := by
        simp [ruleId, run_bind, known]
      exact .of_kept refused (by simp)
    | some id =>
      have found : ruleId name env c = (.ok id, c) := by simp [ruleId, run_bind, known]
      exact .of_kept found (by simp)
  exact (named.bind fun id d _ => hr id d).attempt

end

section
variable [Meaning]
  (hp : ∀ a v c, Fares fuel (Meaning.perform matchRule v a) (Meaning.perform further v a) env c)
include hp

/-- What an alternative does behind its symbols. -/
theorem fares_performed (p : Pattern) (location : Location) (items : List MatchedValue) (c : Context) :
    Fares fuel (performed matchRule p location items) (performed further p location items) env c := by
  unfold performed
  cases action : p.action with
  | none => exact .of_kept (run_pure none env c) (by simp)
  | some a =>
    have reported : Fares fuel
        (report <| (Log.Event.debug "Running pattern action").detail "symbols" (toString items.length))
        (report <| (Log.Event.debug "Running pattern action").detail "symbols" (toString items.length))
        env c := .of_noise _ c.stop (run_modify _ env c) (by simp)
    exact reported.bind fun _ e _ => hp a _ e

theorem fares_matchPattern (hr : ∀ id c, Fares fuel (matchRule id) (further id) env c) (p : Pattern)
    (c : Context) : Fares fuel (matchPattern matchRule p) (matchPattern further p) env c := by
  refine Fares.congr ?_ (run_matchPattern matchRule p env c) (run_matchPattern further p env c)
  exact (fares_matchSymbols hr p.symbols c).bind fun items d _ =>
    fares_performed hp p c.tokens.location items d

end

/-! ## Choices -/

/-- Choosing an alternative changes nothing but the journal, whatever comes of it. -/
theorem fares_choose (id : RuleId) (c : Context) :
    Fares fuel (choose id) (choose id) env c := by
  cases answer : (LiveGrammar.mk env.grammar c.extensions).candidates id c.tokens.peek with
  | error e =>
    exact .of_kept (run_choose_of_error answer) (by simp)
  | ok found =>
    obtain ⟨journal, chooses⟩ := run_choose answer
    exact .of_noise journal c.stop chooses (by simp)

/-- Where nothing more is chosen a rule ends, or is expected. -/
theorem fares_endRepetition (id : RuleId) (mayStop : Bool) (values : List Value) (c : Context) :
    Fares fuel (endRepetition id mayStop values) (endRepetition id mayStop values) env c := by
  cases mayStop with
  | true =>
    have ended : endRepetition id true values env c =
        (.ok values, { c with stop := some ⟨c.tokens.consumed, id⟩ }) := rfl
    exact .of_noise c.journal _ ended (by simp)
  | false =>
    have refused : endRepetition id false values env c = (.error (.error
        ⟨.ruleExpected (env.grammar.rule id).name c.tokens.peek.text, c.tokens.location⟩), c) := rfl
    exact .of_kept refused (by simp)

section
variable [Meaning] (hr : ∀ id c, Fares fuel (matchRule id) (further id) env c)
  (hp : ∀ a v c, Fares fuel (Meaning.perform matchRule v a) (Meaning.perform further v a) env c)
include hr hp

/-- A repeatable rule is repeated no more often than there are tokens to be read. -/
theorem fares_matchRepeatedly (id : RuleId) (mayStop : Bool) (times : Nat) (values : List Value)
    (c : Context) : Fares (min fuel (times + 1)) (matchRepeatedly matchRule id mayStop times values)
      (matchRepeatedly further id mayStop (times + 1) values) env c := by
  induction times generalizing mayStop values c with
  | zero =>
    have starved : matchRepeatedly matchRule id mayStop 0 values env c = (.error .outOfFuel, c) := rfl
    constructor <;> rw [starved]
    · exact .refl c
    · intro enough
      rw [Context.need] at enough
      omega
    · exact fun feeds => absurd rfl feeds
  | succ times ih =>
    rw [matchRepeatedly, matchRepeatedly]
    -- an alternative is chosen and matched, and then the rule is repeated if it has read a token
    refine (fares_choose id c).bind fun chosen d choice => ?_
    cases chosen with
    | none => exact fares_endRepetition id mayStop values d
    | some p =>
      refine (Fares.of_kept (run_get env d) (by simp)).bind fun x y looked => ?_
      cases looked
      refine ((fares_matchPattern hp hr p d).mono (Nat.min_le_left _ _)).bind_of_need fun v e matched => ?_
      by_cases stuck : e.tokens.consumed = d.tokens.consumed
      · have refused : Fares fuel
            (failNext (.grammar (.noProgress (env.grammar.rule id).name)) : Matcher (List Value))
            (failNext (.grammar (.noProgress (env.grammar.rule id).name))) env e :=
          .of_kept (run_failNext _ env e) (by simp)
        refine ⟨fuel, refused.congr ?_ ?_, fun advances none enough => ?_⟩
        · simp [run_bind, stuck]
        · simp [run_bind, stuck]
        · exact Nat.le_trans (advances.need_le none) (Nat.le_trans enough (Nat.min_le_left _ _))
      · refine ⟨min fuel (times + 1), (ih true (v.toList ++ values) e).congr ?_ ?_, ?_⟩
        · simp [run_bind, stuck]
        · simp [run_bind, stuck]
        · -- the token that has been read is one less to be repeated for
          intro advances none enough
          have less := advances.need_lt none stuck
          omega

theorem fares_matchAlternatives (id : RuleId) (c : Context) :
    Fares fuel (matchAlternatives matchRule fuel id) (matchAlternatives further (fuel + 1) id) env c := by
  cases repeatable : (env.grammar.rule id).repeatable with
  | true =>
    have repeated := fares_matchRepeatedly hr hp id (env.grammar.rule id).optional fuel [] c
    rw [Nat.min_eq_left (Nat.le_succ fuel)] at repeated
    exact (repeated.map collected).congr (run_matchAlternatives_of_repeatable repeatable fuel)
      (run_matchAlternatives_of_repeatable repeatable (fuel + 1))
  | false =>
    unfold matchAlternatives
    refine (Fares.of_kept (run_read env c) (by simp)).bind fun x y looked => ?_
    cases looked
    dsimp only
    rw [repeatable, if_neg Bool.false_ne_true, if_neg Bool.false_ne_true]
    refine (fares_choose id c).bind fun chosen d choice => ?_
    cases chosen with
    | some p => exact fares_matchPattern hp hr p d
    | none =>
      dsimp only
      split
      · exact .of_kept (run_pure none env d) (by simp)
      · have refused : (ruleExpected (env.grammar.rule id).name : Matcher (Option Value)) env d =
            (.error (.error ⟨.ruleExpected (env.grammar.rule id).name d.tokens.peek.text,
              d.tokens.location⟩), d) := rfl
        exact .of_kept refused (by simp)

end

/-! ## Rules -/

/-- One level deeper, the fuel that is left is enough for what is then needed. -/
theorem fares_nested {m more : Matcher α} {c : Context} (shallow : c.depth < Limits.parseDepth)
    (h : Fares fuel m more env { c with depth := c.depth + 1 }) :
    Fares (fuel + 1) (nested m) (nested more) env c := by
  obtain ⟨advances, starves, settled⟩ := h
  constructor
  · refine ⟨?_, advances.included, advances.consumed, advances.account⟩
    exact run_nested_depth advances.depth
  · intro enough
    refine starves ?_
    rw [Context.need] at enough ⊢
    change Limits.parseDepth - (c.depth + 1) + c.left + 2 ≤ fuel
    omega
  · intro feeds
    simp only [Matcher.nested, ExceptT.mk, settled feeds]

end Planfile.Matcher

namespace Planfile

open Matcher

variable [Meaning] {env : Surroundings} {c : Context}

/-- What is well behaved fares well if the rules do that it has matched, be they many. -/
theorem WellBehaved.fares {act : (RuleId → Matcher (Option Value)) → Matcher (Option Value)}
    (h : WellBehaved env act c) {fuel : Nat}
    (hr : ∀ id c, Fares fuel (matchRule fuel id) (matchRule (fuel + 1) id) env c) :
    Fares fuel (act (matchRule fuel)) (act (matchRule (fuel + 1))) env c := by
  induction h with
  | alone fed advances => exact .of_fed fed advances
  | behind fed advances _ ih => exact (Fares.of_fed fed advances).bind ih
  -- each rule that it has matched has all the fuel, so their number does not count
  | asks _ ih => exact (fares_answer hr _ _).bind fun r d run => ih fuel r d run

/-- Matching a rule fares well, whatever the grammar and the text, if actions are well behaved. -/
theorem Matcher.fares_matchRule (wellBehaved : Meaning.WellBehaved env) (fuel : Nat) (id : RuleId) (c : Context) :
    Fares fuel (matchRule fuel id) (matchRule (fuel + 1) id) env c := by
  induction fuel generalizing id c with
  | zero =>
    have starved : matchRule 0 id env c = (.error .outOfFuel, c) := rfl
    constructor <;> rw [starved]
    · exact .refl c
    · exact fun enough => absurd enough (Nat.not_succ_le_zero _)
    · exact fun feeds => absurd rfl feeds
  | succ fuel ih =>
    -- at the limit nothing is done, and below it one level less is left
    by_cases shallow : c.depth < Limits.parseDepth
    · have acts (a : Action) (v : Values) (c : Context) := (wellBehaved a v c).fares ih
      exact (fares_nested shallow (fares_matchAlternatives ih acts id _)).congr
        (run_matchRule fuel shallow) (run_matchRule (fuel + 1) shallow)
    · have tooDeep (fuel : Nat) : matchRule (fuel + 1) id env c = _ :=
        matchRule_tooDeep fuel id (Nat.le_of_not_lt shallow)
      exact (Fares.of_kept (tooDeep fuel) (by simp)).congr rfl
        ((tooDeep (fuel + 1)).trans (tooDeep fuel).symm)

/-- An action fares well, whatever the grammar and the text, if all are well behaved. -/
theorem Meaning.WellBehaved.fares (wellBehaved : Meaning.WellBehaved env) (fuel : Nat) (a : Action) (v : Values)
    (c : Context) :
    Fares fuel (Meaning.perform (matchRule fuel) v a) (Meaning.perform (matchRule (fuel + 1)) v a) env c :=
  (wellBehaved a v c).fares (fares_matchRule wellBehaved fuel)

end Planfile
