import Planfile.Proofs.Course.Visit
import Planfile.Proofs.Matching.Choice
import Planfile.Proofs.Termination.Commitment
import Planfile.Proofs.Termination.Matching

/-!
# Planfile — matching is bounded in depth and in length

Matching a rule ends with fuel that can be told from the state it starts in, unless it goes on with
other files. This is so whatever stands behind the names of actions, as long as the actions are well behaved:
they may match rules, again and again, and go on behind errors. The levels of rules inside each other are
those that the depth counts, also where an action matches a rule, and there are never more of them than the
limit allows. What is repeated reads a token each time.

Main results:

* `Enters.depth` — the depth counts the levels, also of the rules that actions match.
* `Matcher.orderly_of_wellBehaved` — matching a rule ends, restores the depth, and is bounded.
-/

namespace Planfile

open Matcher

section
variable [Meaning]

/-! ## Nesting -/

/-- Whether a computation that is told how rules are matched has the rule of a name matched in a state on
its way. -/
inductive Calls (env : Surroundings) (fuel : Nat) :
    ((RuleId → Matcher (Option Value)) → Matcher (Option Value)) → Context → String → Context → Prop
  | here {name : String}
    {next : Except ParseError (Option Value) → (RuleId → Matcher (Option Value)) → Matcher (Option Value)}
    {c : Context} : Calls env fuel (fun matchRule => do next (← answer matchRule name) matchRule) c name c
  | answered {name name' : String} {r : Except ParseError (Option Value)}
    {next : Except ParseError (Option Value) → (RuleId → Matcher (Option Value)) → Matcher (Option Value)}
    {c d x : Context} (run : answer (matchRule fuel) name env c = (.ok r, d))
    (rest : Calls env fuel (next r) d name' x) :
    Calls env fuel (fun matchRule => do next (← answer matchRule name) matchRule) c name' x
  | behind {α : Type} {m : Matcher α} {a : α} {name : String}
    {next : α → (RuleId → Matcher (Option Value)) → Matcher (Option Value)} {c d x : Context}
    (run : m env c = (.ok a, d)) (advances : c.Advances d) (rest : Calls env fuel (next a) d name x) :
    Calls env fuel (fun matchRule => do next (← m) matchRule) c name x

/-- Whether matching comes from one point to another, also into the rules that actions match. -/
inductive Enters (env : Surroundings) : Nat → Stage → Context → Nat → Stage → Context → Prop
  | visits {n m : Nat} {s s' : Stage} {c x : Context} (visit : Visits env n s c m s' x) :
    Enters env n s c m s' x
  | called {n m l : Nat} {s s' : Stage} {p : Pattern} {a : Action} {v : Values} {name : String} {id : RuleId}
    {c x y z : Context} {journal : Log.Journal} (visit : Visits env n s c m (.action p v) x)
    (action : p.action = some a)
    (calls : Calls env m (fun matchRule => Meaning.perform matchRule v a) { x with journal } name y)
    (known : env.grammar.ruleId? name = some id) (rest : Enters env m (.rule id) y l s' z) :
    Enters env n s c l s' z

section
variable {env : Surroundings} {n m : Nat} {s s' : Stage} {c x : Context} (wellBehaved : Meaning.WellBehaved env)
include wellBehaved

/-- The depth counts the levels, and where it has grown it is within the limit. -/
theorem Visits.depth (h : Visits env n s c m s' x) :
    x.depth + m = c.depth + n ∧ x.depth ≤ max c.depth Limits.parseDepth := by
  induction h with
  | here => exact ⟨rfl, Nat.le_max_left _ _⟩
  | rule shallow _ ih =>
    -- of all steps this is the one that goes deeper, and it takes a level
    dsimp only at ih
    omega
  | chosen choice _ ih =>
    obtain ⟨⟨journal, rfl⟩, -⟩ := exists_of_run_choose choice
    exact ih
  | @again n m id p s c y z x v _ choice matched _ ih =>
    have pattern : y.Advances z :=
      (fares_matchPattern (wellBehaved.fares n) (fares_matchRule wellBehaved n) p y).advances_of_run matched
    obtain ⟨⟨journal, rfl⟩, -⟩ := exists_of_run_choose choice
    rwa [pattern.depth] at ih
  | symbols _ ih => exact ih
  | @acting n m p items s c y x matched _ ih =>
    have read : c.Advances y :=
      (fares_matchSymbols (fares_matchRule wellBehaved n) p.symbols c).advances_of_run matched
    rwa [read.depth] at ih
  | reference _ ih => exact ih
  | @behind n m first symbols item s c y x matched _ ih =>
    have read : c.Advances y :=
      (fares_matchSymbol (fares_matchRule wellBehaved n) first c).advances_of_run matched
    rwa [read.depth] at ih

/-- Where an action has a rule matched, rules are nested as deeply as where the action began. -/
theorem Calls.depth {act : (RuleId → Matcher (Option Value)) → Matcher (Option Value)} {name : String}
    (h : Calls env n act c name x) : x.depth = c.depth := by
  induction h with
  | here => rfl
  | answered run _ ih =>
    -- the rules that it has had matched before have come back to the depth, error or not
    have before := (fares_answer (fares_matchRule wellBehaved n) _ _).advances_of_run run
    rw [ih, before.depth]
  | behind _ advances _ ih => rw [ih, advances.depth]

/-- The depth counts the levels, too, where actions match rules. -/
theorem Enters.depth (h : Enters env n s c m s' x) :
    x.depth + m = c.depth + n ∧ x.depth ≤ max c.depth Limits.parseDepth := by
  induction h with
  | visits visit => exact visit.depth wellBehaved
  | called visit _ calls _ _ ih =>
    obtain ⟨levels, bounded⟩ := visit.depth wellBehaved
    have same := calls.depth wellBehaved
    dsimp only at same
    omega

end

/-! ## Ends -/

/-- Whether matching a rule goes on with no file, where it has the fuel that it needs. -/
def IncludesNothing (env : Surroundings) (id : RuleId) (c : Context) : Prop :=
  (matchRule c.need id env c).2.tokens.included = c.tokens.included

instance (env : Surroundings) (id : RuleId) (c : Context) : Decidable (IncludesNothing env id c) :=
  inferInstanceAs (Decidable (_ = _))

/-- What is known of matching a rule from a state. -/
structure Orderly (env : Surroundings) (id : RuleId) (c : Context) : Prop where
  /-- It ends, and more fuel than it needs changes nothing. -/
  ends : ∃ outcome d, outcome ≠ .error .outOfFuel ∧
    ∀ fuel, c.need ≤ fuel → matchRule fuel id env c = (outcome, d)
  /-- It restores the depth, error or not. -/
  restores : ∀ fuel, (matchRule fuel id env c).2.depth = c.depth
  /-- The depth counts the rules that are being matched inside each other, and they are never more than
  the limit. -/
  nests : ∀ fuel m s x, Enters env fuel (.rule id) c m s x →
    x.depth + m = c.depth + fuel ∧ x.depth ≤ max c.depth Limits.parseDepth
  /-- Where the limit is met, for this rule or for one inside it, nothing is read. -/
  refuses : ∀ fuel m rule x, Enters env fuel (.rule id) c (m + 1) (.rule rule) x →
    Limits.parseDepth ≤ x.depth → matchRule (m + 1) rule env x =
      (.error (.error ⟨.maxParseDepth Limits.parseDepth, x.tokens.location⟩), x)
  /-- Wherever an alternative of a repeatable rule is chosen and matched, a token is read. -/
  repeats : ∀ fuel m rule x, Enters env fuel (.rule id) c m (.alternatives rule) x →
    (env.grammar.rule rule).repeatable = true → ∀ p d v e, choose rule env x = (.ok (some p), d) →
      matchPattern (matchRule m) p env d = (.ok v, e) → x.tokens.consumed < e.tokens.consumed

namespace Matcher

variable {env : Surroundings} {id : RuleId} {c : Context}

/-- Matching a rule that includes nothing does not run out of the fuel it needs. -/
theorem feeds_of_includesNothing (wellBehaved : Meaning.WellBehaved env) (h : IncludesNothing env id c) :
    (matchRule c.need id env c).1 ≠ .error .outOfFuel :=
  fun starved => (fares_matchRule wellBehaved c.need id c).starves (Nat.le_refl _) starved h

/-- Matching a rule that has not run out of fuel does nothing else with more of it. -/
theorem matchRule_of_le (wellBehaved : Meaning.WellBehaved env) {fuel more : Nat}
    (feeds : (matchRule fuel id env c).1 ≠ .error .outOfFuel) (le : fuel ≤ more) :
    matchRule more id env c = matchRule fuel id env c := by
  induction le with
  | refl => rfl
  | @step more _ ih =>
    rw [(fares_matchRule wellBehaved more id c).settled (by rw [ih]; exact feeds), ih]

/-- Matching a rule ends, restores the depth and is bounded, whatever the grammar and the text, and whatever
actions do, as long as they are well behaved and it includes nothing. -/
theorem orderly_of_wellBehaved (wellBehaved : Meaning.WellBehaved env) (h : IncludesNothing env id c) :
    Orderly env id c where
  ends := by
    have feeds := feeds_of_includesNothing wellBehaved h
    exact ⟨_, _, feeds, fun fuel enough => matchRule_of_le wellBehaved feeds enough⟩
  restores fuel := (fares_matchRule wellBehaved fuel id c).advances.depth
  nests fuel m s x entered := entered.depth wellBehaved
  refuses fuel m rule x entered deep := matchRule_tooDeep m rule deep
  repeats fuel m rule x entered _ p d v e choice matched := consumed_lt_of_chosen wellBehaved choice matched

end Matcher

end

/-! ## Grammars that nest by actions -/

namespace Matcher

/-- A grammar in which an opening bracket is followed by what the same rule matches, again and again. -/
def bracketGrammar : GrammarTable where
  rules := #[⟨"brackets",
    [⟨[.literal "("], some (.rule "brackets")⟩, ⟨[.literal ")"], none⟩], true, true⟩]

/-- Three brackets, before the first of them is read. -/
def bracketStart : Context :=
  .initial (.ofStream (plainStream [.mark .leftParen, .mark .leftParen, .mark .rightParen]) "b" none)
    .silent

/-- A grammar in which an opening bracket is followed by what an action makes of another rule. -/
def closingGrammar : GrammarTable where
  rules := #[⟨"opening", [⟨[.literal "("], some (.rule "closing")⟩], true, true⟩,
    ⟨"closing", [⟨[.tokenClass .id, .literal ")"], none⟩], false, false⟩]

/-- An opening bracket and two names, of which only the second one has its bracket closed. -/
def closingStart : Context :=
  .initial (.ofStream (plainStream [.mark .leftParen, .id "a", .id "b", .mark .rightParen]) "c" none)
    .silent

/-- A meaning of actions by which a rule is matched twice, whatever comes of it the first time. -/
@[reducible] def twiceMeaning : Meaning where
  perform matchRule _
    | .rule name => do
      let _ ← answer matchRule name
      give (← answer matchRule name)
    | _ => return none

/-- What matches a rule twice is well behaved. -/
theorem wellBehaved_twiceMeaning (env : Surroundings) : @Meaning.WellBehaved twiceMeaning env := by
  intro a v c
  cases a with
  | rule name =>
    show @WellBehaved twiceMeaning env (fun matchRule => do
      let _ ← answer matchRule name
      give (← answer matchRule name)) c
    -- behind the second answer it gives what it has been told
    refine @WellBehaved.asks twiceMeaning _ _ _ _ fun _ _ d _ =>
      @WellBehaved.asks twiceMeaning _ _ _ _ fun _ r e _ => @WellBehaved.alone twiceMeaning _ _ _ ?_ ?_
    · cases r <;> simp [give]
    · cases r <;> exact .refl e
  | _ => exact @WellBehaved.alone twiceMeaning env (pure none) c (by simp) (.refl c)

/-- Matching brackets is orderly, and so is matching what is tried twice. -/
theorem orderly_bracketGrammar :
    (IncludesNothing ⟨bracketGrammar, .empty, .default⟩ ⟨0⟩ bracketStart ∧
      Orderly ⟨bracketGrammar, .empty, .default⟩ ⟨0⟩ bracketStart) ∧
    @Meaning.WellBehaved twiceMeaning ⟨closingGrammar, .empty, .default⟩ ∧
      @IncludesNothing twiceMeaning ⟨closingGrammar, .empty, .default⟩ ⟨0⟩ closingStart ∧
      @Orderly twiceMeaning ⟨closingGrammar, .empty, .default⟩ ⟨0⟩ closingStart := by
  have brackets : IncludesNothing ⟨bracketGrammar, .empty, .default⟩ ⟨0⟩ bracketStart := by
    decide +kernel
  have closing : @IncludesNothing twiceMeaning ⟨closingGrammar, .empty, .default⟩ ⟨0⟩ closingStart := by
    decide +kernel
  exact ⟨⟨brackets, orderly_of_wellBehaved (Action.wellBehaved _) brackets⟩,
    wellBehaved_twiceMeaning _, closing,
    @orderly_of_wellBehaved twiceMeaning _ _ _ (wellBehaved_twiceMeaning _) closing⟩

-- all three brackets are read, two of them by the action of the one before
example : (matchRule bracketStart.need ⟨0⟩ ⟨bracketGrammar, .empty, .default⟩
    bracketStart).2.tokens.consumed = 3 := by decide +kernel

-- the action reads all that is behind the bracket, although the rule ends with an error in between
example : (@matchRule twiceMeaning closingStart.need ⟨0⟩ ⟨closingGrammar, .empty, .default⟩
    closingStart).2.tokens.consumed = 4 := by decide +kernel

end Matcher

end Planfile
