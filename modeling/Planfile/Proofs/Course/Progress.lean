import Planfile.Proofs.Course.Invariant
import Planfile.Proofs.Course.Visit
import Planfile.Proofs.Source.IncludeStack

/-!
# Planfile — how tokens are used up

While a plan is read, its tokens change in two ways only: symbols read the next one, and an action goes on
with a file. An action that ends early takes none. And no action comes first: the alternative that it
belongs to has been chosen by a token, and has read it.

Main results:

* `stateInvariant_reaches` — wherever reading gets, the tokens ahead are such as can be reached.
* `Visits.hasRead` — where an action is performed a token has been read.
* `Visits.of_seek` — matching comes to what has been found.
-/

namespace Planfile

open Matcher

section
variable {a : Action} {v : Values} {matchRule : RuleId → Matcher (Option Value)} {env : Surroundings}
  {c d : Context} {o : Option Value}

/-- An action that neither goes on with a file nor matches a rule leaves the tokens alone. -/
theorem Action.tokens_eq_of_run (file : ∀ i, a ≠ .includeFile i) (rule : ∀ name, a ≠ .rule name)
    (run : a.perform matchRule v env c = (.ok o, d)) : d.tokens = c.tokens := by
  by_cases contained : a.isSelfContained = true
  · exact congrArg MatchingState.tokens ((a.keeps_matchingState v contained matchRule env c).of_ok run)
  cases a with
  | rule name => exact absurd rfl (rule name)
  | includeFile i => exact absurd rfl (file i)
  | extend a =>
    cases a with
    | declare kind =>
      have keeps : Keeps Context.tokens (ExtendAction.perform v (.declare kind)) := by
        intro env c
        simp only [ExtendAction.perform, declareAttribute, ends_bind, ends_take, ends_pure]
        exact fun id _ name _ => ends_applyExtension _ fun _ _ _ _ _ _ _ _ _ _ => rfl
      exact (keeps env c).of_ok run
    | _ => exact absurd rfl contained
  | _ => exact absurd rfl contained

/-- An action that has come to its end has left the tokens alone, or it has gone on with a file. -/
theorem Action.tokens_of_run (h : ∀ name, a ≠ .rule name) (run : a.perform matchRule v env c = (.ok o, d)) :
    d.tokens = c.tokens ∨
      ∃ path, c.tokens.pushInclude? env.preferences env.files path = .ok d.tokens := by
  by_cases file : ∃ i, a = .includeFile i
  · obtain ⟨i, rfl⟩ := file
    obtain ⟨-, path, tokens, journal, -, rfl, opened⟩ := Action.eq_of_run_includeFile v run
    exact .inr ⟨path, opened⟩
  · exact .inl (Action.tokens_eq_of_run (fun i same => file ⟨i, same⟩) h run)

end

/-- Wherever reading gets, the tokens ahead are such as can be reached from those at the start. -/
theorem stateInvariant_reaches (ofRule : RuleId → Shape) (effects : Effects) (env : Surroundings)
    (start : TokenSource) :
    StateInvariant ofRule effects env fun c => start.Reaches env.preferences env.files c.tokens where
  noise _ _ _ _ h := h
  next c notEof h := by
    obtain ⟨token, -, read⟩ := advance_of_isEof notEof
    exact h.advance read
  performed matchRule p v c prepared h := by
    cases run : performed matchRule p v.location v.items env c with
    | mk outcome d =>
      cases outcome with
      | error stop =>
        obtain ⟨a, -, objects⟩ := prepared.objects run
        rwa [objects.tokens]
      | ok o =>
        rcases cases_of_run_performed run with ⟨-, -, rfl⟩ | ⟨a, journal, action, acted⟩
        · exact h
        · rcases Action.tokens_of_run (prepared.allows a action).ne_rule acted with kept | ⟨path, opened⟩
          · rwa [kept]
          · exact h.goOn opened

/-! ## Reading comes first -/

/-- Whether a token has been read where it is needed: behind the symbols of an alternative. An alternative
that has been chosen accepts the next token. -/
def Stage.HasRead (t : GrammarTable) (c : Context) : Stage → Prop
  | .action _ _ => 0 < c.tokens.consumed
  | .pattern p => (LiveGrammar.mk t c.extensions).patternAccepts c.tokens.peek p = .ok true
  | _ => True

/-- Where an action is performed a token has been read. -/
theorem Visits.hasRead {ofRule : RuleId → Shape} {effects : Effects} {env : Surroundings}
    (ht : env.grammar.Charted ofRule effects) {n m : Nat} {s s' : Stage} {c x : Context}
    (visit : Visits env n s c m s' x) (hc : c.Grounded env.grammar effects)
    (hs : s.Stands env.grammar ofRule effects c) (h : s.HasRead env.grammar c) :
    s'.HasRead env.grammar x := by
  induction visit with
  | here => exact h
  | @rule n m id s c x shallow rest ih =>
    have into : Visits env (n + 1) (.rule id) c n (.alternatives id) _ := .rule shallow .here
    obtain ⟨grounded, stands⟩ := into.stands ht hc hs
    exact ih grounded stands trivial
  | @chosen n m id p s c y x choice rest ih =>
    have into : Visits env n (.alternatives id) c n (.pattern p) y := .chosen choice .here
    obtain ⟨grounded, stands⟩ := into.stands ht hc hs
    -- what has been chosen is a candidate for the next token
    obtain ⟨_, journal, found, accepts⟩ := exists_of_choose ht.typed.extensible rfl hc.sound id
    rw [choice] at found
    cases found
    exact ih grounded stands (accepts p rfl).2
  | again repeatable choice matched _ ih =>
    obtain ⟨grounded, stands⟩ := Visits.stands ht (.again repeatable choice matched .here) hc hs
    exact ih grounded stands trivial
  | @symbols n m p s c x rest ih =>
    have into : Visits env n (.pattern p) c n (.symbols p.symbols) c := .symbols .here
    exact ih hc (into.stands ht hc hs).2 trivial
  | @acting n m p items s c y x matched _ ih =>
    obtain ⟨grounded, stands⟩ := Visits.stands ht (.acting matched .here) hc hs
    have takes := takesNext_matchSymbols
      (fun _ _ starts => takesNext_matchRule (Action.wellBehaved env) starts n) (Action.wellBehaved env) h
    have strict := takes.of_ok matched
    exact ih grounded stands (Nat.zero_lt_of_lt strict)
  | @reference n m id symbols s c x rest ih =>
    have into : Visits env n (.symbols (.rule id :: symbols)) c n (.rule id) c := .reference .here
    exact ih hc (into.stands ht hc hs).2 trivial
  | behind matched _ ih =>
    obtain ⟨grounded, stands⟩ := Visits.stands ht (.behind matched .here) hc hs
    exact ih grounded stands trivial

end Planfile

/-!
## Finding a point on the way through a plan

For a given plan it can be computed where matching comes: its parts are matched one after the other, and at
each rule it is seen whether this is the point that is looked for. The search is bounded by a number of
steps, which is apart from the fuel of the matcher.
-/

namespace Planfile

open Matcher

section
variable (env : Surroundings) (wanted : RuleId → Context → Bool)

/-- The first point from some other one on where a rule that is wanted is matched, with the fuel that is left
there. -/
def seek : Nat → Nat → Stage → Context → Option (Nat × RuleId × Context)
  | 0, _, _, _ => none
  | steps + 1, n, .rule id, c =>
    if wanted id c then some (n, id, c)
    else
      match n with
      | 0 => none
      | n + 1 =>
        if c.depth < Limits.parseDepth then seek steps n (.alternatives id) { c with depth := c.depth + 1 }
        else none
  | steps + 1, n, .alternatives id, c =>
    match choose id env c with
    | (.ok (some p), y) =>
      -- it is inside of the alternative, or of one that comes behind it
      (seek steps n (.pattern p) y).or <|
        if (env.grammar.rule id).repeatable then
          match matchPattern (matchRule n) p env y with
          | (.ok _, z) => seek steps n (.alternatives id) z
          | _ => none
        else none
    | _ => none
  | steps + 1, n, .pattern p, c => seek steps n (.symbols p.symbols) c
  | _ + 1, _, .symbols [], _ => none
  | steps + 1, n, .symbols (first :: rest), c =>
    let inside := match first with
      | .rule id => seek steps n (.rule id) c
      | _ => none
    inside.or <|
      match matchSymbol (matchRule n) first env c with
      | (.ok _, y) => seek steps n (.symbols rest) y
      | _ => none
  | _ + 1, _, .action _ _, _ => none

end

variable {env : Surroundings} {wanted : RuleId → Context → Bool}

/-- Matching comes to what has been found. -/
theorem Visits.of_seek {steps n m : Nat} {s : Stage} {c x : Context} {id : RuleId}
    (found : seek env wanted steps n s c = some (m, id, x)) :
    Visits env n s c m (.rule id) x ∧ wanted id x = true := by
  -- by induction on the steps of the search
  induction steps generalizing n s c with
  | zero => cases found
  | succ steps ih =>
    cases s with
    | rule other =>
      rw [seek.eq_def] at found
      dsimp only at found
      split at found
      · next here =>
        cases found
        exact ⟨.here, here⟩
      · cases n with
        | zero => cases found
        | succ n =>
          dsimp only at found
          split at found
          · next shallow => exact (ih found).imp_left (.rule shallow)
          · cases found
    | alternatives other =>
      rw [seek] at found
      split at found
      · next p y choice =>
        rcases Option.or_eq_some_iff.mp found with inside | ⟨-, behind⟩
        · exact (ih inside).imp_left (.chosen choice)
        · split at behind
          · next repeatable =>
            split at behind
            · next v z matched => exact (ih behind).imp_left (.again repeatable choice matched)
            · cases behind
          · cases behind
      · cases found
    | pattern p => exact (ih found).imp_left .symbols
    | symbols symbols =>
      cases symbols with
      | nil => cases found
      | cons first rest =>
        rw [seek.eq_def] at found
        rcases Option.or_eq_some_iff.mp found with inside | ⟨-, behind⟩
        · cases first with
          | rule other => exact (ih inside).imp_left .reference
          | literal _ | tokenClass _ => cases inside
        · split at behind
          · next item y matched => exact (ih behind).imp_left (.behind matched)
          · cases behind
    | action p v => cases found

end Planfile
