import Planfile.Proofs.Matching.Choice
import Planfile.Proofs.Matching.Objection
import Planfile.Proofs.Source.Pasting

/-!
# Planfile — well behaved actions

While it is performed an action may match rules, and it may do so again and again, with what has come of
one telling it whether to match another. Then matching calls the action and the action calls matching, so
that one of them ends only if the other one does. What has to be known of an action for that is said
without knowing that matching ends: on its own it comes to its end, it leaves the depth alone, and it has
no way to match a rule but the one that tells it what has come of the rule, error or not. Behind each such
answer it has to come to its end as well.

Of the actions of plans only one matches a rule, and that one does nothing else. All others come to their
end whatever happens, error or not: they leave the depth alone, and they read no token. One of them
includes a file, which is then listed.

Main results:

* `Context.Advances.trans` — what holds of two parts of a run holds of the whole.
* `Action.spares_depth` — the depth is left alone, error or not.
* `Action.wellBehaved` — the actions of plans are well behaved.
-/

/-!
## How far matching has come

Matching reads tokens and lets rules nest, and it ends because it runs out of one or of the other. So
the fuel that is enough can be told from the state where it starts: the levels of nesting that are
left, and the tokens ahead. Only an include adds tokens to those ahead, and then its file is listed.

`Context.Advances` compares two states of a run.
-/

namespace Planfile

open Matcher

namespace Context

/-- The number of tokens ahead, in all files that are open. -/
def left (c : Context) : Nat := c.tokens.rest.length

/-- Fuel that is enough for matching a rule: what nests inside it uses it up one by one, and what is
repeated reads a token each time. -/
def need (c : Context) : Nat := (Limits.parseDepth - c.depth) + c.left + 2

/-- How far a run has come from one state to another: rules nest as deeply as before, and of the tokens
none has been lost or read twice, as long as no file is included. -/
structure Advances (c d : Context) : Prop where
  depth : d.depth = c.depth
  included : c.tokens.included <+: d.tokens.included
  consumed : c.tokens.consumed ≤ d.tokens.consumed
  account : d.tokens.included = c.tokens.included →
    d.tokens.consumed + d.left = c.tokens.consumed + c.left

namespace Advances

variable {c d e : Context}

/-- Where no token has been read, nothing has been lost. -/
theorem of_tokens (tokens : d.tokens = c.tokens) (depth : d.depth = c.depth) : c.Advances d where
  depth := depth
  included := tokens ▸ List.prefix_refl _
  consumed := Nat.le_of_eq (by rw [tokens])
  account _ := by rw [left, left, tokens]

theorem refl (c : Context) : c.Advances c := of_tokens rfl rfl

/-- If nothing has been included in the end, nothing has been on the way. -/
theorem included_eq (h : c.Advances d) (h' : d.Advances e)
    (none : e.tokens.included = c.tokens.included) :
    d.tokens.included = c.tokens.included ∧ e.tokens.included = d.tokens.included := by
  have longer := h'.included.length_le
  rw [none] at longer
  have same := h.included.eq_of_length (Nat.le_antisymm h.included.length_le longer)
  exact ⟨same.symm, none.trans same⟩

theorem trans (h : c.Advances d) (h' : d.Advances e) : c.Advances e where
  depth := h'.depth.trans h.depth
  included := h.included.trans h'.included
  consumed := Nat.le_trans h.consumed h'.consumed
  account none := by
    obtain ⟨first, second⟩ := h.included_eq h' none
    rw [h'.account second, h.account first]

/-- Where nothing has been included there are no more tokens ahead. -/
theorem left_le (h : c.Advances d) (none : d.tokens.included = c.tokens.included) :
    d.left ≤ c.left := by
  have account := h.account none
  have consumed := h.consumed
  omega

/-- Where nothing has been included no more fuel is needed. -/
theorem need_le (h : c.Advances d) (none : d.tokens.included = c.tokens.included) :
    d.need ≤ c.need := by
  have fewer := h.left_le none
  rw [need, need, h.depth]
  omega

/-- Where something has been read and nothing included, less fuel is needed. -/
theorem need_lt (h : c.Advances d) (none : d.tokens.included = c.tokens.included)
    (read : d.tokens.consumed ≠ c.tokens.consumed) : d.need < c.need := by
  have account := h.account none
  have consumed := h.consumed
  rw [need, need, h.depth]
  omega

/-- Reading a token takes one from those ahead. -/
theorem next (env : Surroundings) (h : c.tokens.peek.isEof = false) : c.Advances (c.next env) where
  depth := rfl
  included := List.prefix_refl _
  consumed := Nat.le_succ _
  account _ := by
    obtain ⟨token, -, advanced⟩ := advance_of_isEof h
    have counted : c.left = (c.next env).left + 1 := by
      rw [left, TokenSource.rest_of_advance advanced]
      rfl
    have read : (c.next env).tokens.consumed = c.tokens.consumed + 1 := rfl
    omega

end Advances

/-- A file that is gone on with is listed, behind those before. -/
theorem included_of_pushInclude? {c : Context} {env : Surroundings} {path : String}
    {tokens : TokenSource}
    (opened : c.tokens.pushInclude? env.preferences env.files path = .ok tokens) :
    ∃ canonical, tokens.included = c.tokens.included ++ [canonical] ∧
      tokens.consumed = c.tokens.consumed := by
  obtain ⟨f, opens, rfl⟩ := TokenSource.eq_of_pushInclude? opened
  obtain ⟨canonical, named, -⟩ := TokenSource.openPaths_of_openFile opens
  exact ⟨canonical, congrArg (fun path => c.tokens.included ++ Option.toList path) named, rfl⟩

/-- Going on with a file adds tokens to those ahead. -/
theorem Advances.include {c : Context} {env : Surroundings} {path : String} {tokens : TokenSource}
    (opened : c.tokens.pushInclude? env.preferences env.files path = .ok tokens)
    (journal : Log.Journal) : c.Advances { c with tokens, journal } := by
  obtain ⟨canonical, listed, same⟩ := included_of_pushInclude? opened
  refine ⟨rfl, listed ▸ List.prefix_append _ _, Nat.le_of_eq same.symm, fun none => ?_⟩
  have longer := congrArg List.length (listed.symm.trans none)
  simp at longer

end Context

/-! ## Actions in general -/

namespace Matcher

/-- Hands an error on as a value. Want of fuel is none. -/
def attempt (m : Matcher α) : Matcher (Except ParseError α) := fun env => ExceptT.mk fun c =>
  match m env c with
  | (.ok a, d) => (.ok (.ok a), d)
  | (.error (.error e), d) => (.ok (.error e), d)
  | (.error .outOfFuel, d) => (.error .outOfFuel, d)

/-- Being told of an error does not change the state that is left. -/
theorem snd_attempt (m : Matcher α) (env : Surroundings) (c : Context) :
    (attempt m env c).2 = (m env c).2 := by
  simp only [attempt, ExceptT.mk]
  rcases m env c with ⟨(e | _) | a, d⟩ <;> rfl

/-- Want of fuel is all that ends it early. -/
theorem fst_attempt_eq_outOfFuel_iff {m : Matcher α} {env : Surroundings} {c : Context} :
    (attempt m env c).1 = .error .outOfFuel ↔ (m env c).1 = .error .outOfFuel := by
  simp only [attempt, ExceptT.mk]
  rcases m env c with ⟨(e | _) | a, d⟩ <;> simp

/-- Matches the rule of a name for an action, which is told what has come of it. -/
def answer (matchRule : RuleId → Matcher (Option Value)) (name : String) :
    Matcher (Except ParseError (Option Value)) :=
  attempt do matchRule (← ruleId name)

/-- What has come of a rule, as if nobody had been told. -/
def give : Except ParseError (Option Value) → Matcher (Option Value)
  | .ok v => return v
  | .error e => throw (.error e)

/-- Who is told what has come of a rule, and gives just that, might as well have matched the rule. -/
theorem answer_bind_give (matchRule : RuleId → Matcher (Option Value)) (name : String) :
    (do give (← answer matchRule name)) = (do matchRule (← ruleId name)) := by
  funext env c
  rw [run_bind]
  simp only [answer, attempt, ExceptT.mk]
  rcases (do matchRule (← ruleId name) : Matcher (Option Value)) env c with ⟨(e | _) | v, d⟩ <;> rfl

end Matcher

/-- Whether a computation that is told how rules are matched comes to its end in a state, where rules are
matched for it through their names only. On its own it may read tokens and go on with files, but it leaves
the depth alone and does not run out of fuel. -/
inductive WellBehaved [Meaning] (env : Surroundings) :
    ((RuleId → Matcher (Option Value)) → Matcher (Option Value)) → Context → Prop
  /-- It comes to its end without a rule. -/
  | alone {m : Matcher (Option Value)} {c : Context} (fed : (m env c).1 ≠ .error .outOfFuel)
    (advances : c.Advances (m env c).2) : WellBehaved env (fun _ => m) c
  /-- It does something on its own, and goes on with what it has got. -/
  | behind {α : Type} {m : Matcher α}
    {next : α → (RuleId → Matcher (Option Value)) → Matcher (Option Value)} {c : Context}
    (fed : (m env c).1 ≠ .error .outOfFuel) (advances : c.Advances (m env c).2)
    (rest : ∀ a d, m env c = (.ok a, d) → WellBehaved env (next a) d) :
    WellBehaved env (fun matchRule => do next (← m) matchRule) c
  /-- It has a rule matched, and goes on whatever comes of the rule. -/
  | asks {name : String}
    {next : Except ParseError (Option Value) → (RuleId → Matcher (Option Value)) → Matcher (Option Value)}
    {c : Context}
    (rest : ∀ fuel r d, answer (matchRule fuel) name env c = (.ok r, d) → WellBehaved env (next r) d) :
    WellBehaved env (fun matchRule => do next (← answer matchRule name) matchRule) c

/-- Whether all actions are well behaved, on whatever values and in whatever state they are performed. -/
def Meaning.WellBehaved [Meaning] (env : Surroundings) : Prop :=
  ∀ a v c, Planfile.WellBehaved env (fun matchRule => Meaning.perform matchRule v a) c

/-! ## The actions of plans -/

/-- An action that does not match a rule does not depend on how rules are matched. -/
theorem Action.perform_eq {a : Action} (h : ∀ name, a ≠ .rule name)
    (matchRule other : RuleId → Matcher (Option Value)) (v : Values) :
    a.perform matchRule v = a.perform other v := by
  cases a with
  | rule name => exact absurd rfl (h name)
  | _ => rfl

/-! ## Depth -/

section
variable (v : Values)

theorem Matcher.spares_depth_applyExtension (e : AttributeExtension) :
    Spares Context.depth (applyExtension e) := by
  intro env c
  simp only [applyExtension, defineAttribute, leaves_bind, leaves_get, leaves_orFail, leaves_live,
    leaves_sound, leaves_ite, leaves_report, leaves_fail, leaves_project, leaves_read]
  refine ⟨fun _ => trivial, fun target _ => ⟨fun _ _ => trivial, fun taken _ => ?_⟩⟩
  split
  · trivial
  · refine ⟨fun _ => trivial, fun p _ => ?_⟩
    cases (p.properties target.kind).define? e.definition with
    | error e => simp
    | ok set => simp

/-- Whatever becomes of an action that does not match a rule, error or not, rules are nested as deeply as
before. -/
theorem Action.spares_depth {a : Action} (h : ∀ name, a ≠ .rule name)
    (matchRule : RuleId → Matcher (Option Value)) :
    Spares Context.depth (a.perform matchRule v) := by
  cases entry : a.makesEntry with
  | false => exact (a.spares_entriesAtDepth v entry matchRule).of_view fun _ _ same => congrArg Prod.snd same
  | true =>
    intro env c
    -- what makes entries does nothing about the depth either
    unfold makesEntry at entry
    split at entry
    · simp [perform, ProjectAction.perform]
    · simp only [perform, PropertyAction.perform, openProperty, leaves_bind, leaves_take, leaves_get,
        leaves_project]
      refine ⟨fun _ _ => trivial, fun id _ => ⟨fun _ _ => trivial, fun name _ =>
        ⟨fun _ => trivial, fun p _ => ?_⟩⟩⟩
      split <;> simp [leaveScenario]
    · exact rfl
    · simp [perform, ReportAction.perform, openReport]
    · simp [perform, ExtendAction.perform, chooseTarget]
    · exact rfl
    · simp only [perform, ExtendAction.perform, declareAttribute, leaves_bind, leaves_take, leaves_pure]
      exact ⟨fun _ _ => trivial, fun id _ => ⟨fun _ _ => trivial, fun name _ =>
        spares_depth_applyExtension _ env c⟩⟩
    · next name => exact absurd rfl (h name)
    · cases entry

variable {v}
variable {matchRule : RuleId → Matcher (Option Value)} {env : Surroundings} {c d : Context}

/-- An action that matches no rule and includes no file reads no token. -/
theorem Action.ends_tokens {a : Action} (h : ∀ name, a ≠ .rule name) (h' : ∀ i, a ≠ .includeFile i) :
    Ends (fun _ d => d.tokens = c.tokens) (a.perform matchRule v) env c := by
  by_cases selfContained : a.isSelfContained = true
  · exact (a.keeps_matchingState v selfContained matchRule env c).weaken fun _ d same =>
      congrArg MatchingState.tokens same
  · -- all that is left is adding an attribute
    cases a with
    | extend a =>
      cases a with
      | declare kind =>
        simp only [perform, ExtendAction.perform, declareAttribute, ends_bind, ends_take, ends_pure]
        intro id _ name _
        exact ends_applyExtension _ fun target p set symbols journal _ _ _ _ _ => rfl
      | _ => exact absurd rfl selfContained
    | rule name => exact absurd rfl (h name)
    | includeFile i => exact absurd rfl (h' i)
    | _ => exact absurd rfl selfContained

/-- Why an action ends early that matches no rule: it is no want of fuel, and no token has been read. -/
theorem Action.of_run_error {a : Action} (h : ∀ name, a ≠ .rule name) {stop : Stop}
    (run : a.perform matchRule v env c = (.error stop, d)) :
    stop ≠ .outOfFuel ∧ d.tokens = c.tokens := by
  have objects := (a.objects v env c h matchRule).of_error run
  refine ⟨?_, objects.tokens⟩
  rintro rfl
  exact objects

/-- How far the state has come behind an action that matches no rule. -/
theorem Action.advances {a : Action} (h : ∀ name, a ≠ .rule name) :
    c.Advances (a.perform matchRule v env c).2 := by
  have depth : (a.perform matchRule v env c).2.depth = c.depth := (a.spares_depth v h matchRule).eq env c
  -- either an error has come up, or a file has been included, or the tokens are those of before
  cases run : a.perform matchRule v env c with
  | mk outcome d =>
  rw [run] at depth
  cases outcome with
  | error stop => exact .of_tokens (Action.of_run_error h run).2 depth
  | ok x =>
    by_cases includes : ∃ i, a = .includeFile i
    · obtain ⟨i, rfl⟩ := includes
      obtain ⟨-, path, tokens, journal, -, rfl, opened⟩ := Action.eq_of_run_includeFile v run
      exact .include opened journal
    · have plain : ∀ i, a ≠ .includeFile i := fun i same => includes ⟨i, same⟩
      exact .of_tokens ((Action.ends_tokens h plain).of_ok run) depth

end

/-- The actions of plans are well behaved. -/
theorem Action.wellBehaved (env : Surroundings) : Meaning.WellBehaved env := by
  intro a v c
  by_cases calls : ∃ name, a = .rule name
  · obtain ⟨name, rfl⟩ := calls
    -- what comes of the rule is all that comes of the action
    have passesOn : (fun matchRule => Meaning.perform matchRule v (.rule name)) =
        (fun matchRule => do give (← answer matchRule name)) :=
      funext fun matchRule => (answer_bind_give matchRule name).symm
    rw [passesOn]
    refine .asks fun fuel r d _ => .alone ?_ ?_
    · cases r <;> simp [give]
    · cases r <;> exact .refl d
  · have other : ∀ name, a ≠ .rule name := fun name same => calls ⟨name, same⟩
    have alone : (fun matchRule => Meaning.perform matchRule v a) =
        fun _ => a.perform (fun _ => pure none) v :=
      funext fun matchRule => Action.perform_eq other matchRule _ v
    rw [alone]
    refine .alone (fun starved => ?_) (Action.advances other)
    exact (Action.of_run_error other (Prod.ext starved rfl)).1 rfl

end Planfile
