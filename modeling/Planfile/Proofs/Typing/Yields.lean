import Planfile.Proofs.Matching.Extension
import Planfile.Proofs.Matching.Reading

/-!
# Planfile — what computations give

A fault in a plan is one of the plan, or else it shows that the grammar is defective: a value is of
the wrong kind, a rule is missing, nothing is read. `Matcher.Yields` says that a computation never
ends with a fault of the latter sort, that it gives what is asked of it, and that the state it leaves
is sound and has not gone back. Computations that do so can be put together.

Main results:

* `Matcher.Yields.bind` — computations one after the other.
* `Matcher.yields_modify` — a change that leaves tokens and grammar alone.
-/

namespace Planfile

/-- Whether a fault says that a value is not what the grammar makes of it. -/
def SemanticFault.blamesGrammar : SemanticFault → Bool
  | .intervalEndExpected _ | .weekDaysExpected _ | .operandExpected _ | .operatorExpected _
  | .unknownOperator _ | .unknownReportType _ => true
  | _ => false

/-- Whether a fault is one of the grammar and not of the plan. -/
def ParseFault.blamesGrammar : ParseFault → Bool
  | .grammar _ => true
  | .semantic fault => fault.blamesGrammar
  | _ => false

/-- Whether a computation has ended for a defect of the grammar. -/
def Stop.blamesGrammar : Stop → Bool
  | .error e => e.fault.blamesGrammar
  | .outOfFuel => false

namespace Matcher

/-- Whether what comes of a computation is that it has ended for a defect of the grammar. -/
def blamesGrammar : Except Stop α → Bool
  | .error stop => stop.blamesGrammar
  | .ok _ => false

/-- Whether a computation over a table never ends for a defect of the grammar, gives what is asked,
and leaves a sound state in which nothing that has been read is ahead again. -/
def Yields (t : GrammarTable) (resource : α → Prop) (m : Matcher α) : Prop :=
  ∀ env c, env.grammar = t → c.Sound t →
    match m env c with
    | (.ok a, d) => resource a ∧ d.Sound t ∧ c.tokens.consumed ≤ d.tokens.consumed
    | (.error stop, _) => stop.blamesGrammar = false

section
variable {t : GrammarTable}

/-- What a computation has given. -/
theorem Yields.of_ok {resource : α → Prop} {m : Matcher α} (hm : Yields t resource m) {env : Surroundings}
    {c d : Context} (he : env.grammar = t) (hc : c.Sound t) {a : α} (h : m env c = (.ok a, d)) :
    resource a ∧ d.Sound t ∧ c.tokens.consumed ≤ d.tokens.consumed := by
  have result := hm env c he hc
  rwa [h] at result

/-- Why a computation has ended early. -/
theorem Yields.of_error {resource : α → Prop} {m : Matcher α} (hm : Yields t resource m)
    {env : Surroundings} {c d : Context} (he : env.grammar = t) (hc : c.Sound t) {stop : Stop}
    (h : m env c = (.error stop, d)) : stop.blamesGrammar = false := by
  have result := hm env c he hc
  rwa [h] at result

/-! ## Putting computations together -/

theorem yields_pure {resource : α → Prop} {a : α} (h : resource a) :
    Yields t resource (pure a : Matcher α) :=
  fun _ _ _ hc => ⟨h, hc, Nat.le_refl _⟩

/-- Computations one after the other. -/
theorem Yields.bind {mid : α → Prop} {resource : β → Prop} {m : Matcher α} {f : α → Matcher β}
    (hm : Yields t mid m) (hf : ∀ a, mid a → Yields t resource (f a)) : Yields t resource (m >>= f) := by
  intro env c ht hc
  -- the second computation starts in the state that the first one has left, and it is sound
  have first := hm env c ht hc
  rw [run_bind]
  cases hr : m env c with
  | mk outcome d =>
    rw [hr] at first
    cases outcome with
    | error stop => exact first
    | ok a =>
      obtain ⟨ha, hd, forward⟩ := first
      have second := hf a ha env d ht hd
      dsimp only
      cases hs : f a env d with
      | mk outcome e =>
        rw [hs] at second
        cases outcome with
        | error stop => exact second
        | ok b => exact ⟨second.1, second.2.1, Nat.le_trans forward second.2.2⟩

theorem Yields.andThen {resource : β → Prop} {m : Matcher α} {f : α → Matcher β}
    (hm : Yields t (fun _ => True) m) (hf : ∀ a, Yields t resource (f a)) : Yields t resource (m >>= f) :=
  hm.bind fun a _ => hf a

/-- What is asked may be less. -/
theorem Yields.weaken {strong weak : α → Prop} {m : Matcher α} (h : ∀ a, strong a → weak a)
    (hm : Yields t strong m) : Yields t weak m := by
  intro env c ht hc
  have result := hm env c ht hc
  cases hr : m env c with
  | mk outcome d =>
    rw [hr] at result
    cases outcome with
    | error stop => exact result
    | ok a => exact ⟨h a result.1, result.2⟩

/-- What a computation gives is passed on changed. -/
theorem Yields.map {mid : α → Prop} {resource : β → Prop} {m : Matcher α} {f : α → β}
    (hm : Yields t mid m) (hf : ∀ a, mid a → resource (f a)) : Yields t resource (f <$> m) := by
  rw [← bind_pure_comp]
  exact hm.bind fun a ha => yields_pure (hf a ha)

theorem yields_get {resource : β → Prop} {f : Context → Matcher β}
    (h : ∀ c, c.Sound t → Yields t resource (f c)) : Yields t resource (get >>= f) := by
  intro env c ht hc
  rw [run_bind]
  exact h c hc env c ht hc

theorem yields_read {resource : β → Prop} {f : Surroundings → Matcher β}
    (h : ∀ env : Surroundings, env.grammar = t → Yields t resource (f env)) :
    Yields t resource (read >>= f) := by
  intro env c ht hc
  rw [run_bind]
  exact h env ht env c ht hc

/-- A change that leaves the tokens and the grammar alone. -/
theorem yields_modify {f : Context → Context} (extensions : ∀ c, (f c).extensions = c.extensions)
    (target : ∀ c, (f c).extendTarget = c.extendTarget) (tokens : ∀ c, (f c).tokens = c.tokens) :
    Yields t (fun _ => True) (modify f : Matcher Unit) := by
  intro env c ht hc
  refine ⟨trivial, ⟨?_, ?_⟩, ?_⟩
  · rw [extensions c]
    exact hc.extensions
  · rw [target c]
    exact hc.target
  · show c.tokens.consumed ≤ (f c).tokens.consumed
    have same := congrArg TokenSource.consumed (tokens c)
    omega

/-- What follows a change that leaves the tokens and the grammar alone. -/
theorem yields_change {f : Context → Context} {g : Unit → Matcher β} {resource : β → Prop}
    (hg : Yields t resource (g ())) (extensions : ∀ c, (f c).extensions = c.extensions)
    (target : ∀ c, (f c).extendTarget = c.extendTarget) (tokens : ∀ c, (f c).tokens = c.tokens) :
    Yields t resource ((modify f : Matcher Unit) >>= g) :=
  (yields_modify extensions target tokens).andThen fun _ => hg

/-! ## Ending early -/

theorem yields_failAt {resource : α → Prop} {fault : ParseFault} (h : fault.blamesGrammar = false)
    (location : Location) : Yields t resource (failAt location fault) :=
  fun _ _ _ _ => h

theorem yields_failNext {resource : α → Prop} {fault : ParseFault} (h : fault.blamesGrammar = false) :
    Yields t resource (failNext fault) :=
  yields_get fun c _ => yields_failAt h c.tokens.location

theorem yields_fail {resource : α → Prop} {fault : SemanticFault} (h : fault.blamesGrammar = false) :
    Yields t resource (fail fault) :=
  yields_get fun c _ =>
    yields_failAt (show (ParseFault.semantic fault).blamesGrammar = false from h)
      c.tokens.lastLocation

/-- A value that may be missing for a fault of the plan. -/
theorem yields_orFail {resource : α → Prop} {a : Option α} {fault : SemanticFault}
    (h : fault.blamesGrammar = false) (ha : ∀ x, a = some x → resource x) :
    Yields t resource (orFail a fault) := by
  cases a with
  | none => exact yields_fail h
  | some x => exact yields_pure (ha x rfl)

theorem yields_present {a : Option α} {fault : SemanticFault} (h : fault.blamesGrammar = false) :
    Yields t (fun _ => True) (orFail a fault) :=
  yields_orFail h fun _ _ => trivial

/-- What follows a value of the kind that it is taken for. -/
theorem yields_take {v : Values} {x : Except GrammarError α} {a : α} {f : α → Matcher β}
    {resource : β → Prop} (h : x = .ok a) (hf : Yields t resource (f a)) :
    Yields t resource (take v x >>= f) := by
  subst h
  intro env c ht hc
  rw [run_bind]
  exact hf env c ht hc

theorem yields_take_map {v : Values} {x : Except GrammarError α} {a : α} {f : α → β}
    {resource : β → Prop} (h : x = .ok a) (hf : resource (f a)) :
    Yields t resource (f <$> take v x) := by
  rw [← bind_pure_comp]
  exact yields_take h (yields_pure hf)

/-- Reporting an event changes only the journal. -/
theorem yields_report (event : Log.Event) : Yields t (fun _ => True) (report event) :=
  yields_modify (fun _ => rfl) (fun _ => rfl) (fun _ => rfl)

theorem yields_return {a : α} : Yields t (fun _ => True) (pure a : Matcher α) := yields_pure trivial

end

end Matcher

end Planfile
