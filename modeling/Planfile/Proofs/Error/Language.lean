import Planfile.Proofs.Course.Language
import Planfile.Proofs.Course.Origin
import Planfile.Proofs.Course.Progress
import Planfile.Proofs.Source.Place

/-!
# Planfile — errors point at tokens

Whatever is wrong with a plan, the error is at the start of a token, in the main file or in one that has
been included. Where a token is not the one that is expected, the error is at this token, which is the first
one that has not been read, and says what stands there.

Main results:

* `Breaks.isAt` — where reading breaks off is at the next token, or at the last one.
* `Breaks.placeIn` — which of the two it is, the fault says.
* `ParseError.IsAt.points` — such an error points at a token.
* `Language.points_of_plan` — a plan that ends early does so at a token.
* `Language.placeIn_of_plan` — which token it is, the fault says.
* `Session.exists_points_of_process` — an error in a plan that a session processes points at a token.
-/

/-!
## Where an error is

An error is at the first token that has not been read, or at the one that was read last. A fault that names
the token that it has found is always at the next one. Where reading breaks off, both tokens are known from
the state, and both stand in a file that has been taken up.
-/

namespace Planfile

open Matcher

/-- Where a fault is, by the tokens to which reading has come: what is about the next token is there, and
what is objected to is at the token that was read last. -/
def ParseFault.placeIn (f : ParseFault) (s : TokenSource) : Location :=
  match f with
  | .unexpectedToken _ _ | .unknownAttribute _ _ | .ruleExpected _ _ | .tokenMismatch _ _
  | .maxParseDepth _ => s.location
  | _ => s.lastLocation

namespace ParseError

/-- Whether an error is at the next token, with what has been found there, or at the one that was read
last. -/
def IsAt (e : ParseError) (s : TokenSource) : Prop :=
  e.location = s.location ∧ (∀ text, e.fault.found? = some text → text = s.peek.text) ∨
    e.fault.found? = none ∧ 0 < s.consumed ∧ e.location = s.lastLocation

/-- Whether an error points at a token, where the reading of a plan has come to some tokens: it is at the
start of a token that the grammar sees, in the main file or in one that has been included. What has been
found is the first token that has not been read, and that is where the error is. -/
structure Points (p : Settings.Preferences) (fs : File.System) (start : TokenSource) (e : ParseError)
    (s : TokenSource) : Prop where
  reached : start.Reaches p fs s
  starts : TokenSource.StartsAt p fs start s.included e.location
  next : ∀ text, e.fault.found? = some text → ∃ t, s.peekSpanned = some t ∧
    e.location = .ofPosition s.top.file t.span.start ∧ text = t.token.text

/-- An error at one of the two tokens points at it. -/
theorem IsAt.points {p : Settings.Preferences} {fs : File.System} {start s : TokenSource} {e : ParseError}
    (h : e.IsAt s) (hs : TokenSource.Anchored p fs start start) (reached : start.Reaches p fs s) :
    e.Points p fs start s := by
  have anchored := TokenSource.anchored_of_reaches hs reached
  obtain ⟨t, next, place, starts⟩ := anchored.exists_next
  rcases h with ⟨here, found⟩ | ⟨none, read, last⟩
  · refine ⟨reached, here ▸ starts, fun text ht => ⟨t, next, here.trans place, ?_⟩⟩
    rw [found text ht, TokenSource.peek, next]
    rfl
  · refine ⟨reached, last ▸ anchored.last.resolve_left (Nat.ne_of_gt read), fun text ht => ?_⟩
    rw [none] at ht
    cases ht

end ParseError

section
variable {env : Surroundings} {c d : Context}

/-- What an attribute that is not known is called is what stands there. -/
theorem Matcher.text_of_unknownAttribute {g : GrammarTable} {fault : ParseFault}
    (h : unknownAttribute? g c = some fault) : fault.found? = some c.tokens.peek.text := by
  unfold unknownAttribute? at h
  split at h
  · next keyword stop next _ =>
    split at h
    · cases h
      rw [next]
      rfl
    · cases h
  · cases h

/-- A token that does not fit is what has been found. -/
theorem ParseError.isAt_of_unfit (g : GrammarTable) {fault : ParseFault}
    (h : fault.found? = some c.tokens.peek.text) :
    ParseError.IsAt ⟨(unknownAttribute? g c).getD fault, c.tokens.location⟩ c.tokens := by
  refine .inl ⟨rfl, fun text found => ?_⟩
  cases unknown : unknownAttribute? g c with
  | none =>
    rw [unknown, Option.getD_none, h] at found
    exact (Option.some.inj found).symm
  | some other =>
    rw [unknown, Option.getD_some, text_of_unknownAttribute unknown] at found
    exact (Option.some.inj found).symm

/-- Where an action objects, it does so at the token that was read last. -/
theorem Context.Objects.isAt {misses : SemanticFault → Prop} {e : ParseError}
    (h : c.Objects misses (.error e) d) (read : 0 < c.tokens.consumed)
    (sound : ParseFault.blamesGrammar e.fault = false) : e.IsAt d.tokens := by
  have kept := h.tokens
  obtain ⟨fault, l⟩ := e
  unfold Objects at h
  split at h
  · next same =>
    cases same
    exact .inr ⟨rfl, kept ▸ read, kept ▸ h.2.1⟩
  · next same =>
    cases same
    exact .inr ⟨rfl, kept ▸ read, kept ▸ h.1⟩
  · next same =>
    cases same
    exact .inr ⟨rfl, kept ▸ read, kept ▸ h.1⟩
  · next same =>
    cases same
    cases sound
  · cases h

/-- Where reading breaks off, it does so at the next token or at the last one, unless the grammar is to
blame. -/
theorem Breaks.isAt {ofRule : RuleId → Shape} {effects : Effects} {n : Nat} {s : Stage} {e : ParseError}
    (h : Breaks env n s c (.error e) d) (stands : s.Stands env.grammar ofRule effects c)
    (read : s.HasRead env.grammar c) (sound : ParseFault.blamesGrammar e.fault = false) :
    e.IsAt d.tokens := by
  cases h with
  | deep => exact .inl ⟨rfl, fun text found => by cases found⟩
  | required choice =>
    obtain ⟨⟨journal, rfl⟩, -⟩ := exists_of_run_choose choice
    exact .inl ⟨rfl, fun text found => (Option.some.inj found).symm⟩
  | @unfit _ a _ _ hs refused =>
    refine ParseError.isAt_of_unfit env.grammar ?_
    cases a <;> rfl
  | @acting p v _ _ _ run =>
    obtain ⟨a, -, objects⟩ := Prepared.objects stands run
    exact objects.isAt read sound
  | defect => cases sound

/-- A token that does not fit is the next one, whatever it is called. -/
theorem ParseFault.placeIn_unfit (g : GrammarTable) {fault : ParseFault}
    (h : ∀ s, fault.placeIn s = s.location) :
    ((unknownAttribute? g c).getD fault).placeIn c.tokens = c.tokens.location := by
  cases unknown : unknownAttribute? g c with
  | none => exact h c.tokens
  | some other =>
    unfold unknownAttribute? at unknown
    split at unknown
    · split at unknown
      · cases unknown
        rfl
      · cases unknown
    · cases unknown

/-- An action objects at the token that was read last. -/
theorem Context.Objects.placeIn {misses : SemanticFault → Prop} {e : ParseError}
    (h : c.Objects misses (.error e) d) (sound : ParseFault.blamesGrammar e.fault = false) :
    e.location = e.fault.placeIn d.tokens := by
  have kept := h.tokens
  obtain ⟨fault, l⟩ := e
  unfold Objects at h
  split at h
  · next same =>
    cases same
    exact kept ▸ h.2.1
  · next same =>
    cases same
    exact kept ▸ h.1
  · next same =>
    cases same
    exact kept ▸ h.1
  · next same =>
    cases same
    cases sound
  · cases h

/-- Where reading breaks off, the fault says at which token, unless the grammar is to blame. -/
theorem Breaks.placeIn {ofRule : RuleId → Shape} {effects : Effects} {n : Nat} {s : Stage} {e : ParseError}
    (h : Breaks env n s c (.error e) d) (stands : s.Stands env.grammar ofRule effects c)
    (sound : ParseFault.blamesGrammar e.fault = false) : e.location = e.fault.placeIn d.tokens := by
  cases h with
  | deep => rfl
  | required => rfl
  | @unfit _ a _ _ hs refused =>
    refine (ParseFault.placeIn_unfit env.grammar fun s => ?_).symm
    cases a <;> rfl
  | @acting p v _ _ _ run =>
    obtain ⟨a, -, objects⟩ := Prepared.objects stands run
    exact objects.placeIn sound
  | defect => cases sound

end

end Planfile

/-! ## The language -/

namespace Planfile

open Matcher

namespace Language

variable {env : Surroundings} (h : grammar = .ok env.grammar) {start : TokenSource}
  {journal : Log.Journal} {c : Context}

include h

/-- A plan that ends early does so at a token. -/
theorem points_of_plan {e : ParseError}
    (anchored : TokenSource.Anchored env.preferences env.files start start)
    (run : plan env (Context.initial start journal) = (.error (.error e), c)) :
    e.Points env.preferences env.files start c.tokens := by
  obtain ⟨charted, id, known, starts⟩ := exists_charted h
  have grounded := grounded_initial env.grammar (effectsIn env.grammar) start journal
  have reaches := stateInvariant_reaches (shapeIn env.grammar) (effectsIn env.grammar) env start
  rcases cases_of_run_plan known run with failed | ⟨v, x, parsed, rest⟩
  · have reached := reaches.of_run charted grounded starts (fun _ => rfl) failed .start
    -- the grammar is not to blame
    have sound := (yields_parseRule charted.typed known).of_error rfl grounded.sound
      ((run_parseRule known).trans failed)
    have stands : (Stage.rule id).Stands env.grammar (shapeIn env.grammar) (effectsIn env.grammar)
        (Context.initial start journal) := ⟨.start, starts, fun _ => rfl⟩
    rcases Halts.of_run failed with fuel | ⟨_, _, x, y, visit, breaks, _, _, _, rfl⟩
    · cases fuel
    · have isAt := breaks.isAt (visit.stands charted grounded stands).2
        (visit.hasRead charted grounded stands trivial) sound
      exact isAt.points anchored reached
  · have reached := reaches.of_run charted grounded starts (fun _ => rfl) parsed .start
    rcases rest with ⟨rfl, same⟩ | none
    · cases same
      exact (ParseError.isAt_of_unfit env.grammar rfl).points anchored reached
    · exact absurd none (started_of_run h known parsed)

/-- At which token a plan ends early, the fault says. -/
theorem placeIn_of_plan {e : ParseError}
    (run : plan env (Context.initial start journal) = (.error (.error e), c)) :
    e.location = e.fault.placeIn c.tokens := by
  obtain ⟨charted, id, known, starts⟩ := exists_charted h
  have grounded := grounded_initial env.grammar (effectsIn env.grammar) start journal
  rcases cases_of_run_plan known run with failed | ⟨v, x, parsed, rest⟩
  · have sound := (yields_parseRule charted.typed known).of_error rfl grounded.sound
      ((run_parseRule known).trans failed)
    have stands : (Stage.rule id).Stands env.grammar (shapeIn env.grammar) (effectsIn env.grammar)
        (Context.initial start journal) := ⟨.start, starts, fun _ => rfl⟩
    rcases Halts.of_run failed with fuel | ⟨_, _, x, y, visit, breaks, _, _, _, rfl⟩
    · cases fuel
    · exact breaks.placeIn (visit.stands charted grounded stands).2 sound
  · rcases rest with ⟨rfl, same⟩ | none
    · cases same
      exact (ParseFault.placeIn_unfit env.grammar fun _ => rfl).symm
    · exact absurd none (started_of_run h known parsed)

end Language

namespace Session

/-- An error in a plan that a session processes points at a token: of the main text or of a file that the
plan has included, the error is at the start of a token that the grammar sees. Where something else is
expected than stands there, what has been found is the first token that has not been read. -/
theorem exists_points_of_process {s s' : Session} {input : PlanInput} {e : ParseError}
    (h : s.process input = (.error (.parse e), s')) :
    ∃ start grammar journal c, s.source input = .ok start ∧ Language.grammar = .ok grammar ∧
      plan ⟨grammar, s.files, s.preferences⟩ (.initial start journal) = (.error (.error e), c) ∧
      e.Points s.preferences s.files start c.tokens := by
  obtain ⟨_, tokens, source, name, path, grammar, journal, c, lexed, there, made, run⟩ :=
    exists_plan_of_process (congrArg Prod.fst h)
  exact ⟨_, grammar, journal, c, there, made, run,
    Language.points_of_plan made (TokenSource.anchored_ofStream lexed source name path) run⟩

/-- The text of a plan in which the keyword of a task inside of another one is misspelt. -/
def misspeltPlan : String :=
  "project p \"P\" \"1\" 2024-01-01 - 2025-01-01\ntask a \"A\" \x7b\n  tusk b \"B\"\n\x7d"

/-- The error that processing it ends with is at the third column of the third line. -/
def misspeltError : ParseError := ⟨.unknownAttribute "tusk" "taskAttributes", ⟨"main.tjp", 3, 3⟩⟩

/-- It ends with this error. -/
theorem exists_process_misspeltPlan :
    ∃ s', quiet.process (.text "main.tjp" misspeltPlan) = (.error (.parse misspeltError), s') := by
  let check (outcome : Except ProcessError Processed) : Bool :=
    decide (outcome.map (fun _ => ()) = .error (.parse misspeltError))
  -- the text is split into tokens, and matching these ends with the error
  obtain ⟨r, s', run, found⟩ := Language.exists_process_of_check quiet "main.tjp" misspeltPlan
    check (by decide +kernel)
  refine ⟨s', ?_⟩
  cases r with
  | ok r => cases found
  | error e => rw [run, Except.error.inj (of_decide_eq_true found)]

/-- The plan in which a keyword is misspelt is refused at this keyword. -/
theorem exists_points_of_process_misspeltPlan :
    ∃ s' start grammar journal c,
      quiet.process (.text "main.tjp" misspeltPlan) = (.error (.parse misspeltError), s') ∧
      quiet.source (.text "main.tjp" misspeltPlan) = .ok start ∧ Language.grammar = .ok grammar ∧
      Matcher.plan ⟨grammar, quiet.files, quiet.preferences⟩ (.initial start journal) =
        (.error (.error misspeltError), c) ∧
      misspeltError.Points quiet.preferences quiet.files start c.tokens := by
  obtain ⟨s', run⟩ := exists_process_misspeltPlan
  obtain ⟨start, grammar, journal, c, rest⟩ := exists_points_of_process run
  exact ⟨s', start, grammar, journal, c, run, rest⟩

end Session

end Planfile
