import Planfile.Proofs.Course.Progress
import Planfile.Proofs.Statement.Language
import Planfile.Proofs.Statement.Note

/-!
# Planfile — a plan that has been matched does what its notes say

Let something be seen of each state, and let a note say what becomes of it. If a rule that is a note has
this effect, and so has the end of an alternative, while all other actions leave alone what is seen, then
what is seen after any part of a plan comes from what was seen before it by the notes in the text of this
part, one after the other. The induction on the way through a plan is made here once for all matters.

Main results:

* `Course.retold` — what is seen is what the notes of the text make of it.
* `Language.retold_of_plan` — so it is with a whole plan, and its notes are those of a nest.
-/

namespace Planfile

open Matcher
open TokenSource (Pastes)

/-! ## What is seen -/

/-- A matter that a plan speaks of, with what is seen of it in a state, and what becomes of this by a
note. -/
structure Matter (α σ : Type) extends Concern α where
  view : Context → σ
  step : σ → α → Option σ

section
variable {α σ : Type} {m : Matter α σ} {ofRule : RuleId → Shape} {effects : Effects}
  {env : Surroundings} {k : Assertions} {c d x y : Context}

variable (m ofRule effects env k) in
/-- Whether notes say what becomes of what is seen of a state, where something is known of states. -/
structure Matter.Tracks : Prop where
  noise : ∀ (c : Context) tokens journal depth stop,
    m.view { c with tokens, journal, depth, stop } = m.view c
  /-- A rule that is a note reads what it says, and does it. -/
  word : ∀ {id reads c v d}, m.words id = some reads → k.ask c →
    Course ofRule effects env (.rule id) c v d →
    ∃ text note, reads text note ∧ c.tokens.Reads text d.tokens ∧
      (∀ added, c.extensions <+: added → LiveGrammar.Derives ⟨env.grammar, added⟩ [.rule id] text) ∧
      d.extensions = c.extensions ∧ m.step (m.view c) note = some (m.view d)
  /-- The end of an alternative does what its note says, and if it is none leaves alone what is seen. -/
  acted : ∀ {matchRule p a v o c d}, Prepared env.grammar ofRule effects p v c → p.action = some a →
    k.fits p → k.ask c → m.allows a = true → a.perform matchRule v env c = (.ok o, d) →
    (m.coda a).toList.foldlM m.step (m.view c) = some (m.view d)
  /-- Files are included by rules of their own. -/
  unfiled : ∀ i, m.allows (.includeFile i) = false

variable (m env) in
/-- Whether matching some symbols, and what is done at their end, has led from one state to another, where
the tokens that it has gone through are a word of the symbols, and what is seen is what the notes in it,
and those at the end, have made of it. -/
structure Retold (symbols : List Symbol) (coda : List α) (c : Context) (text : List Token)
    (notes : List α) (d : Context) : Prop where
  pastes : Pastes env.preferences env.files c.tokens text d.tokens
  /-- This holds in the grammar of the end, and when more has been added to it. -/
  recounts : ∀ added, d.extensions <+: added →
    LiveGrammar.Recounts ⟨env.grammar, added⟩ m.toConcern symbols text notes
  follows : (notes ++ coda).foldlM m.step (m.view c) = some (m.view d)
  grows : c.extensions <+: d.extensions

variable (m env) in
/-- What a part has done. -/
def Part.Recounted : Part → Context → Context → Prop
  | .rule id, c, d => env.grammar.isPlain m.toConcern id = true →
    ∃ text notes, Retold m env [.rule id] [] c text notes d
  | .repetition id mayStop, c, d => env.grammar.isPlain m.toConcern id = true →
    (env.grammar.rule id).repeatable = true →
    (∃ text notes, Retold m env [.rule id] [] c text notes d) ∨
      mayStop = true ∧ ∃ text notes, Retold m env [] [] c text notes d
  | .pattern p, c, d => ∀ id, env.grammar.isPlain m.toConcern id = true → env.grammar.Offers id p →
    ∃ text notes, Retold m env p.symbols (p.action.bind m.coda).toList c text notes d
  | .symbols ss, c, d => ∃ text notes, Retold m env ss [] c text notes d

namespace Retold

variable {symbols others : List Symbol} {text text' : List Token} {coda notes notes' : List α}

theorem nil : Retold m env [] [] c [] [] c :=
  ⟨.done _, fun _ _ => .nil, rfl, List.prefix_rfl⟩

/-- What is no part of what is seen can be other. -/
theorem of_noise (tracks : m.Tracks ofRule effects env k)
    (h : Retold m env symbols coda c text notes d) (depth depth' : Nat)
    (journal journal' : Log.Journal) (stop stop' : Option StopMark) :
    Retold m env symbols coda { c with journal, depth, stop } text notes
      { d with journal := journal', depth := depth', stop := stop' } :=
  ⟨h.pastes, h.recounts, by rw [tracks.noise c c.tokens, tracks.noise d d.tokens, h.follows], h.grows⟩

/-- What has been matched one behind the other is a word, where what has been matched first and what
has been matched behind it make one. -/
theorem join {all : List Symbol} (h : Retold m env symbols coda c text notes x)
    (hs : Retold m env others [] x text' notes' d)
    (recounts : ∀ added, x.extensions <+: added →
      LiveGrammar.Recounts ⟨env.grammar, added⟩ m.toConcern symbols text notes →
      LiveGrammar.Recounts ⟨env.grammar, added⟩ m.toConcern others text' notes' →
      LiveGrammar.Recounts ⟨env.grammar, added⟩ m.toConcern all (text ++ text') (notes ++ coda ++ notes')) :
    Retold m env all [] c (text ++ text') (notes ++ coda ++ notes') d where
  pastes := h.pastes.append hs.pastes
  recounts added later := recounts added (hs.grows.trans later)
    (h.recounts added (hs.grows.trans later)) (hs.recounts added later)
  follows := by
    have behind := hs.follows
    rw [List.append_nil] at behind ⊢
    rw [List.foldlM_append, h.follows]
    exact behind
  grows := h.grows.trans hs.grows

/-- An alternative with its end is a word of its rule. -/
theorem alternative {id : RuleId} {p : Pattern} (plain : env.grammar.isPlain m.toConcern id = true)
    (h : Retold m env p.symbols (p.action.bind m.coda).toList c text notes d)
    (mem : p ∈ LiveGrammar.patterns ⟨env.grammar, c.extensions⟩ id) :
    Retold m env [.rule id] [] c text (notes ++ (p.action.bind m.coda).toList) d where
  pastes := h.pastes
  recounts added later := (h.recounts added later).alternative plain
    (LiveGrammar.patterns_subset_of_prefix _ (h.grows.trans later) id mem)
  follows := by rw [List.append_nil, h.follows]
  grows := h.grows

/-- What is done at the end of an alternative is its note. -/
theorem acted (tracks : m.Tracks ofRule effects env k) {reference : RuleId}
    (ht : env.grammar.Typed ofRule) (known : env.grammar.ruleId? "referenceBody" = some reference)
    (h : Retold m env symbols [] c text notes x) {p : Pattern} {v : Values}
    (prepared : Prepared env.grammar ofRule effects p v x) (fit : k.fits p)
    (noisy : ∀ journal depth stop, k.ask { x with journal, depth, stop })
    (allowed : ∀ a, p.action = some a → m.allows a = true)
    {matchRule : RuleId → Matcher (Option Value)} {o : Option Value}
    (run : performed matchRule p v.location v.items env x = (.ok o, d)) :
    Retold m env symbols (p.action.bind m.coda).toList c text notes d := by
  rcases cases_of_run_performed run with ⟨action, ⟨⟩, rfl⟩ | ⟨a, journal, action, run⟩
  · rwa [action]
  · rw [action, Option.bind_some]
    have there := prepared.of_journal journal
    have tokens : d.tokens = x.tokens := by
      refine Action.tokens_eq_of_run (c := { x with journal }) (fun i same => ?_) (fun name same => ?_) run
      · have allowed := allowed a action
        rw [same, tracks.unfiled i] at allowed
        cases allowed
      · exact (there.allows _ (same ▸ action)).not_rule
    -- the grammar may have grown by then, and the word is one of the larger grammar as well
    have grows := (there.grows ht known action matchRule).extensions
    rw [run] at grows
    refine ⟨tokens ▸ h.pastes, fun added later => h.recounts added (grows.trans later), ?_,
      h.grows.trans grows⟩
    have follows := h.follows
    rw [List.append_nil] at follows
    have ends := tracks.acted there action fit (noisy journal x.depth x.stop) (allowed a action) run
    rw [tracks.noise x x.tokens] at ends
    rw [List.foldlM_append, follows]
    exact ends

/-- A rule that is a note is one where it is read. -/
theorem word (tracks : m.Tracks ofRule effects env k) {id : RuleId}
    {reads : List Token → α → Prop} (reading : m.words id = some reads) (hc : k.ask c)
    {v : Option Value} (course : Course ofRule effects env (.rule id) c v d) :
    ∃ text notes, Retold m env [.rule id] [] c text notes d := by
  obtain ⟨text, note, read, through, derived, extensions, follows⟩ := tracks.word reading hc course
  refine ⟨text, [note], through.pastes, fun added later => ?_, ?_, extensions ▸ List.prefix_rfl⟩
  · rw [← List.append_nil text]
    exact .word reading (derived added (extensions ▸ later)) read .nil
  · rw [List.append_nil, List.foldlM_cons, follows]
    rfl

/-- Of an include statement nothing is seen. -/
theorem included (tracks : m.Tracks ofRule effects env k) {id : RuleId}
    (inclusion : env.grammar.isInclusion id = true) {v : Option Value}
    (course : Course ofRule effects env (.rule id) c v d) :
    ∃ text notes, Retold m env [.rule id] [] c text notes d := by
  obtain ⟨single, forms⟩ := Bool.and_eq_true_iff.mp inclusion
  obtain ⟨p, noted, x, mem, rfl, course⟩ := course.of_isSingle single
  obtain rfl : p = includeStatement := beq_iff_eq.mp (List.all_eq_true.mp forms p mem)
  obtain ⟨tokens, journal, rfl, pastes⟩ := course.of_includeStatement
  refine ⟨[], [], pastes, fun _ _ => .included inclusion .nil, ?_, List.prefix_rfl⟩
  exact congrArg some (tracks.noise c tokens journal _ c.stop).symm

end Retold

/-! ## Matched parts -/

variable (attends : env.grammar.Attends m.toConcern)
  (tracks : m.Tracks ofRule effects env k)

namespace Part.Recounted

variable {id : RuleId} {mayStop : Bool} {p : Pattern}

/-- A rule that is matched among other symbols is a note, includes a file, or is neither. -/
theorem rule (tracks : m.Tracks ofRule effects env k) (hc : k.ask c) {v : Option Value}
    (course : Course ofRule effects env (.rule id) c v d)
    (h : (Part.rule id).Recounted m env c d) :
    ∃ text notes, Retold m env [.rule id] [] c text notes d := by
  cases words : m.words id with
  | some reads => exact Retold.word tracks words hc course
  | none =>
    cases inclusion : env.grammar.isInclusion id with
    | true => exact Retold.included tracks inclusion course
    | false =>
      refine h ?_
      rw [GrammarTable.isPlain, words, inclusion]
      rfl

include tracks

/-- A rule that is repeated has told what its repetition has. -/
theorem repeated (repeatable : (env.grammar.rule id).repeatable = true)
    (h : (Part.repetition id (env.grammar.rule id).optional).Recounted m env
      { c with depth := c.depth + 1 } d) :
    (Part.rule id).Recounted m env c { d with depth := d.depth - 1 } := by
  intro plain
  rcases h plain repeatable with ⟨text, notes, told⟩ | ⟨optional, text, notes, told⟩
  · exact ⟨text, notes, told.of_noise tracks c.depth _ c.journal d.journal c.stop d.stop⟩
  · have absent := told.of_noise tracks c.depth (d.depth - 1) c.journal d.journal c.stop d.stop
    exact ⟨text, notes, absent.pastes, fun added later => .absent optional (absent.recounts added later),
      absent.follows, absent.grows⟩

/-- A rule that is absent has told nothing. -/
theorem absent (optional : (env.grammar.rule id).optional = true)
    (choice : choose id env { c with depth := c.depth + 1 } = (.ok none, d)) :
    (Part.rule id).Recounted m env c { d with depth := d.depth - 1 } := by
  intro _
  obtain ⟨⟨journal, rfl⟩, -⟩ := exists_of_run_choose choice
  have none : Retold m env [] [] c [] [] c := .nil
  obtain ⟨pastes, -, follows, grows⟩ :=
    none.of_noise tracks c.depth (c.depth + 1 - 1) c.journal journal c.stop c.stop
  exact ⟨[], [], pastes, fun _ _ => .absent optional .nil, follows, grows⟩

/-- A rule has done what the alternative has that has been chosen. -/
theorem once (choice : choose id env { c with depth := c.depth + 1 } = (.ok (some p), x))
    (offered : env.grammar.Offers id p) (h : (Part.pattern p).Recounted m env x d) :
    (Part.rule id).Recounted m env c { d with depth := d.depth - 1 } := by
  intro plain
  obtain ⟨⟨journal, rfl⟩, mem⟩ := exists_of_run_choose choice
  obtain ⟨text, notes, told⟩ := h id plain offered
  have whole := told.alternative plain (mem p rfl)
  exact ⟨text, _, whole.of_noise tracks c.depth (d.depth - 1) c.journal d.journal c.stop d.stop⟩

/-- A repetition that stops has told nothing. -/
theorem stop (choice : choose id env c = (.ok none, d)) :
    (Part.repetition id true).Recounted m env c
      { d with stop := some ⟨d.tokens.consumed, id⟩ } := by
  intro _ _
  obtain ⟨⟨journal, rfl⟩, -⟩ := exists_of_run_choose choice
  have none : Retold m env [] [] c [] [] c := .nil
  exact .inr ⟨rfl, [], [], none.of_noise tracks c.depth c.depth c.journal journal c.stop _⟩

/-- A repetition that goes on has told what the alternative has that has been chosen, and what has
come behind it. -/
theorem next (choice : choose id env c = (.ok (some p), x)) (offered : env.grammar.Offers id p)
    (first : (Part.pattern p).Recounted m env x y)
    (rest : (Part.repetition id true).Recounted m env y d) :
    (Part.repetition id mayStop).Recounted m env c d := by
  intro plain repeatable
  obtain ⟨⟨journal, rfl⟩, mem⟩ := exists_of_run_choose choice
  obtain ⟨text, notes, chosen⟩ := first id plain offered
  -- the choice has changed the journal alone
  have told := chosen.of_noise tracks c.depth y.depth c.journal y.journal c.stop y.stop
  have inForce (added : List (RuleId × Pattern)) (later : y.extensions <+: added) :
      p ∈ LiveGrammar.patterns ⟨env.grammar, added⟩ id :=
    LiveGrammar.patterns_subset_of_prefix _ (told.grows.trans later) id (mem p rfl)
  -- behind it are further repetitions, or it was the last one
  rcases rest plain repeatable with ⟨text', notes', others⟩ | ⟨-, text', notes', others⟩
  · exact .inl ⟨_, _, told.join others fun added later pattern others =>
      .again plain repeatable (inForce added later) pattern others⟩
  · exact .inl ⟨_, _, told.join others fun added later pattern others =>
      .once plain (inForce added later) pattern others⟩

/-- A token that has been read is no note. -/
theorem terminal {s : Symbol} {a : Terminal} {symbols : List Symbol} (hs : s.terminal? = some a)
    (fits : a.accepts c.tokens.peek = true)
    (h : (Part.symbols symbols).Recounted m env (c.next env) d) :
    (Part.symbols (s :: symbols)).Recounted m env c d := by
  obtain ⟨text, notes, told⟩ := h
  obtain ⟨token, same, read⟩ := advance_of_isEof (Terminal.isEof_of_accepts fits)
  refine ⟨c.tokens.peek :: text, notes, same ▸ .token read told.pastes,
    fun added later => .terminal hs fits (told.recounts added later), ?_, told.grows⟩
  have seen : m.view (c.next env) = m.view c := tracks.noise c _ _ c.depth c.stop
  rw [← seen]
  exact told.follows

end Part.Recounted

include attends tracks

/-- What is seen after a part of a plan is what the notes of its text make of what was seen before. -/
theorem Course.retold (invariant : ValueInvariant ofRule effects env k) {reference : RuleId}
    (ht : env.grammar.Typed ofRule) (known : env.grammar.ruleId? "referenceBody" = some reference)
    {part : Part} {o : part.Outcome} (course : Course ofRule effects env part c o d) (hc : k.ask c)
    (fit : part.IsFit k) : part.Recounted m env c d := by
  induction course with
  | repeated repeatable _ ih => exact .repeated tracks repeatable (ih (invariant.noise hc _ _ _).1 trivial)
  | absent optional choice => exact .absent tracks optional choice
  | once choice offered _ ih =>
    obtain ⟨⟨there, -⟩, chosen⟩ := invariant.of_choose (invariant.noise hc _ _ _).1 choice
    exact .once tracks choice offered (ih there (chosen _ rfl))
  | stop choice => exact .stop tracks choice
  | next choice offered first _ ih ih' =>
    obtain ⟨⟨there, -⟩, chosen⟩ := invariant.of_choose hc choice
    -- what the notes rely on holds where the next round starts
    have behind := (invariant.of_course first there (chosen _ rfl)).1.1
    exact .next tracks choice offered (ih there (chosen _ rfl)) (ih' behind trivial)
  | @pattern p c x d items v matchRule symbols prepared run ih =>
    intro id plain offered
    obtain ⟨text, notes, told⟩ := ih hc trivial
    have there := (invariant.of_course symbols hc trivial).1.1
    exact ⟨text, notes, told.acted tracks ht known prepared fit
      (fun journal depth stop => (invariant.noise there journal depth stop).1)
      (attends id plain p offered) run⟩
  | nil => exact ⟨[], [], .nil⟩
  | terminal hs fits _ ih =>
    exact .terminal tracks hs fits (ih (invariant.next hc (Terminal.isEof_of_accepts fits)).1 trivial)
  | reference first _ ih ih' =>
    obtain ⟨text, notes, told⟩ := Part.Recounted.rule tracks hc first (ih hc trivial)
    obtain ⟨text', notes', others⟩ := ih' (invariant.of_course first hc trivial).1.1 trivial
    exact ⟨text ++ text', notes ++ [] ++ notes', told.join others fun _ _ pattern others => by
      rw [List.append_nil]
      exact pattern.append others⟩

end

end Planfile

/-! ## Whole plans -/

namespace Planfile.Language

open Matcher
open TokenSource (Pastes)

/-- What can be chosen where a plan has come to its end are alternatives of the language and such that a
plan can add. -/
theorem offers_of_plan {env : Surroundings} (h : grammar = .ok env.grammar) {tokens : TokenSource}
    {journal : Log.Journal} {p : Plan.Project} {c : Context}
    (run : plan env (Context.initial tokens journal) = (.ok p, c)) (id : RuleId) :
    ∀ q ∈ LiveGrammar.patterns ⟨env.grammar, c.extensions⟩ id, env.grammar.Offers id q := by
  obtain ⟨charted, project, known, -⟩ := exists_charted h
  obtain ⟨x, visit, -, rfl⟩ := visits_of_plan known run
  have grounded := (visit.stands charted (grounded_initial _ _ tokens journal) (stands_initial h known)).1
  exact fun q mem => grounded.sound.offers mem

/-- Where a plan has made a project, the text, in which all include statements have given way to the
tokens of their files, is a word of the language, and the notes in it are those of a nest. What is seen in
the end is what these notes make of what is seen at the start. -/
theorem retold_of_plan {β γ σ : Type} {m : Matter (Note β γ) σ} {k : Assertions} {starts : RuleId → Bool}
    {env : Surroundings} (h : grammar = .ok env.grammar) (attends : env.grammar.Attends m.toConcern)
    (tracks : m.Tracks (shapeIn env.grammar) (effectsIn env.grammar) env k)
    (invariant : ValueInvariant (shapeIn env.grammar) (effectsIn env.grammar) env k)
    (nests : ∀ added,
      (∀ id, ∀ q ∈ LiveGrammar.patterns ⟨env.grammar, added⟩ id, env.grammar.Offers id q) →
        LiveGrammar.Nests starts ⟨env.grammar, added⟩ m.toConcern)
    (plain : ∀ id, env.grammar.ruleId? "project" = some id → env.grammar.isPlain m.toConcern id = true)
    {main : TokenStream} {file : String} {path : Option String} {journal : Log.Journal}
    (start : k.ask (.ofStream main file path journal)) {p : Plan.Project} {c : Context}
    (run : plan env (.ofStream main file path journal) = (.ok p, c)) :
    ∃ id files text, ∃ n : Nest β γ, ∃ d : Context, env.grammar.ruleId? "project" = some id ∧
      Pastes env.preferences env.files (.ofStream main file path) text c.tokens ∧
      Pasted env.preferences env.files main.rest files text ∧
      LiveGrammar.Recounts ⟨env.grammar, c.extensions⟩ m.toConcern [.rule id] text n.notes ∧
      n.notes.foldlM m.step (m.view (.ofStream main file path journal)) = some (m.view d) ∧
      d.project = some p := by
  obtain ⟨charted, -⟩ := exists_charted h
  obtain ⟨reference, known⟩ := charted.typed.extensible.reference
  have offers := offers_of_plan h run
  obtain ⟨id, v, d, project, course, eof, there, left⟩ := course_of_plan h run
  obtain ⟨text, notes, told⟩ :=
    course.retold attends tracks invariant charted.typed known start trivial (plain id project)
  have all : (TokenSource.ofStream main file path).rest = main.rest := by
    rw [TokenSource.rest, TokenSource.frames, TokenSource.ofStream, List.flatMap_singleton]
  obtain ⟨files, pasted, -⟩ := told.pastes.pasted (told.pastes.rest_eq_nil rfl eof)
  subst left
  -- the pairs are those of the grammar of the end, with all that the plan has added
  have word := told.recounts d.extensions List.prefix_rfl
  have inForce := nests d.extensions offers
  obtain ⟨n, rfl⟩ := word.exists_nest inForce (inForce.not_starts (plain id project))
  have follows := told.follows
  rw [List.append_nil] at follows
  exact ⟨id, files, text, n, d, project, told.pastes, all ▸ pasted, word, follows, there⟩

end Planfile.Language
