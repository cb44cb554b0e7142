import Planfile.Proofs.Parallel.Matching
import Planfile.Token.Source

/-!
# Planfile — matching does not look at the layout

Where the same words are ahead, in the same files, two runs read in step: the same alternatives are chosen,
the same symbols are read, and the same actions are performed. Places go into values and errors with the
tokens, but nothing is decided by them. The only one that gets into a project is the line of an expression.

Main results:

* `TokenSource.SameWords.advance` — reading a token from sources with the same words.
* `TokenSource.SameWords.pushInclude?` — going on with a file in sources with the same words.
* `RunRelation.inStep_layout` — the same words are read in step.
* `RunRelation.takes_layout` — alternatives whose actions do not look at places are matched alike.
-/

/-!
## The words of a text

Two texts may differ in comments, white space and line breaks and still consist of the same words, one after
the other. What reading does to the stack of streams depends on nothing else: which stream is read, which
files are open, and where a stream comes to its end.
-/

namespace Planfile

/-- The words that a stream has ahead, without their places, and which file it belongs to. -/
structure Words where
  file : String
  path : Option String
  tokens : List Token

/-- The words that are ahead in a frame. -/
def Frame.words (f : Frame) : Words := ⟨f.file, f.path, f.stream.ahead.map (·.token)⟩

namespace Frame

variable {f g : Frame}

theorem map_current (f : Frame) : f.stream.current.map (·.token) = f.words.tokens.head? := by
  rw [TokenStream.current, words, List.head?_map]

/-- Whether a stream is at its end is seen from its words. -/
theorem isAtEnd_of_words (h : g.words = f.words) : g.stream.isAtEnd = f.stream.isAtEnd := by
  have fromWords (f : Frame) : f.stream.isAtEnd = f.words.tokens.head?.all Token.isEof := by
    rw [← map_current, Option.all_map]
    rfl
  rw [fromWords, h, ← fromWords]

/-- Reading takes the first word away. -/
theorem words_advance (f : Frame) : { f with stream := f.stream.advance : Frame }.words =
    { f.words with tokens := f.words.tokens.tail } := by
  simp only [words, TokenStream.ahead_advance, List.map_tail]

end Frame

/-- Streams at their end are taken off alike. -/
theorem words_settle {top top' : Frame} {below below' : List Frame} (h : top'.words = top.words)
    (hs : below'.map Frame.words = below.map Frame.words) :
    (settle top' below').1.words = (settle top below).1.words ∧
      (settle top' below').2.map Frame.words = (settle top below).2.map Frame.words := by
  -- by induction on the streams below
  induction below generalizing top top' below' with
  | nil =>
    obtain rfl := List.map_eq_nil_iff.mp hs
    exact ⟨h, rfl⟩
  | cons next below ih =>
    obtain ⟨next', below', rfl, first, rest⟩ := List.map_eq_cons_iff.mp hs
    rw [settle, settle, Frame.isAtEnd_of_words h]
    split
    · exact ih first rest
    · exact ⟨h, hs⟩

namespace TokenSource

/-- Whether two sources have the same words ahead, in the same files, and have read as many. -/
structure SameWords (s t : TokenSource) : Prop where
  top : t.top.words = s.top.words
  below : t.below.map Frame.words = s.below.map Frame.words
  consumed : t.consumed = s.consumed
  included : t.included = s.included
  file : t.lastLocation.file = s.lastLocation.file

namespace SameWords

variable {s t : TokenSource} (same : s.SameWords t)

include same

/-- The next tokens differ at most in their places. -/
theorem peekSpanned :
    Option.Rel (fun a b => b.token = a.token) s.peekSpanned t.peekSpanned := by
  have tokens : t.peekSpanned.map (·.token) = s.peekSpanned.map (·.token) := by
    show t.top.stream.current.map (·.token) = s.top.stream.current.map (·.token)
    rw [Frame.map_current, same.top, ← Frame.map_current]
  generalize s.peekSpanned = a at tokens ⊢
  generalize t.peekSpanned = b at tokens ⊢
  cases a with
  | none =>
    obtain rfl := Option.map_eq_none_iff.mp tokens
    exact .none
  | some a =>
    obtain ⟨b, rfl, token⟩ := Option.map_eq_some_iff.mp tokens
    exact .some token

theorem peek : t.peek = s.peek := by
  unfold TokenSource.peek
  have next := same.peekSpanned
  generalize s.peekSpanned = a at next ⊢
  generalize t.peekSpanned = b at next ⊢
  cases next with
  | none => rfl
  | some token => exact token

theorem topFile : t.top.file = s.top.file := congrArg Words.file same.top

/-- The next tokens stand in the same file. -/
theorem fileOfNext : t.location.file = s.location.file := by
  unfold TokenSource.location
  have next := same.peekSpanned
  generalize s.peekSpanned = a at next ⊢
  generalize t.peekSpanned = b at next ⊢
  cases next with
  | none => exact same.file
  | some _ => exact same.topFile

/-- Streams at their end are taken off alike. -/
theorem settled : s.settled.SameWords t.settled := by
  obtain ⟨top, below⟩ := words_settle same.top same.below
  exact ⟨top, below, same.consumed, same.included, same.file⟩

/-- The next token is read alike. -/
theorem read : s.read.SameWords t.read where
  top := by
    show ({ t.top with stream := t.top.stream.advance } : Frame).words =
      ({ s.top with stream := s.top.stream.advance } : Frame).words
    rw [Frame.words_advance, Frame.words_advance, same.top]
  below := same.below
  consumed := congrArg (· + 1) same.consumed
  included := same.included
  file := same.fileOfNext

/-- The same word is read in both sources, or both are at their end. -/
theorem advance :
    Option.Rel (fun a b => b.1.token = a.1.token ∧ SameWords a.2 b.2) s.advance t.advance := by
  unfold TokenSource.advance
  have next := same.peekSpanned
  generalize s.peekSpanned = a at next ⊢
  generalize t.peekSpanned = b at next ⊢
  cases next with
  | none => exact .none
  | some token =>
    dsimp only
    rw [token]
    split
    · exact .none
    · exact .some ⟨token, same.read.settled⟩

/-! ## Including files -/

theorem depth : t.depth = s.depth := by
  have length := congrArg List.length same.below
  simp only [List.length_map] at length
  rw [TokenSource.depth, length, TokenSource.depth]

theorem frames : t.frames.map Frame.words = s.frames.map Frame.words := by
  rw [TokenSource.frames, List.map_cons, same.top, same.below, TokenSource.frames, List.map_cons]

/-- The same files are open. -/
theorem isOpen (canonical : String) : t.isOpen canonical = s.isOpen canonical := by
  have fromWords (s : TokenSource) :
      s.isOpen canonical = (s.frames.map Frame.words).any (·.path == some canonical) := by
    rw [List.any_map]
    rfl
  rw [fromWords, same.frames, ← fromWords]

/-- A path means the same file. -/
theorem resolve (path : String) : t.resolve path = s.resolve path := by
  have own : t.top.path = s.top.path := congrArg Words.path same.top
  rw [TokenSource.resolve, own, TokenSource.resolve]

/-- The same file is opened, or none for the same reason. -/
theorem openFile (p : Settings.Preferences) (fs : File.System) (path : String) :
    t.openFile p fs path = s.openFile p fs path := by
  simp only [TokenSource.openFile, same.depth, same.resolve, same.isOpen]

/-- A file is gone on with alike. -/
theorem push (f : Frame) : (s.push f).SameWords (t.push f) where
  top := rfl
  below := same.frames
  consumed := same.consumed
  included := congrArg (· ++ f.path.toList) same.included
  file := same.file

/-- A file is gone on with, or is not for the same reason. -/
theorem pushInclude? (p : Settings.Preferences) (fs : File.System) (path : String) :
    (∃ e, s.pushInclude? p fs path = .error e ∧ t.pushInclude? p fs path = .error e) ∨
      ∃ s' t', s.pushInclude? p fs path = .ok s' ∧ t.pushInclude? p fs path = .ok t' ∧
        SameWords s' t' := by
  unfold TokenSource.pushInclude?
  rw [same.openFile]
  cases s.openFile p fs path with
  | error e => exact .inl ⟨e, rfl, rfl⟩
  | ok f => exact .inr ⟨_, _, rfl, rfl, (same.push f).settled⟩

end SameWords

end TokenSource

end Planfile

/-! ## Reading in step -/

namespace Planfile

/-- An expression without the line in which it starts. -/
def Plan.LogicalExpression.lineless (e : LogicalExpression) : LogicalExpression := { e with line := 0 }

/-- Whether an action does not look at the place of its pattern, but to tell it to an expression. -/
def Action.IsPlaceless (a : Action) : Prop := a.isStatement = true ∨ ∃ i, a = .includeFile i

/-- Whether the actions of a grammar do not look at places. -/
def GrammarTable.IsPlaceless (t : GrammarTable) : Prop :=
  ∀ id, ∀ p ∈ (t.rule id).patterns, ∀ a ∈ p.action, a.IsPlaceless

namespace RunRelation

open Matcher

/-- Two runs over texts of the same words: what is ahead differs in layout alone. -/
def layout : RunRelation where
  surroundings env env' := env' = env ∧ env.grammar.IsPlaceless
  grammar h := congrArg Surroundings.grammar h.1
  reading s stop t stop' := s.SameWords t ∧ stop' = stop
  view := .lineless
  allows := Action.IsPlaceless
  stores _ _ _ := .inl rfl

theorem Alike.words {c d : Context} (alike : layout.Alike c d) : c.tokens.SameWords d.tokens :=
  alike.reading.1

/-- Where the same words are ahead they are read in step, whatever their places. -/
theorem inStep_layout : layout.InStep where
  same h := h.1
  stop h := h.2
  peek h := h.1.peek
  consumed h := h.1.consumed
  advance {s _ t _} h := by
    have next := h.1.advance
    generalize s.advance = a at next ⊢
    generalize t.advance = b at next ⊢
    cases next with
    | none => exact .none
    | some read => exact .some ⟨read.1, read.2, h.2⟩
  mark h _ := ⟨h.1, rfl⟩
  place {s _ t _} h operation := by
    -- an expression is in the same file, and its line is not looked at
    show Plan.LogicalExpression.lineless _ = Plan.LogicalExpression.lineless _
    rw [Plan.LogicalExpression.lineless, Plan.LogicalExpression.lineless, h.1.fileOfNext]

/-- The same file is gone on with. -/
theorem steady_includeFile (path : String) : layout.Steady (includeFile path) := by
  refine parallel_read fun env env' he => parallel_get fun c d alike => ?_
  obtain ⟨rfl, -⟩ := he
  refine Parallel.andThen (parallel_modify fun _ _ alike => alike.withJournal _ _) fun _ => ?_
  rcases alike.words.pushInclude? env'.preferences env'.files path with ⟨e, first, second⟩ |
    ⟨s, t, first, second, same⟩
  · rw [first, second]
    exact parallel_failAt _ _ _
  · rw [first, second]
    have ahead : layout.reading s none t none := ⟨same, rfl⟩
    exact parallel_modify fun c d alike => alike.withTokens inStep_layout ahead _ _

/-- An action that does not look at places does the same in both layouts. -/
theorem parallel_perform {matchRule : RuleId → Matcher (Option Value)} {v w : Values}
    (hv : v.Same layout.view w) {a : Action} (h : a.IsPlaceless) :
    layout.Parallel (Value.Same layout.view) (a.perform matchRule v) (a.perform matchRule w) := by
  rcases h with statement | ⟨i, rfl⟩
  · exact a.parallel_perform hv statement matchRule matchRule
  · refine (parallel_taken (hv.string i)).andThen fun path => ?_
    exact (steady_includeFile path).andThen fun _ => parallel_pure rfl

/-- Alternatives whose actions do not look at places are matched alike in both layouts. -/
theorem takes_layout : layout.Takes fun p => ∀ a ∈ p.action, a.IsPlaceless where
  declared he id p hp := he.2 id p hp
  added h := h
  matched alike _ placeless :=
    parallel_matchPattern inStep_layout alike fun a action _ _ same => parallel_perform same (placeless a action)

end RunRelation

end Planfile
