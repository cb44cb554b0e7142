import Planfile.Parse.Context
import Planfile.Proofs.Source.FlatList

/-!
# Planfile — what stays true of the stack

Files are put on the stack by going on with them, and they are taken off when they have nothing more
to give, several at once if need be. Whatever is asked of a source, four things stay true of its stack
(`TokenSource.Stacked`): the main file is at the bottom, no more files are above it than the limit
admits, no file is open twice, and each file above the main one has something left to give.

The last one needs an argument. A file is taken off only where it is on top, so a file that were
covered at its end would come up empty later. But a file is covered only by an include statement that
it holds, and when the path of such a statement is read as the last token, the file is taken off before
the other one is put on top.

Main results:

* `TokenSource.Stacked.settled` — taking off exhausted streams puts the stack in order.
* `TokenSource.keepsStack_after` — after any calls the stack is in order, and a call that fails has
  changed nothing.
-/

namespace Planfile

/-- Whether a file is another one of which some tokens may have been read. -/
structure Frame.Continues (main f : Frame) : Prop where
  file : f.file = main.file
  path : f.path = main.path
  all : f.stream.all = main.stream.all
  ahead : f.stream.ahead <:+ main.stream.ahead

/-- Reading a token leaves a file that goes on from where the other one was. -/
theorem Frame.Continues.advance {main f : Frame} (h : main.Continues f) :
    main.Continues { f with stream := f.stream.advance } := by
  have all : f.stream.advance.all = f.stream.all := by
    unfold TokenStream.advance
    split <;> rfl
  refine ⟨h.file, h.path, all.trans h.all, ?_⟩
  show f.stream.advance.ahead <:+ main.stream.ahead
  rw [TokenStream.ahead_advance]
  exact (List.tail_suffix _).trans h.ahead

/-- A stream is not at its end if it has a token to give that is not the end of its text. -/
theorem TokenStream.isAtEnd_eq_false_iff (s : TokenStream) :
    s.isAtEnd = false ↔ ∃ t, s.current = some t ∧ t.token.isEof = false := by
  rw [isAtEnd]
  cases s.current <;> simp

/-- Taking off exhausted streams leaves no exhausted one above the last, if there is none among those
that are covered. -/
theorem settle_unread (top : Frame) {below : List Frame}
    (covered : ∀ f ∈ below.dropLast, f.stream.isAtEnd = false) :
    ∀ f ∈ ((settle top below).1 :: (settle top below).2).dropLast, f.stream.isAtEnd = false := by
  -- by induction on the streams below, of which the next one comes up when the top is taken off
  induction below generalizing top with
  | nil =>
    intro f hf
    cases hf
  | cons next below ih =>
    rw [settle]
    split
    · refine ih next fun f hf => covered f ?_
      cases below with
      | nil => cases hf
      | cons => exact List.mem_cons_of_mem _ hf
    · next more =>
      intro f hf
      rcases List.mem_cons.mp hf with rfl | hf
      · simpa using more
      · exact covered f hf

namespace TokenSource

/-- What is true of the stack of a source that has started with one file. -/
structure Stacked (main : Frame) (s : TokenSource) : Prop where
  /-- At the bottom is the main file. -/
  bottom : ∃ f, s.frames.getLast? = some f ∧ main.Continues f
  /-- Not too many files are above it. -/
  bounded : s.below.length ≤ Limits.includeDepth
  /-- No file is open twice. -/
  distinct : s.openPaths.Nodup
  /-- Each file above the main one has a token to give that is not the end of its text. -/
  unread : ∀ f ∈ s.frames.dropLast, ∃ t, f.stream.current = some t ∧ t.token.isEof = false

/-- The last of the streams is never taken off. -/
theorem getLast?_frames_settled (s : TokenSource) : s.settled.frames.getLast? = s.frames.getLast? := by
  obtain ⟨off, split⟩ := settle_suffix s.top s.below
  have frames : s.frames = off ++ s.settled.frames := split.symm
  have last : s.settled.frames.getLast? = some (s.settled.frames.getLast (List.cons_ne_nil _ _)) :=
    List.getLast?_eq_some_getLast _
  rw [frames, List.getLast?_append, last]
  rfl

/-- There are no more streams when exhausted ones have been taken off. -/
theorem length_below_settled_le (s : TokenSource) : s.settled.below.length ≤ s.below.length := by
  have shorter := (settle_suffix s.top s.below).length_le
  simp only [List.length_cons] at shorter
  show (settle s.top s.below).2.length ≤ s.below.length
  omega

/-- A file is opened only where the limit leaves room for it. -/
theorem length_frames_le_of_openFile {s : TokenSource} {p : Settings.Preferences}
    {fs : File.System} {path : String} {f : Frame} (h : s.openFile p fs path = .ok f) :
    s.frames.length ≤ Limits.includeDepth := by
  unfold openFile at h
  simp only [bind, Except.bind, pure, Except.pure] at h
  split at h
  · cases h
  · next room => exact Nat.le_of_not_lt room

namespace Stacked

variable {main : Frame} {s : TokenSource}

/-- Taking off exhausted streams puts a stack in order of which only the top may be at its end. -/
theorem settled (bottom : ∃ f, s.frames.getLast? = some f ∧ main.Continues f)
    (bounded : s.below.length ≤ Limits.includeDepth) (distinct : s.openPaths.Nodup)
    (covered : ∀ f ∈ s.below.dropLast, f.stream.isAtEnd = false) : Stacked main s.settled where
  bottom := by rwa [getLast?_frames_settled]
  bounded := Nat.le_trans s.length_below_settled_le bounded
  distinct := distinct.sublist (openPaths_settled_sublist s)
  unread f hf := f.stream.isAtEnd_eq_false_iff.mp (settle_unread s.top covered f hf)

/-- A single file is in order. -/
theorem ofStream (stream : TokenStream) (file : String) (path : Option String) :
    Stacked ⟨stream, file, path⟩ (ofStream stream file path) where
  bottom := ⟨_, rfl, rfl, rfl, rfl, List.suffix_refl _⟩
  bounded := Nat.zero_le _
  distinct := nodup_openPaths_single rfl
  unread f hf := by cases hf

variable (h : Stacked main s)

include h

/-- The streams below the top are not at their end, but for the last one. -/
theorem covered : ∀ f ∈ s.below.dropLast, f.stream.isAtEnd = false := by
  intro f hf
  refine f.stream.isAtEnd_eq_false_iff.mpr (h.unread f ?_)
  rw [frames]
  cases below : s.below with
  | nil =>
    rw [below] at hf
    cases hf
  | cons next rest =>
    rw [below] at hf
    exact List.mem_cons_of_mem _ hf

/-- Reading the next token keeps the stack in order. -/
theorem read_settled : Stacked main s.read.settled := by
  refine settled ?_ h.bounded h.distinct h.covered
  obtain ⟨f, last, continues⟩ := h.bottom
  -- only the top changes, and it is the main file where nothing is below it
  cases below : s.below with
  | nil =>
    rw [frames, below] at last
    obtain rfl : s.top = f := Option.some.inj last
    refine ⟨s.read.top, ?_, continues.advance⟩
    show (s.read.top :: s.below).getLast? = _
    rw [below]
    rfl
  | cons next rest =>
    refine ⟨f, ?_, continues⟩
    rw [frames, below, List.getLast?_cons_cons] at last
    show (s.read.top :: s.below).getLast? = _
    rw [below, List.getLast?_cons_cons, last]

/-- Putting a file that can be opened on top keeps the stack in order. -/
theorem push_settled {p : Settings.Preferences} {fs : File.System} {path : String} {f : Frame}
    (opened : s.openFile p fs path = .ok f) : Stacked main (s.push f).settled := by
  refine settled ?_ (length_frames_le_of_openFile opened) (nodup_openPaths_push opened h.distinct) ?_
  · obtain ⟨g, last, continues⟩ := h.bottom
    refine ⟨g, ?_, continues⟩
    show (f :: s.top :: s.below).getLast? = _
    rw [List.getLast?_cons_cons]
    exact last
  · intro g hg
    exact g.stream.isAtEnd_eq_false_iff.mpr (h.unread g hg)

/-- Every call keeps the stack in order. -/
theorem call (p : Settings.Preferences) (c : Call) : Stacked main (s.call p c) := by
  cases c with
  | advance =>
    cases advanced : s.advance with
    | none => simpa [TokenSource.call, advanced] using h
    | some step =>
      obtain ⟨token, t⟩ := step
      obtain ⟨-, -, settled⟩ := eq_of_advance advanced
      simp only [TokenSource.call, advanced, Option.map_some, Option.getD_some, settled]
      exact h.read_settled
  | goOn fs path =>
    cases pushed : s.pushInclude? p fs path with
    | error e => simpa [TokenSource.call, pushed, Except.toOption] using h
    | ok t =>
      obtain ⟨f, opened, rfl⟩ := eq_of_pushInclude? pushed
      simp only [TokenSource.call, pushed, Except.toOption, Option.getD_some]
      exact h.push_settled opened

/-- So do any calls, one after the other. -/
theorem after (p : Settings.Preferences) (calls : List Call) : Stacked main (s.after p calls) := by
  induction calls generalizing s with
  | nil => exact h
  | cons c calls ih => exact ih (h.call p c)

end Stacked

/-! ## What the calls list -/

/-- Reading lists no file as included. -/
theorem included_call_advance (p : Settings.Preferences) (s : TokenSource) :
    (s.call p .advance).included = s.included := by
  cases advanced : s.advance with
  | none => simp [call, advanced]
  | some step =>
    obtain ⟨token, t⟩ := step
    obtain ⟨-, -, rfl⟩ := eq_of_advance advanced
    simp only [call, advanced, Option.map_some, Option.getD_some]
    rfl

/-- A file that is gone on with is listed by its canonical path, once. -/
theorem exists_read_of_pushInclude? {s t : TokenSource} {p : Settings.Preferences}
    {fs : File.System} {path : String} (h : s.pushInclude? p fs path = .ok t) :
    ∃ file, File.read (.forInclude p.files) fs (s.resolve path) = .ok file ∧
      t.included = s.included ++ [file.metadata.path] := by
  obtain ⟨f, opened, listed⟩ := included_pushInclude? h
  obtain ⟨file, tokens, read, -, -, rfl⟩ := eq_of_openFile opened
  exact ⟨file, read, listed⟩

/-- A parse whose tokens cannot go on with a file ends with the tokens that it had. -/
theorem run_includeFile_of_error {p : Settings.Preferences} {fs : File.System} {path : String}
    {e : SourceError} (grammar : GrammarTable) {c : Context}
    (h : c.tokens.pushInclude? p fs path = .error e) :
    ∃ d, Matcher.includeFile path ⟨grammar, fs, p⟩ c =
        (.error (.error ⟨.ofSourceError e, c.tokens.lastLocation⟩), d) ∧ d.tokens = c.tokens := by
  refine ⟨{ c with journal := Narration.included p fs c.tokens path c.journal }, ?_, rfl⟩
  simp only [Matcher.includeFile, Matcher.run_bind, Matcher.run_read, Matcher.run_get,
    Matcher.run_modify, h]
  rfl

/-- What it means for a source that has started with one file to keep its stack. -/
structure KeepsStack (p : Settings.Preferences) (main : Frame) (s : TokenSource) : Prop
    extends Stacked main s where
  /-- Reading lists no file as included. -/
  advance : (s.call p .advance).included = s.included
  /-- A file that is gone on with is listed as included, once. -/
  goOn_ok : ∀ fs path t, s.pushInclude? p fs path = .ok t → s.call p (.goOn fs path) = t ∧
    ∃ file, File.read (.forInclude p.files) fs (s.resolve path) = .ok file ∧
      t.included = s.included ++ [file.metadata.path]
  /-- A file that cannot be gone on with changes nothing, neither for who asks the source alone nor in
  a parse that includes the file. -/
  goOn_error : ∀ fs path e, s.pushInclude? p fs path = .error e →
    s.call p (.goOn fs path) = s ∧
      ∀ (grammar : GrammarTable) (c : Context), c.tokens = s →
        ∃ d, Matcher.includeFile path ⟨grammar, fs, p⟩ c =
            (.error (.error ⟨.ofSourceError e, s.lastLocation⟩), d) ∧ d.tokens = s

/-- A source that starts with one stream, whatever is asked of it, keeps its stack. -/
theorem keepsStack_after (p : Settings.Preferences) (stream : TokenStream) (file : String)
    (path : Option String) (calls : List Call) :
    KeepsStack p ⟨stream, file, path⟩ ((ofStream stream file path).after p calls) where
  toStacked := (Stacked.ofStream stream file path).after p calls
  advance := included_call_advance p _
  goOn_ok := by
    intro fs path t pushed
    exact ⟨by rw [call, pushed]; rfl, exists_read_of_pushInclude? pushed⟩
  goOn_error := by
    intro fs path e refused
    refine ⟨by rw [call, refused]; rfl, fun grammar c same => ?_⟩
    rw [← same] at refused ⊢
    exact run_includeFile_of_error grammar refused

end TokenSource

end Planfile
