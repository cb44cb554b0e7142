import Planfile.Proofs.Source.Pasting

/-!
# Planfile — a stack of files read as one list

However files are nested, the parser sees one list of tokens: those that are left in the file on top,
then those that are left in the file below it, and so on. The list is kept with the file of each
token, so that it also says where a token stands. Two calls change it. Reading takes its head away,
and going on with a file puts the tokens of the file before it.

A file on top that has nothing more to give would make the end of the text be seen too early. The
invariant is that only the main file can be on top at its end (`TokenSource.EndsInMain`): each call
keeps it, because each takes off exhausted streams before it is done.

Main results:

* `TokenSource.advance_of_remaining` — the head of the list is what is read, and nothing else.
* `TokenSource.remaining_of_pushInclude?` — the tokens of a file are put before the list.
* `TokenSource.readsAsList_after` — after any calls, the source reads like its list.
-/

namespace Planfile

/-- The tokens of a file that are still to be read, each with the name of the file. -/
def Frame.remaining (f : Frame) : List (String × SpannedToken) :=
  f.stream.remaining.map (f.file, ·)

/-- A file that has nothing to be read is at its end, and the other way round. -/
theorem Frame.remaining_eq_nil_iff (f : Frame) :
    f.remaining = [] ↔ f.stream.isAtEnd = true := by
  rw [remaining, List.map_eq_nil_iff, TokenStream.remaining, TokenStream.isAtEnd,
    TokenStream.current]
  cases f.stream.ahead with
  | nil => simp
  | cons t ahead => cases h : t.token.isEof <;> simp [h]

namespace TokenSource

/-- The tokens that are still to be read, each with the name of its file. -/
def remaining (s : TokenSource) : List (String × SpannedToken) := s.frames.flatMap (·.remaining)

/-- Without the places they stand at, the tokens are those that the parse goes through. -/
theorem map_remaining (s : TokenSource) : s.remaining.map (·.2.token) = s.rest := by
  rw [remaining, rest, List.map_flatMap]
  congr 1
  funext f
  rw [Frame.remaining, List.map_map, TokenStream.rest_eq]
  rfl

/-- Taking off exhausted streams takes no token away. -/
theorem remaining_settled (s : TokenSource) : s.settled.remaining = s.remaining :=
  flatMap_settled (fun f => f.remaining_eq_nil_iff.mpr) s

/-- Whether a stream on top that is at its end is that of the main file. -/
def EndsInMain (s : TokenSource) : Prop := s.top.stream.isAtEnd = true → s.below = []

theorem endsInMain_settled (s : TokenSource) : s.settled.EndsInMain := below_settled s

/-- If the main file is the only one at its end, then nothing is left when the end is seen. -/
theorem EndsInMain.remaining_eq_nil_iff {s : TokenSource} (h : s.EndsInMain) :
    s.remaining = [] ↔ s.top.stream.isAtEnd = true := by
  constructor
  · intro nothing
    have top : s.top.remaining = [] :=
      List.flatMap_eq_nil_iff.mp nothing s.top List.mem_cons_self
    exact s.top.remaining_eq_nil_iff.mp top
  · intro atEnd
    rw [remaining, frames, h atEnd, List.flatMap_singleton]
    exact s.top.remaining_eq_nil_iff.mpr atEnd

/-- The head of the list is the current token of the file on top. -/
theorem EndsInMain.head_of_remaining {s : TokenSource} (h : s.EndsInMain) {file : String}
    {token : SpannedToken} {rest : List (String × SpannedToken)}
    (ahead : s.remaining = (file, token) :: rest) :
    s.top.stream.ahead.head? = some token ∧ token.token.isEof = false ∧ s.top.file = file := by
  have notAtEnd : ¬ s.top.stream.isAtEnd = true := by
    rw [← h.remaining_eq_nil_iff, ahead]
    exact List.cons_ne_nil _ _
  -- so the file on top has a token, and the list starts with it
  cases current : s.top.stream.ahead with
  | nil => exact absurd (by rw [TokenStream.isAtEnd, TokenStream.current, current]; rfl) notAtEnd
  | cons first behind =>
    have notEof : first.token.isEof = false := by
      rw [TokenStream.isAtEnd, TokenStream.current, current] at notAtEnd
      simpa using notAtEnd
    have starts : s.remaining = (s.top.file, first) ::
        ((behind.takeWhile (!·.token.isEof)).map (s.top.file, ·) ++
          s.below.flatMap (·.remaining)) := by
      simp only [remaining, frames, List.flatMap_cons, Frame.remaining, TokenStream.remaining,
        current, List.takeWhile_cons, notEof, Bool.not_false, if_true, List.map_cons,
        List.cons_append]
    rw [starts] at ahead
    obtain ⟨same, -⟩ := List.cons.inj ahead
    obtain ⟨rfl, rfl⟩ := Prod.mk.inj same
    exact ⟨rfl, notEof, rfl⟩

/-! ## Calls -/

/-- Reading takes the head of the list away. -/
theorem remaining_of_advance {s t : TokenSource} {token : SpannedToken}
    (h : s.advance = some (token, t)) : s.remaining = (s.top.file, token) :: t.remaining := by
  obtain ⟨ahead, notEof, rfl⟩ := eq_of_advance h
  obtain ⟨behind, stream⟩ := List.head?_eq_some_iff.mp ahead
  rw [remaining_settled]
  simp only [remaining, frames, List.flatMap_cons, read, Frame.remaining, TokenStream.remaining,
    TokenStream.ahead_advance, stream, List.tail_cons, List.takeWhile_cons, notEof, Bool.not_false,
    if_true, List.map_cons, List.cons_append]

/-- The head of the list is read and taken away, one more token is counted, and the place that is
noted is that of the token, wherever the next one stands. -/
theorem advance_of_remaining {s : TokenSource} (h : s.EndsInMain) {file : String}
    {token : SpannedToken} {rest : List (String × SpannedToken)}
    (ahead : s.remaining = (file, token) :: rest) :
    ∃ t, s.advance = some (token, t) ∧ t.remaining = rest ∧ t.consumed = s.consumed + 1 ∧
      t.lastLocation = .ofPosition file token.span.start := by
  obtain ⟨first, notEof, rfl⟩ := h.head_of_remaining ahead
  have advanced := advance_of_head? first notEof
  have shorter := remaining_of_advance advanced
  rw [ahead] at shorter
  refine ⟨_, advanced, (List.cons.inj shorter).2.symm, rfl, ?_⟩
  -- the place is noted before streams are taken off
  have noted : s.read.settled.lastLocation = s.location := rfl
  rw [noted, location, show s.peekSpanned = some token from first]

/-- Nothing is read where nothing is left. -/
theorem advance_of_remaining_nil {s : TokenSource} (h : s.remaining = []) : s.advance = none := by
  cases advanced : s.advance with
  | none => rfl
  | some step =>
    obtain ⟨token, t⟩ := step
    have nonempty := remaining_of_advance advanced
    rw [h] at nonempty
    cases nonempty

/-- The next token is the head of the list; the end of the text is next where nothing is left. -/
theorem EndsInMain.peek {s : TokenSource} (h : s.EndsInMain) :
    s.peek = (s.remaining.head?.map (·.2.token)).getD .eof := by
  cases ahead : s.remaining with
  | cons first rest =>
    obtain ⟨file, token⟩ := first
    obtain ⟨head, -, -⟩ := h.head_of_remaining ahead
    rw [TokenSource.peek, show s.peekSpanned = some token from head]
    rfl
  | nil =>
    have atEnd := h.remaining_eq_nil_iff.mp ahead
    rw [TokenStream.isAtEnd] at atEnd
    rw [TokenSource.peek, peekSpanned]
    cases current : s.top.stream.current with
    | none => rfl
    | some token =>
      rw [current] at atEnd
      cases shown : token.token with
      | eof => simpa using shown
      | _ => simp [shown, Token.isEof] at atEnd

/-- The end of the text is next exactly where nothing is left. -/
theorem EndsInMain.peek_eq_eof_iff {s : TokenSource} (h : s.EndsInMain) :
    s.peek = .eof ↔ s.remaining = [] := by
  rw [h.peek]
  cases ahead : s.remaining with
  | nil => simp
  | cons first rest =>
    obtain ⟨file, token⟩ := first
    obtain ⟨-, notEof, -⟩ := h.head_of_remaining ahead
    have other : token.token ≠ .eof := by
      intro eof
      rw [eof] at notEof
      cases notEof
    simpa using other

/-- Going on with a file puts its tokens before the list, and counts none of them. -/
theorem remaining_of_pushInclude? {s t : TokenSource} {p : Settings.Preferences}
    {fs : File.System} {path : String} (h : s.pushInclude? p fs path = .ok t) :
    ∃ file tokens, File.read (.forInclude p.files) fs (s.resolve path) = .ok file ∧
      Lexer.lex p.lexical.countComments file.content.toList = .ok tokens ∧
      t.remaining = (tokens.filter fun token =>
          token.token.isSignificant && !token.token.isEof).map (s.resolve path, ·) ++ s.remaining ∧
      t.consumed = s.consumed := by
  obtain ⟨f, opened, rfl⟩ := eq_of_pushInclude? h
  obtain ⟨file, tokens, read, -, lexed, rfl⟩ := eq_of_openFile opened
  refine ⟨file, tokens, read, lexed, ?_, rfl⟩
  have given := TokenStream.remaining_ofTokens lexed (some ⟨file.metadata.path, file.content⟩)
  rw [readable] at given
  rw [remaining_settled, ← given]
  rfl

/-! ## Runs -/

/-- What can be asked of a source. -/
inductive Call where
  /-- Read the next token. -/
  | advance
  /-- Go on with a file, as it stands in the file system at that time. -/
  | goOn (fs : File.System) (path : String)

/-- The source after a call; one that fails leaves the source as it is. -/
def call (p : Settings.Preferences) (s : TokenSource) : Call → TokenSource
  | .advance => (s.advance.map (·.2)).getD s
  | .goOn fs path => (s.pushInclude? p fs path).toOption.getD s

/-- The source after some calls, one after the other. -/
def after (p : Settings.Preferences) (s : TokenSource) (calls : List Call) : TokenSource :=
  calls.foldl (call p) s

/-- What it means for a source to read like one list. -/
structure ReadsAsList (p : Settings.Preferences) (s : TokenSource) : Prop where
  /-- The next token is the head of the list. -/
  peek : s.peek = (s.remaining.head?.map (·.2.token)).getD .eof
  /-- The end of the text is next exactly where nothing is left. -/
  peek_eof : s.peek = .eof ↔ s.remaining = []
  /-- Where nothing is left, nothing is read. -/
  advance_nil : s.remaining = [] → s.advance = none ∧ s.call p .advance = s
  /-- The head of the list is read and taken away, one token more is counted, and its place is the
  last one read. -/
  advance_cons : ∀ file token rest, s.remaining = (file, token) :: rest →
    ∃ t, s.advance = some (token, t) ∧ s.call p .advance = t ∧ t.remaining = rest ∧
      t.consumed = s.consumed + 1 ∧ t.lastLocation = .ofPosition file token.span.start
  /-- A file that is gone on with has its significant tokens put before the list, without the end of
  the text. -/
  goOn_ok : ∀ fs path t, s.pushInclude? p fs path = .ok t → s.call p (.goOn fs path) = t ∧
    ∃ file tokens, File.read (.forInclude p.files) fs (s.resolve path) = .ok file ∧
      Lexer.lex p.lexical.countComments file.content.toList = .ok tokens ∧
      t.remaining = (tokens.filter fun token =>
          token.token.isSignificant && !token.token.isEof).map (s.resolve path, ·) ++ s.remaining ∧
      t.consumed = s.consumed
  /-- A file that cannot be gone on with changes nothing. -/
  goOn_error : ∀ fs path e, s.pushInclude? p fs path = .error e →
    s.call p (.goOn fs path) = s

variable {p : Settings.Preferences}

/-- Every call leaves only the main file on top at its end. -/
theorem endsInMain_call {s : TokenSource} (h : s.EndsInMain) (c : Call) :
    (s.call p c).EndsInMain := by
  cases c with
  | advance =>
    cases advanced : s.advance with
    | none => simpa [call, advanced] using h
    | some step =>
      obtain ⟨token, t⟩ := step
      obtain ⟨-, -, settled⟩ := eq_of_advance advanced
      simp only [call, advanced, Option.map_some, Option.getD_some, settled]
      exact endsInMain_settled _
  | goOn fs path =>
    cases pushed : s.pushInclude? p fs path with
    | error e => simpa [call, pushed, Except.toOption] using h
    | ok t =>
      obtain ⟨f, -, rfl⟩ := eq_of_pushInclude? pushed
      simp only [call, pushed, Except.toOption, Option.getD_some]
      exact endsInMain_settled _

theorem endsInMain_after {s : TokenSource} (h : s.EndsInMain) (calls : List Call) :
    (s.after p calls).EndsInMain := by
  induction calls generalizing s with
  | nil => exact h
  | cons c calls ih => exact ih (endsInMain_call h c)

/-- Where only the main file can be on top at its end, the source reads like its list. -/
theorem EndsInMain.readsAsList {s : TokenSource} (h : s.EndsInMain) : s.ReadsAsList p where
  peek := h.peek
  peek_eof := h.peek_eq_eof_iff
  advance_nil := by
    intro nothing
    have none := advance_of_remaining_nil nothing
    exact ⟨none, by rw [call, none]; rfl⟩
  advance_cons := by
    intro file token rest ahead
    obtain ⟨t, advanced, left, counted, noted⟩ := advance_of_remaining h ahead
    exact ⟨t, advanced, by rw [call, advanced]; rfl, left, counted, noted⟩
  goOn_ok := by
    intro fs path t pushed
    exact ⟨by rw [call, pushed]; rfl, remaining_of_pushInclude? pushed⟩
  goOn_error := by
    intro fs path e refused
    rw [call, refused]
    rfl

/-- A source that starts with one stream, whatever is asked of it, reads like the list of all tokens
that are left in its files. -/
theorem readsAsList_after (p : Settings.Preferences) (stream : TokenStream) (file : String)
    (path : Option String) (calls : List Call) :
    ((ofStream stream file path).after p calls).ReadsAsList p := by
  have start : (ofStream stream file path).EndsInMain := fun _ => rfl
  exact (endsInMain_after start calls).readsAsList

end TokenSource

end Planfile
