import Planfile.Proofs.Source.IncludeStack
import Planfile.Proofs.Token.Word

/-!
# Planfile — where the tokens of a plan stand

A place that is named in a message is that of the next token or that of the token that was read last. Both
are places where a token starts, in the main file or in one that has been included: each stream on the
stack has an end of the tokens of its file ahead, the end of the text among them.

Main results:

* `TokenSource.anchored_of_reaches` — wherever a parse gets, the streams are those of files that have been
  taken up.
* `TokenSource.Anchored.exists_next` — there is a next token, and its place is that of the source.
-/

namespace Planfile

/-- Whether a stream has tokens among some ahead that the grammar sees, up to the end of the text. -/
structure TokenStream.EndsAmong (s : TokenStream) (tokens : List SpannedToken) : Prop where
  mem : ∀ t ∈ s.ahead, t ∈ tokens ∧ t.token.isSignificant = true
  ends : ∃ before last, s.ahead = before ++ [last] ∧ last.token.isEof = true

namespace TokenStream.EndsAmong

variable {s : TokenStream} {tokens : List SpannedToken}

/-- A new stream has the tokens of its text ahead. -/
theorem ofTokens {countComments : Bool} {cs : List Char} (h : Lexer.lex countComments cs = .ok tokens)
    (source : Option SourceText) : (TokenStream.ofTokens tokens source).EndsAmong tokens := by
  obtain ⟨scanned, span, rfl, -⟩ := Lexer.eq_append_eof_of_lex h
  refine ⟨fun t ht => List.mem_filter.mp ht, scanned.filter (·.token.isSignificant), ⟨.eof, span⟩, ?_,
    rfl⟩
  rw [TokenStream.ofTokens, List.filter_append]
  rfl

/-- There is a token ahead. -/
theorem exists_current (h : s.EndsAmong tokens) :
    ∃ t, s.current = some t ∧ t ∈ tokens ∧ t.token.isSignificant = true := by
  obtain ⟨before, last, ahead, -⟩ := h.ends
  obtain ⟨t, current⟩ : ∃ t, s.ahead.head? = some t := by
    rw [ahead]
    cases before with
    | nil => exact ⟨last, rfl⟩
    | cons first _ => exact ⟨first, rfl⟩
  exact ⟨t, current, h.mem t (List.mem_of_head? current)⟩

/-- Behind a token that is not the end of the text there are others. -/
theorem advance (h : s.EndsAmong tokens) {t : SpannedToken} (current : s.current = some t)
    (notEof : t.token.isEof = false) : s.advance.EndsAmong tokens := by
  obtain ⟨before, last, ahead, eof⟩ := h.ends
  have rest : s.advance.ahead = s.ahead.tail := s.ahead_advance
  refine ⟨fun t ht => h.mem t (List.mem_of_mem_tail (rest ▸ ht)), before.tail, last, ?_, eof⟩
  rw [rest, ahead]
  cases before with
  | nil =>
    -- the end of the text would be the token that is read
    rw [TokenStream.current, ahead] at current
    cases current
    rw [eof] at notEof
    cases notEof
  | cons first before => rfl

end TokenStream.EndsAmong

namespace TokenSource

section
variable (p : Settings.Preferences) (fs : File.System) (start : TokenSource)

/-- Whether a text, by its name in messages, has been split into tokens: the main one, or that of a file
among some that have been included. -/
inductive Splits (included : List String) : String → List SpannedToken → Prop
  | main : Splits included start.top.file start.top.stream.all
  | file {name : String} {file : File.SourceFile} {tokens : List SpannedToken}
    (read : File.read (.forInclude p.files) fs name = .ok file) (listed : file.metadata.path ∈ included)
    (lexed : Lexer.lex p.lexical.countComments file.content.toList = .ok tokens) :
    Splits included name tokens

/-- Whether a token starts at a location, one that the grammar sees. The end of a text is one. -/
def StartsAt (included : List String) (l : Location) : Prop :=
  ∃ name tokens t, Splits p fs start included name tokens ∧ t ∈ tokens ∧
    t.token.isSignificant = true ∧ l = .ofPosition name t.span.start

/-- Whether the tokens ahead are those of files that have been taken up, and the token that was read last,
if there is one, is, too. -/
structure Anchored (s : TokenSource) : Prop where
  frames : ∀ f ∈ s.frames, ∃ tokens, Splits p fs start s.included f.file tokens ∧
    f.stream.EndsAmong tokens
  last : s.consumed = 0 ∨ StartsAt p fs start s.included s.lastLocation

end

section
variable {p : Settings.Preferences} {fs : File.System} {start s t : TokenSource}

/-- What has been split is split still when another file has been included. -/
theorem Splits.append {included : List String} {name : String} {tokens : List SpannedToken}
    (h : Splits p fs start included name tokens) (more : List String) :
    Splits p fs start (included ++ more) name tokens := by
  cases h with
  | main => exact .main
  | file read listed lexed => exact .file read (List.mem_append_left more listed) lexed

theorem StartsAt.append {included : List String} {l : Location} (h : StartsAt p fs start included l)
    (more : List String) : StartsAt p fs start (included ++ more) l := by
  obtain ⟨name, tokens, t, splits, mem⟩ := h
  exact ⟨name, tokens, t, splits.append more, mem⟩

namespace Anchored

/-- There is a next token. It starts at the location of the source. -/
theorem exists_next (h : Anchored p fs start s) :
    ∃ t, s.peekSpanned = some t ∧ s.location = .ofPosition s.top.file t.span.start ∧
      StartsAt p fs start s.included s.location := by
  obtain ⟨tokens, splits, ends⟩ := h.frames s.top List.mem_cons_self
  obtain ⟨t, current, mem, significant⟩ := ends.exists_current
  have next : s.peekSpanned = some t := current
  have place : s.location = .ofPosition s.top.file t.span.start := by rw [location, next]
  exact ⟨t, next, place, s.top.file, tokens, t, splits, mem, significant, place⟩

/-- Taking off exhausted streams leaves some of the streams. -/
theorem settled (h : Anchored p fs start s) : Anchored p fs start s.settled :=
  ⟨fun f hf => h.frames f ((settle_suffix s.top s.below).subset hf), h.last⟩

/-- The token that is read is the next one. -/
theorem read (h : Anchored p fs start s) {t : SpannedToken} (next : s.peekSpanned = some t)
    (notEof : t.token.isEof = false) : Anchored p fs start s.read := by
  obtain ⟨-, -, -, starts⟩ := h.exists_next
  refine ⟨fun f hf => ?_, .inr starts⟩
  rcases List.mem_cons.mp hf with rfl | below
  · obtain ⟨tokens, splits, ends⟩ := h.frames s.top List.mem_cons_self
    exact ⟨tokens, splits, ends.advance next notEof⟩
  · exact h.frames f (List.mem_cons_of_mem _ below)

/-- A file that is put on top has been split into tokens. -/
theorem push (h : Anchored p fs start s) {path : String} {f : Frame}
    (opened : s.openFile p fs path = .ok f) : Anchored p fs start (s.push f) := by
  obtain ⟨file, tokens, read, -, lexed, rfl⟩ := eq_of_openFile opened
  refine ⟨fun g hg => ?_, h.last.imp id (·.append _)⟩
  rcases List.mem_cons.mp hg with rfl | before
  · have listed : file.metadata.path ∈ s.included ++ [file.metadata.path] :=
      List.mem_append_right _ List.mem_cons_self
    exact ⟨tokens, .file read listed lexed, .ofTokens lexed _⟩
  · obtain ⟨others, splits, ends⟩ := h.frames g before
    exact ⟨others, splits.append _, ends⟩

end Anchored

/-- Wherever a parse gets, the tokens ahead are those of files that have been taken up. -/
theorem anchored_of_reaches (hs : Anchored p fs start start) (h : Reaches p fs start s) :
    Anchored p fs start s := by
  induction h with
  | start => exact hs
  | advance _ ha ih =>
    obtain ⟨next, notEof, rfl⟩ := eq_of_advance ha
    exact (ih.read next notEof).settled
  | goOn _ hi ih =>
    obtain ⟨f, opened, rfl⟩ := eq_of_pushInclude? hi
    exact (ih.push opened).settled

/-- A single stream has the tokens of its own text ahead. -/
theorem anchored_ofStream {countComments : Bool} {cs : List Char} {tokens : List SpannedToken}
    (h : Lexer.lex countComments cs = .ok tokens) (source : Option SourceText) (file : String)
    (path : Option String) :
    Anchored p fs (ofStream (.ofTokens tokens source) file path)
      (ofStream (.ofTokens tokens source) file path) := by
  refine ⟨fun f hf => ?_, .inl rfl⟩
  obtain rfl := List.mem_singleton.mp hf
  exact ⟨tokens, .main, .ofTokens h source⟩

end

end TokenSource

end Planfile
