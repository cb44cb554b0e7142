import Planfile.File.Reader
import Planfile.Log.Event
import Planfile.Source.Position
import Planfile.Token.Lexer
import Planfile.Token.Metrics
import Planfile.Token.Stream

/-!
# Planfile — tokens of a plan and its parts

A plan can include files. The parser reads one sequence of tokens: a stack of streams, of which the
topmost is read. An included stream is taken off as soon as it has nothing more to give, so the end
of the text is seen only when the main file is at its end.

Main results:

* `settle_idem` — taking off exhausted streams twice is taking them off once.
* `TokenSource.included_pushInclude?` — a file that is pushed is listed as included.
-/

namespace Planfile

/-- Why a plan's tokens cannot be read on. -/
inductive SourceError where
  | includeTooDeep (depth limit : Nat)
  | recursiveInclude (path : String)
  | file (error : File.FileError)
  | lexical (error : LexError)
  deriving DecidableEq, Repr

/-- The wording of an error. -/
def SourceError.message : SourceError → String
  | .includeTooDeep depth limit => s!"Too many nested include files: {depth} (max {limit})"
  | .recursiveInclude path => s!"Recursive inclusion of {path}"
  | .file e => e.message
  | .lexical e => e.message

/-- The code of an error. -/
def SourceError.code : SourceError → Code
  | .includeTooDeep _ _ | .recursiveInclude _ => .includeFailed
  | .file e => e.code
  | .lexical e => e.code

/-! ## The stack -/

/-- The tokens of one file. -/
structure Frame where
  stream : TokenStream
  /-- The name of the file in messages. -/
  file : String
  /-- The canonical path; a text that comes from no file has none. -/
  path : Option String

/-- Takes off streams that are at their end, but never the last one. -/
def settle : Frame → List Frame → Frame × List Frame
  | top, [] => (top, [])
  | top, next :: below => if top.stream.isAtEnd then settle next below else (top, next :: below)

/-- Taking off exhausted streams twice is taking them off once. -/
theorem settle_idem (top : Frame) (below : List Frame) :
    settle (settle top below).1 (settle top below).2 = settle top below := by
  induction below generalizing top with
  | nil => rfl
  | cons next below ih =>
    simp only [settle]
    split
    · exact ih next
    · next h => simp [settle, h]

/-- The streams that `settle` takes off, with what is below each. -/
def exhausted : Frame → List Frame → List (Frame × List Frame)
  | _, [] => []
  | top, next :: below =>
    if top.stream.isAtEnd then (top, next :: below) :: exhausted next below else []

/-- The streams of a plan. -/
structure TokenSource where
  /-- The stream that is read. -/
  top : Frame
  /-- The streams below it; the last one belongs to the main file. -/
  below : List Frame
  /-- The number of tokens read so far, over all files. -/
  consumed : Nat
  /-- Where the last token was read. -/
  lastLocation : Location
  /-- The canonical paths of all included files, in order. -/
  included : List String

namespace TokenSource

/-- A source for one stream. -/
def ofStream (stream : TokenStream) (file : String) (path : Option String) : TokenSource :=
  ⟨⟨stream, file, path⟩, [], 0, .startOf file, []⟩

/-- The number of streams. -/
def depth (s : TokenSource) : Nat := s.below.length + 1

/-- All streams, the topmost first. -/
def frames (s : TokenSource) : List Frame := s.top :: s.below

/-- The next token with its span. -/
def peekSpanned (s : TokenSource) : Option SpannedToken := s.top.stream.current

/-- The next token; behind the last token there is only the end of the text. -/
def peek (s : TokenSource) : Token := (s.peekSpanned.map (·.token)).getD .eof

/-- Where the next token stands. -/
def location (s : TokenSource) : Location :=
  match s.peekSpanned with
  | some t => .ofPosition s.top.file t.span.start
  | none => s.lastLocation

/-- The text of the file that is read. -/
def sourceText? (s : TokenSource) : Option SourceText := s.top.stream.source

/-- The source before exhausted streams are taken off, when the next token has been read. -/
def read (s : TokenSource) : TokenSource :=
  { s with
    top := { s.top with stream := s.top.stream.advance }
    consumed := s.consumed + 1
    lastLocation := s.location }

/-- The source without exhausted streams. -/
def settled (s : TokenSource) : TokenSource :=
  { s with top := (settle s.top s.below).1, below := (settle s.top s.below).2 }

/-- Reads the next token, unless the main file is at its end. -/
def advance (s : TokenSource) : Option (SpannedToken × TokenSource) :=
  match s.peekSpanned with
  -- included streams at their end have been taken off, so this end is that of the main file
  | some t => if t.token.isEof then none else some (t, s.read.settled)
  | none => none

/-! ## Including files -/

/-- A path as it is meant in the file that is read: relative to that file's directory. -/
def resolve (s : TokenSource) (path : String) : String :=
  match s.top.path.bind File.Path.parent? with
  | some directory => File.Path.join directory path
  | none => path

/-- Whether a file is being read. -/
def isOpen (s : TokenSource) (canonical : String) : Bool :=
  s.frames.any (·.path == some canonical)

/-- The frame of an included file. -/
def openFile (s : TokenSource) (p : Settings.Preferences) (fs : File.System) (path : String) :
    Except SourceError Frame := do
  if Limits.includeDepth < s.depth then throw (.includeTooDeep s.depth Limits.includeDepth)
  let resolved := s.resolve path
  match File.read (.forInclude p.files) fs resolved with
  | .error e => throw (.file e)
  | .ok file =>
    let canonical := file.metadata.path
    -- two names of one file lead to one canonical path
    if s.isOpen canonical then throw (.recursiveInclude canonical)
    match Lexer.lex p.lexical.countComments file.content.toList with
    | .error failure => throw (.lexical failure.error)
    | .ok tokens =>
      return ⟨.ofTokens tokens (some ⟨canonical, file.content⟩), resolved, some canonical⟩

/-- The source with a frame on top. -/
def push (s : TokenSource) (f : Frame) : TokenSource :=
  { s with
    top := f
    below := s.frames
    included := s.included ++ f.path.toList }

/-- Goes on with the tokens of a file, until they are read. -/
def pushInclude? (s : TokenSource) (p : Settings.Preferences) (fs : File.System)
    (path : String) : Except SourceError TokenSource :=
  (s.openFile p fs path).map fun f => (s.push f).settled

/-- A file that is pushed is listed as included. -/
theorem included_pushInclude? {s t : TokenSource} {p : Settings.Preferences} {fs : File.System}
    {path : String} (h : s.pushInclude? p fs path = .ok t) :
    ∃ f, s.openFile p fs path = .ok f ∧ t.included = s.included ++ f.path.toList := by
  unfold pushInclude? at h
  cases hf : s.openFile p fs path with
  | error e => simp [hf, Except.map] at h
  | ok f =>
    simp only [hf, Except.map, Except.ok.injEq] at h
    exact ⟨f, rfl, by rw [← h]; rfl⟩

/-! ## Opening plans -/

/-- A source for a text that comes from no file. -/
def ofText (p : Settings.LexicalPreferences) (name content : String) :
    Except SourceError TokenSource :=
  match Lexer.lex p.countComments content.toList with
  | .error failure => .error (.lexical failure.error)
  | .ok tokens => .ok (.ofStream (.ofTokens tokens (some ⟨name, content⟩)) name none)

/-- A source for the main file of a plan. -/
def ofFile (p : Settings.Preferences) (fs : File.System) (path : String) :
    Except SourceError TokenSource :=
  match File.read (.forProject p.files) fs path with
  | .error e => .error (.file e)
  | .ok file =>
    match Lexer.lex p.lexical.countComments file.content.toList with
    | .error failure => .error (.lexical failure.error)
    | .ok tokens =>
      let canonical := file.metadata.path
      .ok (.ofStream (.ofTokens tokens (some ⟨canonical, file.content⟩)) path (some canonical))

end TokenSource

end Planfile
