import Planfile.Token.Source

/-!
# Planfile — the stack of included files

A parse changes its tokens in two ways only: it reads the next one, and it goes on with the tokens of
an included file. `TokenSource.Reaches` says what can be reached from a source in this way. What is
shown of each step holds of all of it.

Main results:

* `settle_suffix` — taking off exhausted streams leaves an end of the stack.
* `TokenSource.nodup_openPaths` — no file is open twice.
-/

namespace Planfile

/-- Taking off exhausted streams leaves an end of the stack. -/
theorem settle_suffix (top : Frame) (below : List Frame) :
    (settle top below).1 :: (settle top below).2 <:+ top :: below := by
  induction below generalizing top with
  | nil => exact List.suffix_refl _
  | cons next below ih =>
    rw [settle]
    split
    · exact (ih next).trans (List.suffix_cons top (next :: below))
    · exact List.suffix_refl _

/-- A stream that has something more to give is not taken off. -/
theorem settle_of_not_isAtEnd {top : Frame} (h : top.stream.isAtEnd = false) (below : List Frame) :
    settle top below = (top, below) := by
  cases below with
  | nil => rfl
  | cons next below => simp [settle, h]

namespace TokenSource

/-- What a parse can make of the tokens that it starts with. -/
inductive Reaches (p : Settings.Preferences) (fs : File.System) (start : TokenSource) :
    TokenSource → Prop
  | start : Reaches p fs start start
  | advance {s t : TokenSource} {token : SpannedToken} (h : Reaches p fs start s)
      (ha : s.advance = some (token, t)) : Reaches p fs start t
  | goOn {s t : TokenSource} {path : String} (h : Reaches p fs start s)
      (hi : s.pushInclude? p fs path = .ok t) : Reaches p fs start t

/-- The canonical paths of the files that are being read, the topmost first. -/
def openPaths (s : TokenSource) : List String := s.frames.filterMap (·.path)

/-- A file is being read if its path is among those of the streams. -/
theorem isOpen_iff (s : TokenSource) (canonical : String) :
    s.isOpen canonical = true ↔ canonical ∈ s.openPaths := by
  simp [isOpen, openPaths]

/-! ## Steps -/

/-- Taking off exhausted streams opens no file. -/
theorem openPaths_settled_sublist (s : TokenSource) :
    s.settled.openPaths.Sublist s.openPaths :=
  (settle_suffix s.top s.below).sublist.filterMap _

/-- A token is read, and then exhausted streams are taken off. -/
theorem eq_of_advance {s t : TokenSource} {token : SpannedToken}
    (h : s.advance = some (token, t)) :
    s.top.stream.ahead.head? = some token ∧ token.token.isEof = false ∧ t = s.read.settled := by
  unfold advance at h
  split at h
  · next next hp =>
    split at h
    · cases h
    · next notEof =>
      cases h
      exact ⟨hp, by simpa using notEof, rfl⟩
  · cases h

/-- A token that is not the end of the text can be read. -/
theorem advance_of_head? {s : TokenSource} {token : SpannedToken}
    (h : s.top.stream.ahead.head? = some token) (ht : token.token.isEof = false) :
    s.advance = some (token, s.read.settled) := by
  have next : s.peekSpanned = some token := h
  simp [advance, next, ht]

/-- A file that can be opened can be read, is not open yet, and has tokens. -/
theorem eq_of_openFile {s : TokenSource} {p : Settings.Preferences} {fs : File.System}
    {path : String} {f : Frame} (h : s.openFile p fs path = .ok f) :
    ∃ file tokens, File.read (.forInclude p.files) fs (s.resolve path) = .ok file ∧
      s.isOpen file.metadata.path = false ∧
      Lexer.lex p.lexical.countComments file.content.toList = .ok tokens ∧
      f = ⟨.ofTokens tokens (some ⟨file.metadata.path, file.content⟩), s.resolve path,
        some file.metadata.path⟩ := by
  unfold openFile at h
  simp only [bind, Except.bind, pure, Except.pure] at h
  split at h
  · cases h
  · split at h
    · cases h
    · next file read =>
      split at h
      · cases h
      · next closed =>
        split at h
        · cases h
        · next tokens lexed =>
          cases h
          exact ⟨file, tokens, read, by simpa using closed, lexed, rfl⟩

/-- A file that is included was not open before, and is then the topmost one. -/
theorem openPaths_of_openFile {s : TokenSource} {p : Settings.Preferences} {fs : File.System}
    {path : String} {f : Frame} (h : s.openFile p fs path = .ok f) :
    ∃ canonical, f.path = some canonical ∧ canonical ∉ s.openPaths := by
  obtain ⟨file, tokens, -, closed, -, rfl⟩ := eq_of_openFile h
  refine ⟨file.metadata.path, rfl, ?_⟩
  rw [← isOpen_iff, closed]
  exact Bool.false_ne_true

/-- Of a single stream, no file is open twice. -/
theorem nodup_openPaths_single {s : TokenSource} (h : s.below = []) : s.openPaths.Nodup := by
  have one : s.openPaths = s.top.path.toList := by
    simp [openPaths, frames, h, List.filterMap_cons]
    cases s.top.path <;> rfl
  rw [one]
  cases s.top.path <;> simp

/-- A file that is put on top is open no more than once, if no other one is. -/
theorem nodup_openPaths_push {s : TokenSource} {p : Settings.Preferences} {fs : File.System}
    {path : String} {f : Frame} (h : s.openFile p fs path = .ok f) (hs : s.openPaths.Nodup) :
    (s.push f).openPaths.Nodup := by
  obtain ⟨canonical, named, fresh⟩ := openPaths_of_openFile h
  have pushed : (s.push f).openPaths = canonical :: s.openPaths := by
    simp [openPaths, frames, push, named]
  rw [pushed]
  exact List.nodup_cons.mpr ⟨fresh, hs⟩

/-- Where a parse has gone on with a file, the file has been opened and put on top. -/
theorem eq_of_pushInclude? {s t : TokenSource} {p : Settings.Preferences} {fs : File.System}
    {path : String} (h : s.pushInclude? p fs path = .ok t) :
    ∃ f, s.openFile p fs path = .ok f ∧ t = (s.push f).settled := by
  unfold pushInclude? at h
  cases hf : s.openFile p fs path with
  | error e => simp [hf, Except.map] at h
  | ok f =>
    simp only [hf, Except.map, Except.ok.injEq] at h
    exact ⟨f, rfl, h.symm⟩

/-! ## Runs -/

/-- No file is open twice, wherever a parse gets from a single stream. -/
theorem nodup_openPaths {p : Settings.Preferences} {fs : File.System} {start s : TokenSource}
    (hs : start.below = []) (h : Reaches p fs start s) : s.openPaths.Nodup := by
  induction h with
  | start => exact nodup_openPaths_single hs
  | advance _ ha ih =>
    obtain ⟨_, _, rfl⟩ := eq_of_advance ha
    exact ih.sublist (openPaths_settled_sublist _)
  | goOn _ hi ih =>
    rename_i s t path _
    obtain ⟨f, hf, rfl⟩ := eq_of_pushInclude? hi
    exact (nodup_openPaths_push hf ih).sublist (openPaths_settled_sublist _)

end TokenSource

end Planfile
