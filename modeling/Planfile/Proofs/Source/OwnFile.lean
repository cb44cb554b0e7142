import Planfile.Proofs.Matching.Reading
import Planfile.Proofs.Source.IncludeStack

/-!
# Planfile — the file an include statement stands in

The path of an include statement is meant relative to the directory of the file that the statement
stands in, and that file must not include itself. Both are looked up in the topmost stream when the
statement has been read. By then the stream has been taken off if nothing follows the statement, and
what is looked at is a file that includes it.

Main results:

* `TokenSource.treatsAsOwn_iff` — a file is treated as the one of the statement if it is on top.
* `Matcher.run_includeStatement` — when a statement is performed it has been read.
* `Matcher.includeStatement_iff` — the statements that belong to the file they stand in.
-/

namespace Planfile

namespace TokenSource

/-- A path as it is meant in a file. -/
def resolveIn (own path : String) : String :=
  match File.Path.parent? own with
  | some directory => File.Path.join directory path
  | none => path

/-- Whether an include statement that is performed now belongs to the file `own`: its path is meant
relative to the directory of the file, and a path that leads to the file itself is refused. -/
def TreatsAsOwn (s : TokenSource) (own : String) : Prop :=
  (∀ path, s.resolve path = resolveIn own path) ∧
    ∀ (p : Settings.Preferences) (fs : File.System) (path : String) (file : File.SourceFile),
      File.read (.forInclude p.files) fs (s.resolve path) = .ok file → file.metadata.path = own →
      s.openFile p fs path = .error (.recursiveInclude own)

/-! ## What is looked up -/

/-- A path is meant relative to the file on top. -/
theorem resolve_of_path {s : TokenSource} {own : String} (h : s.top.path = some own)
    (path : String) : s.resolve path = resolveIn own path := by
  rw [resolve, h, Option.bind_some]
  rfl

/-- A file that is open is refused if not too many are. -/
theorem openFile_of_isOpen {s : TokenSource} {p : Settings.Preferences} {fs : File.System}
    {path : String} {file : File.SourceFile} (hd : s.depth ≤ Limits.includeDepth)
    (hr : File.read (.forInclude p.files) fs (s.resolve path) = .ok file)
    (ho : s.isOpen file.metadata.path = true) :
    s.openFile p fs path = .error (.recursiveInclude file.metadata.path) := by
  have room : ¬Limits.includeDepth < s.depth := by omega
  simp [openFile, hr, ho, room, bind, Except.bind, throw, throwThe, MonadExceptOf.throw]

/-- Only a file that is open is refused as including itself, and only if not too many are open. -/
theorem isOpen_of_openFile {s : TokenSource} {p : Settings.Preferences} {fs : File.System}
    {path own : String} (h : s.openFile p fs path = .error (.recursiveInclude own)) :
    s.isOpen own = true ∧ s.depth ≤ Limits.includeDepth := by
  unfold openFile at h
  simp only [bind, Except.bind, pure, Except.pure] at h
  split at h
  · cases h
  · next room =>
    split at h
    · cases h
    · split at h
      · next ho =>
        cases h
        refine ⟨ho, ?_⟩
        by_cases deep : Limits.includeDepth < s.depth
        · simp [deep] at room
        · omega
      · split at h
        · cases h
        · cases h

/-- Files of any name that are all one and the same file. -/
def oneFile (canonical text : String) : File.System :=
  ⟨fun _ => some ⟨canonical, .file text.toByteArray⟩⟩

/-- Settings by which a file may have any name. -/
def anyName : Settings.Preferences :=
  { Settings.Preferences.default with
    files := { Settings.Preferences.default.files with requireExtension := false } }

/-- Any name but the empty one leads to the file. -/
theorem read_oneFile (canonical text : String) {path : String} (h : path ≠ "")
    (size : text.utf8ByteSize ≤ Limits.fileSize) (lines : File.countLines text ≤ Limits.lineCount) :
    File.read (.forInclude anyName.files) (oneFile canonical text) path =
      .ok ⟨text, { File.metadataOf canonical text.utf8ByteSize with
        lineCount := File.countLines text }⟩ := by
  have found : File.find (oneFile canonical text) path =
      .ok (canonical, text.utf8ByteSize, .ok text.toByteArray) := by
    simp [File.find, oneFile, h]
  have small : ¬Limits.fileSize < (File.metadataOf canonical text.utf8ByteSize).size :=
    Nat.not_lt.mpr size
  have decoded : String.fromUTF8? text.toByteArray = some text := by
    rw [String.fromUTF8?, dif_pos text.isValidUTF8]
    rfl
  have short : ¬Limits.lineCount < File.countLines text := Nat.not_lt.mpr lines
  simp [File.read, found, small, decoded, short, File.Reader.forInclude, File.Reader.forProject,
    anyName, bind, Except.bind, pure, Except.pure]

/-- A path from the root is meant as it is, in whatever file. -/
theorem resolve_root (s : TokenSource) : s.resolve "/" = "/" := by
  unfold resolve
  split
  · exact File.Path.join_absolute (by decide +kernel)
  · rfl

/-- A file is treated as the one that the statement stands in exactly if it is being read, paths are
meant relative to it, and not too many files are open for another one. -/
theorem treatsAsOwn_iff (s : TokenSource) (own : String) :
    s.TreatsAsOwn own ↔
      (∀ path, s.resolve path = resolveIn own path) ∧ s.isOpen own = true ∧
        s.depth ≤ Limits.includeDepth := by
  refine ⟨fun ⟨resolves, refuses⟩ => ⟨resolves, ?_⟩, fun ⟨resolves, ho, hd⟩ => ⟨resolves, ?_⟩⟩
  · -- among files that are all the same, any path leads to the file itself
    have named : s.resolve "/" ≠ "" := by
      rw [resolve_root]
      decide
    have read := read_oneFile own "" named (by decide)
      (by decide)
    exact isOpen_of_openFile (refuses anyName (oneFile own "") "/" _ read rfl)
  · intro p fs path file hr named
    subst named
    exact openFile_of_isOpen hd hr ho

/-! ## Reading the statement -/

/-- The tokens when an include statement has been read: two tokens, and behind each the streams that
have nothing more to give are taken off. -/
def behindStatement (s : TokenSource) : TokenSource := s.read.settled.read.settled

section
variable {s : TokenSource} {keyword path : SpannedToken} {rest : List SpannedToken}

/-- The tokens behind the next one. -/
theorem ahead_read (h : s.top.stream.ahead = keyword :: rest) :
    s.read.top.stream.ahead = rest := by
  show s.top.stream.advance.ahead = rest
  rw [TokenStream.ahead_advance, h, List.tail_cons]

/-- A file in which something follows stays on top. -/
theorem settled_of_ahead (h : s.top.stream.ahead = path :: rest) (hp : path.token.isEof = false) :
    s.settled = s := by
  have more : s.top.stream.isAtEnd = false := by
    simp [TokenStream.isAtEnd, TokenStream.current, h, hp]
  rw [settled, settle_of_not_isAtEnd more]

/-- Between the keyword and the path nothing is taken off. -/
theorem behindStatement_eq (h : s.top.stream.ahead = keyword :: path :: rest)
    (hp : path.token.isEof = false) : s.behindStatement = s.read.read.settled := by
  rw [behindStatement, settled_of_ahead (ahead_read h) hp]

/-- If something follows the statement, its file is still on top, and so it is if there is no other
file below. -/
theorem frames_behindStatement (h : s.top.stream.ahead = keyword :: path :: rest)
    (hp : path.token.isEof = false)
    (hr : s.below = [] ∨ rest.head?.all (·.token.isEof) = false) :
    s.behindStatement = s.read.read := by
  rw [behindStatement_eq h hp]
  rcases hr with bottom | follows
  · have settled : settle s.read.read.top s.read.read.below = (s.read.read.top, []) := by
      rw [show s.read.read.below = [] from bottom, settle]
    rw [TokenSource.settled, settled]
    exact congrArg (fun below => { s.read.read with below := below }) bottom.symm
  · have more : s.read.read.top.stream.isAtEnd = false := by
      have behind : s.read.read.top.stream.ahead = rest := ahead_read (ahead_read h)
      rwa [TokenStream.isAtEnd, TokenStream.current, behind]
    rw [TokenSource.settled, settle_of_not_isAtEnd more]

/-- If nothing follows the statement, its file has been taken off in favour of those below. -/
theorem behindStatement_of_last (h : s.top.stream.ahead = keyword :: path :: rest)
    (hp : path.token.isEof = false) {next : Frame} {below : List Frame}
    (hb : s.below = next :: below) (hr : rest.head?.all (·.token.isEof) = true) :
    s.behindStatement =
      { s.read.read with top := (settle next below).1, below := (settle next below).2 } := by
  have atEnd : s.read.read.top.stream.isAtEnd = true := by
    have behind : s.read.read.top.stream.ahead = rest := ahead_read (ahead_read h)
    rwa [TokenStream.isAtEnd, TokenStream.current, behind]
  have taken : settle s.read.read.top s.read.read.below = settle next below := by
    rw [show s.read.read.below = next :: below from hb, settle, if_pos atEnd]
  rw [behindStatement_eq h hp, TokenSource.settled, taken]

/-- Then only files below it are open. -/
theorem openPaths_behindStatement (h : s.top.stream.ahead = keyword :: path :: rest)
    (hp : path.token.isEof = false) {next : Frame} {below : List Frame}
    (hb : s.below = next :: below) (hr : rest.head?.all (·.token.isEof) = true) :
    s.behindStatement.openPaths.Sublist (s.below.filterMap (·.path)) := by
  rw [behindStatement_of_last h hp hb hr, hb]
  exact (settle_suffix next below).sublist.filterMap _

end

/-- A main file that includes a file below another directory. -/
def includingMain : TokenSource :=
  .ofStream (.ofTokens
    ([.id "include", .string "part/last.tji", .id "task", .eof].map fun t => ⟨t, ⟨.start, .start⟩⟩)
    none) "main.tjp" (some "/plans/main.tjp")

end TokenSource

namespace Matcher

/-- The pattern of an include statement. -/
def includeStatement : Pattern := ⟨[.literal "include", .tokenClass .string], some (.includeFile 1)⟩

/-- When an include statement is performed, its keyword and its path have been read. -/
theorem run_includeStatement (matchRule : RuleId → Matcher (Option Value)) (env : Surroundings)
    (c : Context) {keyword path : SpannedToken} {text : String} {rest : List SpannedToken}
    (h : c.tokens.top.stream.ahead = keyword :: path :: rest)
    (hk : keyword.token = .id "include") (hp : path.token = .string text) :
    ∃ journal,
      matchPattern matchRule includeStatement env c =
        (do includeFile text; return none : Matcher (Option Value)) env
          { c with tokens := c.tokens.behindStatement, journal := journal } := by
  have pathNext : (c.next env).tokens.peek = .string text := by
    have ahead : (c.next env).tokens.top.stream.ahead = path :: rest := by
      show c.tokens.read.settled.top.stream.ahead = path :: rest
      rw [TokenSource.settled_of_ahead (TokenSource.ahead_read h) (by rw [hp]; rfl),
        TokenSource.ahead_read h]
    simp [TokenSource.peek, TokenSource.peekSpanned, TokenStream.current, ahead, hp]
  have keywordNext : c.tokens.peek = .id "include" := by
    simp [TokenSource.peek, TokenSource.peekSpanned, TokenStream.current, h, hk]
  have first := run_matchSymbol_of_accepts matchRule (s := .literal "include") rfl env
    (c := c) (by rw [keywordNext]; decide)
  have second := run_matchSymbol_of_accepts matchRule (s := .tokenClass .string) rfl env
    (c := c.next env) (by rw [pathNext]; rfl)
  rw [pathNext] at second
  let event := (Log.Event.debug "Running pattern action").detail "symbols" (toString 2)
  refine ⟨((c.next env).next env).journal.record event, ?_⟩
  simp only [matchPattern, includeStatement, matchSymbols, run_bind, run_get, run_pure, first,
    second, report, run_modify, Action.perform_meaning, Action.perform]
  rfl

/-- An include statement is performed when it has been read, and then the file it stands in is
treated as such exactly if something follows the statement in the file, or no other file is below
it, and the limit on nested files leaves room for one more. -/
theorem includeStatement_iff {env : Surroundings} {start : TokenSource} (hs : start.below = [])
    {c : Context} (hc : start.Reaches env.preferences env.files c.tokens)
    {keyword path : SpannedToken} {text own : String} {rest : List SpannedToken}
    (h : c.tokens.top.stream.ahead = keyword :: path :: rest)
    (hk : keyword.token = .id "include") (hp : path.token = .string text)
    (ho : c.tokens.top.path = some own) (matchRule : RuleId → Matcher (Option Value)) :
    ∃ tokens journal,
      matchPattern matchRule includeStatement env c =
        (do includeFile text; return none : Matcher (Option Value)) env
          { c with tokens := tokens, journal := journal } ∧
      (tokens.TreatsAsOwn own ↔
        (c.tokens.below = [] ∨ rest.head?.all (·.token.isEof) = false) ∧
          c.tokens.depth ≤ Limits.includeDepth) := by
  obtain ⟨journal, run⟩ := run_includeStatement matchRule env c h hk hp
  have notEof : path.token.isEof = false := by rw [hp]; rfl
  refine ⟨_, journal, run, ?_⟩
  rw [TokenSource.treatsAsOwn_iff]
  by_cases onTop : c.tokens.below = [] ∨ rest.head?.all (·.token.isEof) = false
  · have same := TokenSource.frames_behindStatement h notEof onTop
    have top : c.tokens.behindStatement.top.path = some own := by
      rw [same]
      exact ho
    have resolves := TokenSource.resolve_of_path top
    have isOpen : c.tokens.behindStatement.isOpen own = true := by
      rw [same, TokenSource.isOpen_iff]
      exact List.mem_filterMap.mpr ⟨c.tokens.read.read.top, List.mem_cons_self, ho⟩
    have depth : c.tokens.behindStatement.depth = c.tokens.depth := by
      rw [same]
      rfl
    rw [depth]
    exact ⟨fun ⟨_, _, room⟩ => ⟨onTop, room⟩, fun ⟨_, room⟩ => ⟨resolves, isOpen, room⟩⟩
  · -- the file has been taken off, and as it is open only once, it is open no longer
    refine ⟨fun ⟨_, isOpen, _⟩ => ?_, fun ⟨fits, _⟩ => absurd fits onTop⟩
    obtain ⟨inFile, atEnd⟩ := not_or.mp onTop
    obtain ⟨next, below, hb⟩ := List.exists_cons_of_ne_nil inFile
    have left := TokenSource.openPaths_behindStatement h notEof hb (by simpa using atEnd)
    have known := left.subset ((TokenSource.isOpen_iff _ _).mp isOpen)
    have once : (own :: c.tokens.below.filterMap (·.path)).Nodup := by
      have all := TokenSource.nodup_openPaths hs hc
      rwa [TokenSource.openPaths, TokenSource.frames, List.filterMap_cons_some ho] at all
    exact absurd known (List.nodup_cons.mp once).1

/-- Surroundings without rules and without files. -/
def bareSurroundings : Surroundings := ⟨⟨#[]⟩, .empty, TokenSource.anyName⟩

/-- A statement in the middle of the main file belongs to the main file. -/
theorem includeStatement_includingMain :
    ∃ tokens journal,
      matchPattern (fun _ => return none) includeStatement bareSurroundings
          (.initial TokenSource.includingMain .silent) =
        (do includeFile "part/last.tji"; return none : Matcher (Option Value)) bareSurroundings
          { Context.initial TokenSource.includingMain .silent with
            tokens := tokens, journal := journal } ∧
      tokens.TreatsAsOwn "/plans/main.tjp" := by
  obtain ⟨tokens, journal, run, treats⟩ :=
    @includeStatement_iff bareSurroundings TokenSource.includingMain rfl
      (.initial TokenSource.includingMain .silent) .start _ _ _ _ _ rfl rfl rfl rfl
      (fun _ => return none)
  exact ⟨tokens, journal, run, treats.mpr ⟨.inr rfl, by decide⟩⟩

end Matcher

namespace TokenSource

/-- The text of a file that ends with an include statement. -/
def lastStatement : String := "include \"next.tji\""

/-- The tokens of the text. -/
theorem lex_lastStatement :
    ∃ keyword path stop : SpannedToken, keyword.token = .id "include" ∧
      path.token = .string "next.tji" ∧ stop.token = .eof ∧
      Lexer.lex anyName.lexical.countComments lastStatement.toList =
        .ok [keyword, path, stop] := by
  have found : (Lexer.lex anyName.lexical.countComments lastStatement.toList).toOption.any
      (fun tokens => tokens.map (·.token) = [.id "include", .string "next.tji", .eof]) = true := by
    decide +kernel
  generalize Lexer.lex _ _ = outcome at found ⊢
  cases outcome with
  | error e => cases found
  | ok tokens =>
    have read : tokens.map (·.token) = [.id "include", .string "next.tji", .eof] := by
      simpa [Except.toOption] using found
    obtain ⟨keyword, _, rfl, hk, read⟩ := List.map_eq_cons_iff.mp read
    obtain ⟨path, _, rfl, hp, read⟩ := List.map_eq_cons_iff.mp read
    obtain ⟨stop, _, rfl, hs, read⟩ := List.map_eq_cons_iff.mp read
    obtain rfl := List.map_eq_nil_iff.mp read
    exact ⟨keyword, path, stop, hk, hp, hs, rfl⟩

/-- An include statement at the end of a file that is included itself: its path is meant relative to
the other file. -/
theorem lastStatement_belongsElsewhere :
    ∃ s, includingMain.Reaches anyName (oneFile "/plans/part/last.tji" lastStatement) s ∧
      s.top.path = some "/plans/part/last.tji" ∧
      s.top.stream.ahead.map (·.token) = [.id "include", .string "next.tji", .eof] ∧
      s.behindStatement.resolve "next.tji" = "/plans/next.tji" ∧
      ¬s.behindStatement.TreatsAsOwn "/plans/part/last.tji" := by
  obtain ⟨keyword, path, stop, hk, hp, hs, lexed⟩ := lex_lastStatement
  let main := includingMain.behindStatement
  let frame : Frame := ⟨.ofTokens [keyword, path, stop]
    (some ⟨"/plans/part/last.tji", lastStatement⟩), main.resolve "part/last.tji",
    some "/plans/part/last.tji"⟩
  have ahead : (main.push frame).top.stream.ahead = [keyword, path, stop] := by
    simp [push, frame, TokenStream.ofTokens, hk, hp, hs, Token.isSignificant]
  have opened : main.openFile anyName (oneFile "/plans/part/last.tji" lastStatement)
      "part/last.tji" = .ok frame := by
    have named : main.resolve "part/last.tji" ≠ "" := by decide +kernel
    have read := read_oneFile "/plans/part/last.tji" lastStatement named (by decide +kernel)
      (by decide +kernel)
    have room : ¬Limits.includeDepth < main.depth := by decide
    simp only [openFile, read, room, if_false, lexed]
    rfl
  have belongs : (main.push frame).behindStatement.resolve "next.tji" = "/plans/next.tji" := by
    rw [behindStatement_of_last ahead (by rw [hp]; rfl) rfl (by simp [hs, Token.isEof])]
    have mainPath : main.top.path = some "/plans/main.tjp" := rfl
    exact (resolve_of_path mainPath "next.tji").trans (by decide +kernel)
  refine ⟨main.push frame, ?_, rfl, by simp [ahead, hk, hp, hs], belongs, fun own => ?_⟩
  · have first : includingMain.Reaches anyName (oneFile "/plans/part/last.tji" lastStatement)
        includingMain.read.settled := .advance .start (advance_of_head? rfl rfl)
    have both : includingMain.Reaches anyName (oneFile "/plans/part/last.tji" lastStatement) main :=
      .advance first (advance_of_head? rfl rfl)
    have pushed : main.pushInclude? anyName (oneFile "/plans/part/last.tji" lastStatement)
        "part/last.tji" = .ok (main.push frame) := by
      rw [pushInclude?, opened]
      exact congrArg Except.ok (settled_of_ahead ahead (by rw [hk]; rfl))
    exact .goOn both pushed
  · have elsewhere := own.1 "next.tji"
    rw [belongs] at elsewhere
    exact absurd elsewhere (by decide +kernel)

end TokenSource

end Planfile
