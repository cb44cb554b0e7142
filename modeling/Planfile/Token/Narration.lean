import Planfile.Token.Source

/-!
# Planfile — what is reported about tokens

Reading tokens is reported in the journal of the run: the start and the outcome of every lexical
analysis, every file that is included and every included file that has been read.
-/

namespace Planfile.Narration

open Log (Event Journal FileContext)

/-- What is reported while the text `content` of the file `name` is split into tokens. -/
def lexEvents (name content : String) (outcome : Except LexFailure (List SpannedToken)) :
    List Event :=
  let start := (Event.debug "Starting lexical analysis").detailed
    [("file", name), ("bytes", toString content.utf8ByteSize),
      ("max_tokens_allowed", toString Limits.tokenCount)]
  match outcome with
  | .error failure =>
    let e := failure.error
    [start, ((Event.error e.code "Lexical analysis failed").spanning failure.span).detailed
      [("file", name), ("line", toString e.line), ("column", toString e.column),
        ("tokens_processed", toString failure.counted)]]
  | .ok tokens =>
    let m := LexicalMetrics.ofTokens false tokens
    [start,
      (Event.success .tokenized "Tokenization completed").detailed
        [("file", name), ("tokens", toString m.totalTokens),
          ("identifiers", toString m.identifierTokens), ("literals", toString m.literalTokens),
          ("comments", toString m.commentCount)],
      (Event.debug "Token stream built").detailed
        [("total_tokens", toString tokens.length),
          ("significant_tokens", toString (tokens.filter (·.token.isSignificant)).length)]]

/-- Reports the streams that are taken off, and goes back to the file below each. -/
def settled (logIncludes : Bool) (top : Frame) (below : List Frame) (j : Journal) : Journal :=
  (exhausted top below).foldl (fun j (done, rest) =>
    let j := if logIncludes then
        j.record <| (Event.success .includeProcessed "Include processed").detailed
          [("file", done.file), ("depth", toString rest.length)]
      else j
    match rest.head?.bind (·.path) with
    | some path => j.enter ⟨path, rest.length - 1⟩
    | none => j) j

/-- Reports that the next token is read. -/
def advanced (logIncludes : Bool) (s : TokenSource) (j : Journal) : Journal :=
  settled logIncludes s.read.top s.read.below j

/-- Reports an attempt to include a file, along the steps of `TokenSource.pushInclude?`. -/
def included (p : Settings.Preferences) (fs : File.System) (s : TokenSource) (path : String)
    (j : Journal) : Journal :=
  if Limits.includeDepth < s.depth then
    j.record <| (Event.error .includeFailed "Include depth exceeded").detailed
      [("file", path), ("depth", toString s.depth)]
  else
    let resolved := s.resolve path
    let reader := File.Reader.forInclude p.files
    let outcome := File.read reader fs resolved
    let j := j.recordAll (File.readEvents reader fs resolved outcome)
    match outcome with
    | .error _ => j
    | .ok file =>
      let canonical := file.metadata.path
      -- the text of an open file is not looked at again
      if s.isOpen canonical then
        j.record <| (Event.error .includeFailed "Recursive include").detail "file" canonical
      else
        let tokens := Lexer.lex p.lexical.countComments file.content.toList
        let j := j.recordAll (lexEvents canonical file.content tokens)
        match s.openFile p fs path with
        | .error _ => j
        | .ok frame =>
          let j := if p.parser.logIncludes then
              j.record <| (Event.info "Include pushed").detailed
                [("file", resolved), ("depth", toString (s.depth + 1))]
            else j
          settled p.parser.logIncludes frame s.frames (j.enter ⟨canonical, s.depth⟩)

end Planfile.Narration
