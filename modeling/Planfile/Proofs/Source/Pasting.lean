import Planfile.Proofs.Source.IncludeStack
import Planfile.Proofs.Token.Metrics

/-!
# Planfile — pasting included files

The tokens of a plan that includes files can be put into one text: every include statement that is
performed gives way to the tokens of its file. Where a name and a string look like a statement but
are not read as one they stay, so it depends on the parse which text this is. `TokenSource.Pastes`
follows a parse from one source to another and says what is left of the tokens it has gone through;
`Pasted` says the same of plain lists of tokens.

What is pasted is not left to the source: it is what a file has to give that is read under the name in the
statement. That the source goes on with these tokens, and with no others, is `TokenSource.exists_includes`.

Main results:

* `TokenSource.exists_includes` — going on with a file puts the tokens of its text before the others.
* `TokenSource.Pastes.pasted` — what is left is the text with files in the place of statements.
* `TokenSource.Ahead.next` — a single text is read token by token.
-/

namespace Planfile

/-- Whether a text becomes another one when files take the place of include statements, those of the
files included. A file is read at the place that its statement names, as it is or from some directory, and
its tokens are those that the grammar reads of its text. -/
inductive Pasted (p : Settings.Preferences) (fs : File.System) :
    List Token → List File.SourceFile → List Token → Prop
  | done : Pasted p fs [] [] []
  | token {token : Token} {rest : List Token} {files : List File.SourceFile} {text : List Token}
    (h : Pasted p fs rest files text) : Pasted p fs (token :: rest) files (token :: text)
  | paste {path place : String} {file : File.SourceFile} {tokens : List SpannedToken} {rest : List Token}
    {files : List File.SourceFile} {text : List Token}
    (named : place = path ∨ ∃ directory, place = File.Path.join directory path)
    (read : File.read (.forInclude p.files) fs place = .ok file)
    (lexed : Lexer.lex p.lexical.countComments file.content.toList = .ok tokens)
    (h : Pasted p fs (valuesOf (readable tokens) ++ rest) files text) :
    Pasted p fs (.id "include" :: .string path :: rest) (file :: files) text

/-- The tokens of a stream that are still to be read with their spans, up to the end of the text. -/
def TokenStream.remaining (s : TokenStream) : List SpannedToken :=
  s.ahead.takeWhile (!·.token.isEof)

/-- Of a new stream, all significant tokens are left but the end of the text. -/
theorem TokenStream.remaining_ofTokens {countComments : Bool} {cs : List Char}
    {tokens : List SpannedToken} (h : Lexer.lex countComments cs = .ok tokens)
    (source : Option SourceText) :
    (ofTokens tokens source).remaining = readable tokens := by
  obtain ⟨scanned, span, rfl, notEof⟩ := Lexer.eq_append_eof_of_lex h
  have unread : ∀ t ∈ scanned.filter (·.token.isSignificant), (!t.token.isEof) = true := by
    intro t ht
    rw [notEof t (List.mem_filter.mp ht).1]
    rfl
  have ahead : (ofTokens (scanned ++ [⟨.eof, span⟩]) source).ahead =
      scanned.filter (·.token.isSignificant) ++ [⟨.eof, span⟩] := by
    rw [ofTokens, List.filter_append]
    rfl
  -- the end of the text stands behind all others, so stopping at it loses nothing
  rw [remaining, ahead, List.takeWhile_append_of_pos unread, readable, List.filter_append]
  have same : scanned.filter (fun t => t.token.isSignificant && !t.token.isEof) =
      scanned.filter (·.token.isSignificant) := by
    apply List.filter_congr
    intro t ht
    rw [notEof t ht, Bool.not_false, Bool.and_true]
  rw [same]
  rfl

/-- The tokens of a stream that are still to be read, up to the end of the text. -/
def TokenStream.rest (s : TokenStream) : List Token :=
  (s.ahead.map (·.token)).takeWhile (!·.isEof)

/-- These are the tokens that are left, without their spans. -/
theorem TokenStream.rest_eq (s : TokenStream) : s.rest = valuesOf s.remaining := by
  rw [rest, List.takeWhile_map, valuesOf, remaining]
  rfl

/-- A stream at its end has nothing to be read. -/
theorem TokenStream.rest_of_isAtEnd {s : TokenStream} (h : s.isAtEnd = true) : s.rest = [] := by
  unfold TokenStream.isAtEnd TokenStream.current at h
  unfold TokenStream.rest
  cases ahead : s.ahead with
  | nil => rfl
  | cons t rest =>
    rw [ahead] at h
    have eof : t.token.isEof = true := by simpa using h
    simp [eof]

namespace TokenSource

/-- The tokens of all streams that are still to be read, in order. -/
def rest (s : TokenSource) : List Token := s.frames.flatMap (·.stream.rest)

/-- Where a stream at its end gives nothing, taking off exhausted streams changes nothing in what
all of them give. -/
theorem flatMap_settled {β : Type} {give : Frame → List β}
    (ended : ∀ f, f.stream.isAtEnd = true → give f = []) (s : TokenSource) :
    s.settled.frames.flatMap give = s.frames.flatMap give := by
  -- by induction on the streams below, each of which may be taken off in turn
  have streams (top : Frame) (below : List Frame) :
      ((settle top below).1 :: (settle top below).2).flatMap give = (top :: below).flatMap give := by
    induction below generalizing top with
    | nil => rfl
    | cons next below ih =>
      rw [settle]
      split
      · next atEnd =>
        have first : (top :: next :: below).flatMap give =
            give top ++ (next :: below).flatMap give := List.flatMap_cons
        rw [ih, first, ended top atEnd, List.nil_append]
      · rfl
  exact streams s.top s.below

/-- Streams at their end have nothing to be read. -/
theorem rest_settled (s : TokenSource) : s.settled.rest = s.rest :=
  flatMap_settled (fun _ => TokenStream.rest_of_isAtEnd) s

/-- The token that is read was the first of those to be read. -/
theorem rest_of_advance {s t : TokenSource} {token : SpannedToken}
    (h : s.advance = some (token, t)) : s.rest = token.token :: t.rest := by
  obtain ⟨ahead, notEof, rfl⟩ := eq_of_advance h
  obtain ⟨behind, stream⟩ := List.head?_eq_some_iff.mp ahead
  rw [rest_settled]
  simp only [rest, frames, List.flatMap_cons, read, TokenStream.rest, TokenStream.ahead_advance,
    stream, List.tail_cons, List.map_cons, List.takeWhile_cons, notEof, Bool.not_false, if_true,
    List.cons_append]

theorem rest_push (s : TokenSource) (f : Frame) :
    (s.push f).settled.rest = f.stream.rest ++ s.rest := by
  rw [rest_settled]
  rfl

/-- A path that is meant in a file is as it is, or goes from the directory of the file. -/
theorem resolve_eq (s : TokenSource) (path : String) :
    s.resolve path = path ∨ ∃ directory, s.resolve path = File.Path.join directory path := by
  unfold resolve
  split
  · next directory _ => exact .inr ⟨directory, rfl⟩
  · exact .inl rfl

/-- Whether a source goes on with a file: the path leads to it from the file that is read, the tokens that the
grammar reads of its text come before those that were to be read, and the file is listed. -/
structure Includes (p : Settings.Preferences) (fs : File.System) (s : TokenSource) (path : String)
    (file : File.SourceFile) (t : TokenSource) : Prop where
  opened : s.pushInclude? p fs path = .ok t
  read : File.read (.forInclude p.files) fs (s.resolve path) = .ok file
  given : ∃ tokens, Lexer.lex p.lexical.countComments file.content.toList = .ok tokens ∧
    t.rest = valuesOf (readable tokens) ++ s.rest
  listed : t.included = s.included ++ [file.metadata.path]

/-- Where a source goes on with something, it is a file that can be read and lexed. -/
theorem exists_includes {s t : TokenSource} {p : Settings.Preferences} {fs : File.System} {path : String}
    (opened : s.pushInclude? p fs path = .ok t) : ∃ file, s.Includes p fs path file t := by
  obtain ⟨f, framed, rfl⟩ := eq_of_pushInclude? opened
  obtain ⟨file, tokens, read, -, lexed, rfl⟩ := eq_of_openFile framed
  refine ⟨file, opened, read, ⟨tokens, lexed, ?_⟩, rfl⟩
  rw [rest_push, TokenStream.rest_eq, TokenStream.remaining_ofTokens lexed]

/-! ## Following a parse -/

/-- Whether reading some tokens leads from one source to another. -/
inductive Reads : TokenSource → List Token → TokenSource → Prop
  | done (s : TokenSource) : Reads s [] s
  | token {s t u : TokenSource} {token : SpannedToken} {text : List Token}
    (h : s.advance = some (token, t)) (rest : Reads t text u) : Reads s (token.token :: text) u

/-- Whether reading some tokens, and in between performing include statements, leads from one source
to another. -/
inductive Pastes (p : Settings.Preferences) (fs : File.System) :
    TokenSource → List Token → TokenSource → Prop
  | done (s : TokenSource) : Pastes p fs s [] s
  | token {s t u : TokenSource} {token : SpannedToken} {text : List Token}
    (h : s.advance = some (token, t)) (rest : Pastes p fs t text u) :
    Pastes p fs s (token.token :: text) u
  | paste {s t u v w : TokenSource} {keyword name : SpannedToken} {path : String}
    {file : File.SourceFile} {text : List Token} (hk : s.advance = some (keyword, t))
    (isKeyword : keyword.token = .id "include") (hn : t.advance = some (name, u))
    (isName : name.token = .string path) (included : u.Includes p fs path file v)
    (rest : Pastes p fs v text w) : Pastes p fs s text w

variable {p : Settings.Preferences} {fs : File.System}

theorem Reads.single {s t : TokenSource} {token : SpannedToken} (h : s.advance = some (token, t)) :
    Reads s [token.token] t :=
  .token h (.done t)

/-- Reading goes on where it has stopped. -/
theorem Reads.append {s t u : TokenSource} {first second : List Token} (h : Reads s first t)
    (rest : Reads t second u) : Reads s (first ++ second) u := by
  induction h with
  | done s => exact rest
  | token ha _ ih => exact .token ha (ih rest)

/-- Pasting goes on where it has stopped. -/
theorem Pastes.append {s t u : TokenSource} {first second : List Token} (h : Pastes p fs s first t)
    (rest : Pastes p fs t second u) : Pastes p fs s (first ++ second) u := by
  induction h with
  | done s => exact rest
  | token ha _ ih => exact .token ha (ih rest)
  | paste hk isKeyword hn isName included _ ih =>
    exact .paste hk isKeyword hn isName included (ih rest)

/-- Nothing is pasted where tokens are only read. -/
theorem Reads.pastes {s t : TokenSource} {text : List Token} (h : Reads s text t) :
    Pastes p fs s text t := by
  induction h with
  | done s => exact .done s
  | token ha _ ih => exact .token ha ih

theorem Reads.eq_of_nil {s t : TokenSource} (h : Reads s [] t) : t = s := by
  cases h
  rfl

/-- What is read is read token by token. -/
theorem Reads.of_cons {s u : TokenSource} {token : Token} {text : List Token}
    (h : Reads s (token :: text) u) :
    ∃ first t, first.token = token ∧ s.advance = some (first, t) ∧ Reads t text u := by
  cases h with
  | token ha rest => exact ⟨_, _, rfl, ha, rest⟩

/-- What is read first is the next token. -/
theorem Reads.peek {s t : TokenSource} {token : Token} {text : List Token}
    (h : Reads s (token :: text) t) : s.peek = token := by
  cases h with
  | token ha _ =>
    obtain ⟨ahead, _, _⟩ := eq_of_advance ha
    rw [TokenSource.peek, peekSpanned, TokenStream.current, ahead]
    rfl

/-- What is left of the tokens that a parse has gone through is the text with files in the place of
statements, if it has gone through all of it. These are the files that have been listed on the way. -/
theorem Pastes.pasted {s t : TokenSource} {text : List Token} (h : Pastes p fs s text t)
    (all : t.rest = []) :
    ∃ files, Pasted p fs s.rest files text ∧
      t.included = s.included ++ files.map (·.metadata.path) := by
  induction h with
  | done s =>
    rw [all]
    exact ⟨[], .done, (List.append_nil _).symm⟩
  | token ha _ ih =>
    obtain ⟨files, pasted, listed⟩ := ih all
    rw [rest_of_advance ha]
    obtain ⟨-, -, rfl⟩ := eq_of_advance ha
    exact ⟨files, .token pasted, listed⟩
  | @paste s t u v w keyword name path file text hk isKeyword hn isName included _ ih =>
    obtain ⟨files, pasted, listed⟩ := ih all
    obtain ⟨tokens, lexed, given⟩ := included.given
    -- the tokens of the file are put before those that were to be read
    rw [given] at pasted
    rw [rest_of_advance hk, isKeyword, rest_of_advance hn, isName]
    refine ⟨file :: files, .paste (u.resolve_eq path) included.read lexed pasted, ?_⟩
    obtain ⟨-, -, rfl⟩ := eq_of_advance hk
    obtain ⟨-, -, rfl⟩ := eq_of_advance hn
    rw [listed, included.listed, List.append_assoc]
    rfl

/-- When streams at their end have been taken off, one that is left is that of the main file. -/
theorem below_settled (s : TokenSource) (h : s.settled.top.stream.isAtEnd = true) :
    s.settled.below = [] := by
  have streams (top : Frame) (below : List Frame)
      (atEnd : (settle top below).1.stream.isAtEnd = true) : (settle top below).2 = [] := by
    induction below generalizing top with
    | nil => rfl
    | cons next below ih =>
      rw [settle] at atEnd ⊢
      split
      · next ended =>
        rw [if_pos ended] at atEnd
        exact ih next atEnd
      · next more =>
        rw [if_neg more] at atEnd
        exact absurd atEnd more
  exact streams s.top s.below h

/-- Only the main file is left when a parse has come to the end of the text. -/
theorem Pastes.below_eq_nil {s t : TokenSource} {text : List Token} (h : Pastes p fs s text t)
    (start : s.below = []) (atEnd : t.top.stream.isAtEnd = true) : t.below = [] := by
  -- a weaker property than having one stream only is kept by each step
  have main : s.top.stream.isAtEnd = true → s.below = [] := fun _ => start
  clear start
  induction h with
  | done s => exact main atEnd
  | token ha _ ih =>
    obtain ⟨-, -, rfl⟩ := eq_of_advance ha
    exact ih atEnd (below_settled _)
  | paste _ _ _ _ included _ ih =>
    obtain ⟨f, -, rfl⟩ := eq_of_pushInclude? included.opened
    exact ih atEnd (below_settled _)

/-- Nothing is left to be read when a parse has come to the end of the text. -/
theorem Pastes.rest_eq_nil {s t : TokenSource} {text : List Token} (h : Pastes p fs s text t)
    (start : s.below = []) (eof : t.peek.isEof = true) : t.rest = [] := by
  have atEnd : t.top.stream.isAtEnd = true := by
    unfold peek peekSpanned at eof
    unfold TokenStream.isAtEnd
    cases current : t.top.stream.current with
    | none => rfl
    | some token =>
      rw [current] at eof
      exact eof
  rw [rest, frames, h.below_eq_nil start atEnd, List.flatMap_singleton,
    TokenStream.rest_of_isAtEnd atEnd]

/-! ## A single text -/

/-- Whether some tokens, and then the end of the text, are all that is ahead in a single stream. -/
structure Ahead (s : TokenSource) (text : List Token) : Prop where
  single : s.below = []
  tokens : s.top.stream.ahead.map (·.token) = text ++ [.eof]

/-- The first of some tokens; behind the last there is the end of the text. -/
def nextOf (text : List Token) : Token := text.headD .eof

/-- Where something is read, the text begins with the next token. -/
theorem Reads.nextOf_append {s t : TokenSource} {text : List Token} (h : Reads s text t)
    (strict : s.consumed < t.consumed) (behind : List Token) :
    nextOf (text ++ behind) = s.peek := by
  cases text with
  | nil =>
    rw [h.eq_of_nil] at strict
    exact absurd strict (Nat.lt_irrefl _)
  | cons token text => exact h.peek.symm

/-- The next token is the first one that is ahead. -/
theorem Ahead.peek {s : TokenSource} {text : List Token} (h : s.Ahead text) :
    s.peek = nextOf text := by
  have tokens := h.tokens
  rw [TokenSource.peek, peekSpanned, TokenStream.current]
  cases text with
  | nil =>
    obtain ⟨t, _, ahead, eof, -⟩ := List.map_eq_cons_iff.mp tokens
    rw [ahead]
    exact eof
  | cons token text =>
    obtain ⟨t, _, ahead, same, -⟩ := List.map_eq_cons_iff.mp tokens
    rw [ahead]
    exact same

/-- A single text is read token by token. -/
theorem Ahead.next {s : TokenSource} {token : Token} {text : List Token}
    (h : s.Ahead (token :: text)) : s.read.settled.Ahead text := by
  obtain ⟨single, tokens⟩ := h
  obtain ⟨t, behind, ahead, -, rest⟩ := List.map_eq_cons_iff.mp tokens
  -- the only stream is never taken off
  have settled : s.read.settled = s.read := by
    rw [TokenSource.settled, show s.read.below = [] from single, settle]
    exact congrArg (fun below => { s.read with below := below }) single.symm
  rw [settled]
  refine ⟨single, ?_⟩
  rw [show s.read.top.stream.ahead = behind by
    show s.top.stream.advance.ahead = behind
    rw [TokenStream.ahead_advance, ahead, List.tail_cons]]
  exact rest

end TokenSource

end Planfile
