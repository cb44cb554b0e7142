import Planfile.Source.Text
import Planfile.Token

/-!
# Planfile — a stream of tokens

The grammar reads the significant tokens of a text one after the other. A stream keeps all tokens,
comments included, and knows which of the significant ones are still ahead.

Main results:

* `TokenStream.ahead_advance` — advancing takes exactly the current token away.
* `TokenStream.significant_ofTokens` — a new stream has all its significant tokens ahead.
-/

namespace Planfile

/-- Tokens and how many of the significant ones have been read. -/
structure TokenStream where
  /-- All tokens of the text. -/
  all : List SpannedToken
  /-- The number of significant tokens that have been read. -/
  position : Nat
  /-- The significant tokens that are still to be read. -/
  ahead : List SpannedToken
  /-- The text they were read from, if it is known. -/
  source : Option SourceText

namespace TokenStream

/-- A stream at its start. -/
def ofTokens (tokens : List SpannedToken) (source : Option SourceText) : TokenStream :=
  ⟨tokens, 0, tokens.filter (·.token.isSignificant), source⟩

/-- The tokens the grammar sees, read or not. -/
def significant (s : TokenStream) : List SpannedToken :=
  s.all.filter (·.token.isSignificant)

/-- A new stream has all its significant tokens ahead. -/
theorem significant_ofTokens (tokens : List SpannedToken) (source : Option SourceText) :
    (ofTokens tokens source).significant = (ofTokens tokens source).ahead := rfl

/-- The number of significant tokens, the end of the text included. -/
def length (s : TokenStream) : Nat := s.position + s.ahead.length

/-- The next token, which is not read by looking at it. -/
def current (s : TokenStream) : Option SpannedToken := s.ahead.head?

/-- The token `n` places behind the current one. -/
def peekAhead (s : TokenStream) (n : Nat) : Option SpannedToken := s.ahead[n]?

/-- The stream after reading the current token; at the end nothing is read. -/
def advance (s : TokenStream) : TokenStream :=
  match s.ahead with
  | [] => s
  | _ :: rest => { s with position := s.position + 1, ahead := rest }

/-- Advancing takes exactly the current token away. -/
theorem ahead_advance (s : TokenStream) : s.advance.ahead = s.ahead.tail := by
  unfold advance
  split
  · next h => simp [h]
  · next h => simp [h]

/-- Whether nothing but the end of the text is ahead. -/
def isAtEnd (s : TokenStream) : Bool := s.current.all (·.token.isEof)

/-- Whether the last significant token is the end of the text. -/
def hasEof (s : TokenStream) : Bool := s.significant.getLast?.any (·.token.isEof)

/-- Where the stream stands, for messages to developers. -/
def diagnostic (s : TokenStream) : String :=
  let current := match s.current with
    | some t => s!"'{t.token.text}' at {t.span.text}"
    | none => "<EOF>"
  s!"TokenStream(pos: {s.position}/{s.length}, current: {current})"

end TokenStream

/-! ## Building streams -/

/-- Tokens in reverse and the place where the next one starts. -/
structure TokenStreamBuilder where
  tokens : List SpannedToken
  next : Position

namespace TokenStreamBuilder

/-- Nothing yet. -/
def empty : TokenStreamBuilder := ⟨[], .start⟩

/-- Adds a token that stands in the text as `text` with one space behind it. -/
def push (b : TokenStreamBuilder) (token : Token) (text : String) : TokenStreamBuilder :=
  let stop := b.next.advanceAll text.toList
  ⟨⟨token, ⟨b.next, stop⟩⟩ :: b.tokens, stop.advance ' '⟩

/-- Adds a token at a known span; the next one starts where it ends. -/
def pushAt (b : TokenStreamBuilder) (token : Token) (span : Span) : TokenStreamBuilder :=
  ⟨⟨token, span⟩ :: b.tokens, span.stop⟩

/-- The tokens, ended by the end of the text unless it is there. -/
def build (b : TokenStreamBuilder) : TokenStream :=
  let tokens := if b.tokens.head?.any (·.token.isEof) then b.tokens
    else ⟨.eof, ⟨b.next, b.next⟩⟩ :: b.tokens
  .ofTokens tokens.reverse none

end TokenStreamBuilder

end Planfile
