import Planfile.Source.Text
import Planfile.Token.Scan

/-!
# Planfile — the tokens of a text

A text is a sequence of lexemes with blanks between them. `lex` reads it from the start to the end
and gives every token with its span, comments included, and the end of the text as the last token.
Whoever wants to know more of the tokens than that can note something of each while it is read.

Main results:

* `Lexer.readFrom_of_blank`, `Lexer.readFrom_of_error`, `Lexer.readFrom_of_ok` — the steps in which a
  text is read.
-/

namespace Planfile

/-- A lexical error with what is known about the text before it. -/
structure LexFailure where
  error : LexError
  /-- From the start of the lexeme to where reading stopped. -/
  span : Span
  /-- The number of tokens counted before. -/
  counted : Nat
  deriving DecidableEq, Repr

namespace Lexer

/-- A lexical error at a place. -/
def faultAt (fault : LexFault) (p : Position) : LexError := ⟨fault, p.line, p.column⟩

section
variable {σ : Type} (note : σ → Token → σ) (countComments : Bool)

/-- Reads on at `p`. Every token takes at least one character, so a text of `n` characters is read
in `n` steps. `found` holds the tokens so far in reverse, `counted` how many of them count toward
the limit on tokens, and `kept` what has been noted of them. The end of the text is not noted, nor is
a token beyond the limit. -/
def readFrom : Nat → Position → List Char → List SpannedToken → Nat → σ →
    Except LexFailure (List SpannedToken) × σ
  | steps, p, cs, found, counted, kept =>
    let start := p.advanceAll (cs.takeWhile Text.isBlank)
    match steps, cs.dropWhile Text.isBlank with
    | steps + 1, c :: rest =>
      match scan c rest with
      | .error r =>
        (.error ⟨faultAt r.fault start, ⟨start, start.advanceAll r.consumed⟩, counted⟩, kept)
      | .ok scanned =>
        let stop := start.advanceAll scanned.lexeme
        let counted :=
          if scanned.token.isSignificant || countComments then counted + 1 else counted
        if Limits.tokenCount < counted then
          (.error ⟨faultAt (.tooManyTokens counted) start, ⟨start, stop⟩, counted⟩, kept)
        else
          readFrom steps stop scanned.rest (⟨scanned.token, ⟨start, stop⟩⟩ :: found) counted
            (note kept scanned.token)
    -- the steps suffice, so this is the end of the text
    | _, _ => (.ok (⟨.eof, ⟨start, start⟩⟩ :: found).reverse, kept)

variable (steps : Nat) (p : Position) {cs rest : List Char} {c : Char} (found : List SpannedToken)
  (counted : Nat) (kept : σ)

/-- Where only blanks are left the text ends. -/
theorem readFrom_of_blank (h : cs.dropWhile Text.isBlank = []) :
    readFrom note countComments steps p cs found counted kept =
      let start := p.advanceAll (cs.takeWhile Text.isBlank)
      (.ok (⟨.eof, ⟨start, start⟩⟩ :: found).reverse, kept) := by
  unfold readFrom
  simp only [h]

/-- Where a token cannot be read the text is refused. -/
theorem readFrom_of_error {r : Rejection} (h : cs.dropWhile Text.isBlank = c :: rest)
    (hr : scan c rest = .error r) :
    readFrom note countComments (steps + 1) p cs found counted kept =
      let start := p.advanceAll (cs.takeWhile Text.isBlank)
      (.error ⟨faultAt r.fault start, ⟨start, start.advanceAll r.consumed⟩, counted⟩, kept) := by
  conv => lhs; unfold readFrom
  simp only [h, hr]

/-- Where a token can be read it is noted, and the text is read on behind it. -/
theorem readFrom_of_ok {s : Scanned} (h : cs.dropWhile Text.isBlank = c :: rest)
    (hs : scan c rest = .ok s) :
    readFrom note countComments (steps + 1) p cs found counted kept =
      let start := p.advanceAll (cs.takeWhile Text.isBlank)
      let stop := start.advanceAll s.lexeme
      let counted := if s.token.isSignificant || countComments then counted + 1 else counted
      if Limits.tokenCount < counted then
        (.error ⟨faultAt (.tooManyTokens counted) start, ⟨start, stop⟩, counted⟩, kept)
      else
        readFrom note countComments steps stop s.rest (⟨s.token, ⟨start, stop⟩⟩ :: found) counted
          (note kept s.token) := by
  conv => lhs; unfold readFrom
  simp only [h, hs]

end

/-- Reads on at `p` where nothing is noted. -/
def lexFrom (countComments : Bool) (steps : Nat) (p : Position) (cs : List Char)
    (found : List SpannedToken) (counted : Nat) : Except LexFailure (List SpannedToken) :=
  (readFrom (fun _ _ => ()) countComments steps p cs found counted ()).1

/-- All tokens of a text. -/
def lex (countComments : Bool) (cs : List Char) : Except LexFailure (List SpannedToken) :=
  lexFrom countComments cs.length .start cs [] 0

end Lexer

end Planfile
