import Planfile.Proofs.Token.Spacing

/-!
# Planfile — a lexical error is about the first lexeme that is none

Readers look further than they read, and where one of them fails it may have gone through much of the text.
Still a text is refused for the first lexeme that cannot be read, and at the place where that one starts: all
that is in front of it is a text of its own, with the tokens that have been read up to there. No token
before depends on what comes behind it, and so the text can break off in front of the lexeme that fails.

Only the limit on tokens is a matter of more than one lexeme. It is left aside here.

Main results:

* `Lexer.FailsAt.of_lexFrom` — where reading fails it has come to a lexeme that cannot be read.
* `Lexer.failsAt_of_lex` — the text in front of the lexeme that fails has the tokens that have been read.
-/

namespace Planfile.Lexer

/-- The end of a text at a place. -/
def endAt (p : Position) : SpannedToken := ⟨.eof, ⟨p, p⟩⟩

/-- Whether reading on behind `before` fails at a lexeme, with some text and its tokens in front of it: the
tokens tile the text even if it breaks off before the lexeme, they are what is read in as many steps, and
the next step fails. -/
structure FailsAt (countComments : Bool) (before cs : List Char) (found : List SpannedToken) (counted : Nat)
    (failure : LexFailure) (front : List Char) (scanned : List SpannedToken) : Prop where
  lexeme : ∃ c rest r, cs = front ++ c :: rest ∧ Text.isBlank c = false ∧ scan c rest = .error r ∧
    failure.error = faultAt r.fault (placeBehind (before ++ front))
  tiles : Tiles before front (scanned ++ [endAt (placeBehind (before ++ front))])
  room : counted + countOf countComments (valuesOf (scanned ++ [endAt (placeBehind (before ++ front))])) ≤
    Limits.tokenCount
  reads : lexFrom countComments scanned.length (placeBehind before) cs found counted =
    .ok (found.reverse ++ (scanned ++ [endAt (placeBehind (before ++ front))]))
  fails : lexFrom countComments (scanned.length + 1) (placeBehind before) cs found counted = .error failure

section
variable {countComments : Bool} {before cs rest : List Char} {found : List SpannedToken} {counted : Nat}
  {failure : LexFailure} {c : Char}

/-- What comes behind blanks is no blank. -/
theorem isBlank_of_dropWhile (left : cs.dropWhile Text.isBlank = c :: rest) : Text.isBlank c = false := by
  have stops := any_head_dropWhile Text.isBlank cs
  rwa [left] at stops

/-- Where the next lexeme cannot be read, there are blanks in front of it. -/
theorem FailsAt.here (within : counted ≤ Limits.tokenCount) (left : cs.dropWhile Text.isBlank = c :: rest)
    {r : Rejection} (refused : scan c rest = .error r) {steps : Nat}
    (h : lexFrom countComments (steps + 1) (placeBehind before) cs found counted = .error failure) :
    FailsAt countComments before cs found counted failure (cs.takeWhile Text.isBlank) [] := by
  have whole : cs.takeWhile Text.isBlank ++ c :: rest = cs := left ▸ List.takeWhile_append_dropWhile
  have once (n : Nat) : lexFrom countComments (n + 1) (placeBehind before) cs found counted = .error failure := by
    rw [lexFrom_of_error _ _ _ _ _ left refused] at h ⊢
    exact h
  refine ⟨⟨c, rest, r, whole.symm, isBlank_of_dropWhile left, refused, ?_⟩, .done (allBlank_takeWhile cs), within,
    ?_, once 0⟩
  · rw [lexFrom_of_error _ _ _ _ _ left refused] at h
    cases h
    rw [placeBehind_append]
  · rw [List.length_nil, lexFrom_zero, placeBehind_append]
    rfl

/-- A lexeme that can be read comes before the one that fails, and it is read even if nothing follows but what
is in front of that one. -/
theorem FailsAt.behind {s : Scanned} (left : cs.dropWhile Text.isBlank = c :: rest) (read : scan c rest = .ok s)
    (fits : ¬Limits.tokenCount < if s.token.isSignificant || countComments then counted + 1 else counted)
    {front : List Char} {scanned : List SpannedToken}
    (h : FailsAt countComments (before ++ cs.takeWhile Text.isBlank ++ s.lexeme) s.rest
      (⟨s.token, ⟨placeBehind (before ++ cs.takeWhile Text.isBlank),
        placeBehind (before ++ cs.takeWhile Text.isBlank ++ s.lexeme)⟩⟩ :: found)
      (if s.token.isSignificant || countComments then counted + 1 else counted) failure front scanned) :
    FailsAt countComments before cs found counted failure (cs.takeWhile Text.isBlank ++ s.lexeme ++ front)
      (⟨s.token, ⟨placeBehind (before ++ cs.takeWhile Text.isBlank),
        placeBehind (before ++ cs.takeWhile Text.isBlank ++ s.lexeme)⟩⟩ :: scanned) := by
  obtain ⟨⟨d, behind, r, parts, noBlank, refused, fault⟩, tiles, room, reads, fails⟩ := h
  have whole : cs.takeWhile Text.isBlank ++ c :: rest = cs := left ▸ List.takeWhile_append_dropWhile
  have text := lexeme_append_rest_of_scan read
  have place : before ++ (cs.takeWhile Text.isBlank ++ s.lexeme ++ front) =
      before ++ cs.takeWhile Text.isBlank ++ s.lexeme ++ front := by simp only [List.append_assoc]
  -- a step reads the lexeme, whatever comes behind it
  have step (n : Nat) : lexFrom countComments (n + 1) (placeBehind before) cs found counted = _ :=
    (lexFrom_of_ok countComments n (placeBehind before) found counted left read).trans (if_neg fits)
  simp only [← placeBehind_append] at step
  -- behind the lexeme the text breaks off before the next one that fails
  have broken : Spaced s.rest front := by
    have off := (Spaced.off (d :: behind)).append front
    rwa [List.append_nil, ← parts] at off
  have line : s.token.isLineComment = true → front.head? = s.rest.head? ∨ front = [] := by
    intro _
    cases front with
    | nil => exact .inr rfl
    | cons e front => exact .inl (by rw [parts]; rfl)
  obtain ⟨cs', text', read'⟩ := scan_of_spaced read broken line
  have notEof := isEof_of_scan read
  refine ⟨⟨d, behind, r, ?_, noBlank, refused, place ▸ fault⟩, ?_, ?_, ?_, ?_⟩
  · rw [List.append_assoc _ front, ← parts, List.append_assoc, text, whole]
  · rw [place]
    exact .lexeme (allBlank_takeWhile cs) read' text' (lexeme_ne_nil_of_scan read') notEof tiles
  · rw [place]
    exact Nat.le_trans (Nat.le_of_eq (countOf_cons_of_notEof countComments notEof counted _)) room
  · rw [place, List.length_cons, step, reads, List.reverse_cons, List.append_assoc]
    rfl
  · rw [List.length_cons, step, fails]

/-- Where reading fails, it has come to a lexeme that cannot be read, if there have not been too many tokens. -/
theorem FailsAt.of_lexFrom {steps : Nat} (within : counted ≤ Limits.tokenCount)
    (other : ∀ n, failure.error.fault ≠ .tooManyTokens n)
    (h : lexFrom countComments steps (placeBehind before) cs found counted = .error failure) :
    ∃ front scanned, FailsAt countComments before cs found counted failure front scanned := by
  -- by induction on the steps, of which each lexeme before takes one
  induction steps generalizing before cs found counted with
  | zero =>
    rw [lexFrom_zero] at h
    cases h
  | succ steps ih =>
    cases left : cs.dropWhile Text.isBlank with
    | nil =>
      rw [lexFrom_of_blank _ _ _ _ _ left] at h
      cases h
    | cons c rest =>
      cases read : scan c rest with
      | error r => exact ⟨_, [], .here within left read h⟩
      | ok s =>
        rw [lexFrom_of_ok _ _ _ _ _ left read] at h
        dsimp only at h
        by_cases beyond : Limits.tokenCount <
            if s.token.isSignificant || countComments then counted + 1 else counted
        · rw [if_pos beyond] at h
          cases h
          exact absurd rfl (other _)
        · rw [if_neg beyond, ← placeBehind_append, ← placeBehind_append] at h
          obtain ⟨front, scanned, behind⟩ := ih (Nat.le_of_not_lt beyond) h
          exact ⟨_, _, .behind left read beyond behind⟩

end

/-- A text of less than 2 ^ 28 bytes that is refused, but not for the number of its tokens, is refused at the
place behind some of its first characters, where a lexeme starts that cannot be read. These characters are a
text with the tokens that have been read up to there: as many steps as there are such tokens read them, and
the next step fails. -/
theorem failsAt_of_lex {countComments : Bool} {cs : List Char} {failure : LexFailure}
    (small : byteSize cs < Nat.pow 2 28) (h : lex countComments cs = .error failure)
    (other : ∀ n, failure.error.fault ≠ .tooManyTokens n) :
    ∃ front c rest scanned,
      (cs = front ++ c :: rest ∧ Text.isBlank c = false ∧
        ∃ r, scan c rest = .error r ∧ failure.error.fault = r.fault) ∧
      (failure.error.line = (placeBehind front).line ∧ failure.error.column = (placeBehind front).column ∧
        (placeBehind front).Fits32) ∧
      (lexFrom countComments scanned.length .start cs [] 0 = .ok (scanned ++ [endAt (placeBehind front)]) ∧
        lexFrom countComments (scanned.length + 1) .start cs [] 0 = .error failure) ∧
      lex countComments front = .ok (scanned ++ [endAt (placeBehind front)]) := by
  have fromStart : lexFrom countComments cs.length (placeBehind []) cs [] 0 = .error failure := h
  obtain ⟨front, scanned, ⟨c, rest, r, whole, noBlank, refused, fault⟩, tiles, room, reads, fails⟩ :=
    FailsAt.of_lexFrom (Nat.zero_le _) other fromStart
  refine ⟨front, c, rest, scanned, ⟨whole, noBlank, r, refused, ?_⟩, ⟨?_, ?_, ?_⟩, ⟨reads, fails⟩, ?_⟩
  · rw [fault]
    rfl
  · rw [fault]
    rfl
  · rw [fault]
    rfl
  · have first : front <+: cs := ⟨c :: rest, whole.symm⟩
    exact Position.fits32_start_advanceAll (Nat.lt_of_le_of_lt (byteSize_le_of_isPrefix first) small)
  · exact lexFrom_of_tiles tiles [] (Nat.le_refl _) room

/-- A name, a tab, a date, a hyphen, a number, and directly behind it a bang with nothing to lead up from. -/
theorem failsAt_of_lex_bang :
    let text := ['a', '\t', '2', '0', '2', '4', '-', '0', '2', '-', '2', '9', '-', '1', '!', '{']
    let failure : LexFailure := ⟨⟨.invalidCharacter '!', 1, 21⟩, ⟨⟨14, 1, 21⟩, ⟨15, 1, 22⟩⟩, 4⟩
    (byteSize text < Nat.pow 2 28 ∧ lex true text = .error failure ∧
      ∀ n, failure.error.fault ≠ .tooManyTokens n) ∧
    ∃ front c rest scanned,
      (text = front ++ c :: rest ∧ Text.isBlank c = false ∧
        ∃ r, scan c rest = .error r ∧ failure.error.fault = r.fault) ∧
      (failure.error.line = (placeBehind front).line ∧ failure.error.column = (placeBehind front).column ∧
        (placeBehind front).Fits32) ∧
      (lexFrom true scanned.length .start text [] 0 = .ok (scanned ++ [endAt (placeBehind front)]) ∧
        lexFrom true (scanned.length + 1) .start text [] 0 = .error failure) ∧
      lex true front = .ok (scanned ++ [endAt (placeBehind front)]) := by
  intro text failure
  have small : byteSize text < Nat.pow 2 28 := by decide
  have refused : lex true text = .error failure := by rfl
  have other : ∀ n, failure.error.fault ≠ .tooManyTokens n := by
    intro n
    exact LexFault.noConfusion
  exact ⟨⟨small, refused, other⟩, failsAt_of_lex small refused other⟩

end Planfile.Lexer
