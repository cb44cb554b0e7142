import Planfile.Proofs.Token.Word

/-!
# Planfile — tokens tile their text

A text is read from its start to its end, and nothing of it is lost: it is made of lexemes, with blanks
before, between and behind them. Every token stands where its lexeme does. The place of a lexeme is
counted on from lexeme to lexeme while the text is read, and it is the same as when it is counted from
the start over all of the text in front.

Lines and columns are numbers of 32 bits where the program runs. A line feed starts one line and a tab
takes up to eight columns, so all of them fit if a text has less than 2 ^ 28 bytes.

Main results:

* `Position.column_advanceAll_le`, `Position.line_advanceAll_le` — how far a text can move a place.
* `Lexer.tiles_of_lex` — the tokens of a text tile it, and their places fit into 32 bits.
-/

namespace Planfile

/-! ## How far a text moves a place -/

/-- Every character takes at least a byte. -/
theorem one_le_utf8Size (c : Char) : 1 ≤ c.utf8Size := Char.utf8Size_pos c

namespace Position

theorem line_advance_le (p : Position) (c : Char) : (p.advance c).line ≤ p.line + c.utf8Size := by
  have bytes := one_le_utf8Size c
  unfold advance
  split
  · show p.line + 1 ≤ _
    omega
  · split
    · show p.line ≤ _
      omega
    · show p.line ≤ _
      omega

theorem column_advance_le (p : Position) (c : Char) :
    (p.advance c).column ≤ p.column + 8 * c.utf8Size := by
  have bytes := one_le_utf8Size c
  unfold advance
  split
  · show 1 ≤ _
    omega
  · split
    · show p.column + 8 - (p.column - 1) % 8 ≤ _
      omega
    · show p.column + 1 ≤ _
      omega

/-- A text starts no more lines than it has bytes. -/
theorem line_advanceAll_le (p : Position) (cs : List Char) :
    (p.advanceAll cs).line ≤ p.line + byteSize cs := by
  induction cs generalizing p with
  | nil => exact Nat.le_refl _
  | cons c cs ih =>
    have first := p.line_advance_le c
    have rest := ih (p.advance c)
    rw [advanceAll_cons, byteSize_cons]
    omega

/-- A text takes no more than eight columns for each of its bytes. -/
theorem column_advanceAll_le (p : Position) (cs : List Char) :
    (p.advanceAll cs).column ≤ p.column + 8 * byteSize cs := by
  induction cs generalizing p with
  | nil => exact Nat.le_refl _
  | cons c cs ih =>
    have first := p.column_advance_le c
    have rest := ih (p.advance c)
    rw [advanceAll_cons, byteSize_cons]
    omega

/-- Whether line and column are numbers of 32 bits. -/
def Fits32 (p : Position) : Prop :=
  p.line ≤ Text.Digits.count32 ∧ p.column ≤ Text.Digits.count32

/-- The place behind a text of less than 2 ^ 28 bytes is known by numbers of 32 bits. -/
theorem fits32_start_advanceAll {cs : List Char} (h : byteSize cs < Nat.pow 2 28) :
    (Position.start.advanceAll cs).Fits32 := by
  have line := Position.start.line_advanceAll_le cs
  have column := Position.start.column_advanceAll_le cs
  have first : Position.start.line = 1 ∧ Position.start.column = 1 := ⟨rfl, rfl⟩
  have size : Nat.pow 2 28 = 268435456 := rfl
  unfold Fits32 Text.Digits.count32
  omega

end Position

/-- The place behind the first characters of a text. -/
def placeBehind (before : List Char) : Position := Position.start.advanceAll before

/-- Where a text is gone on with, its place is counted on. -/
theorem placeBehind_append (before more : List Char) :
    placeBehind (before ++ more) = (placeBehind before).advanceAll more :=
  Position.start.advanceAll_append before more

/-- The place behind some characters is as far on as they are large. -/
theorem offset_placeBehind (before : List Char) : (placeBehind before).offset = byteSize before := by
  rw [placeBehind, Position.offset_advanceAll]
  exact Nat.zero_add _

namespace Lexer

/-! ## Tiles -/

/-- Whether tokens tile the part of a text that comes after `before`: blanks and a lexeme for each token,
and blanks up to the end of the text, which is the last token. -/
inductive Tiles : List Char → List Char → List SpannedToken → Prop
  | done {before gap : List Char} (blank : Text.allBlank gap = true) :
    Tiles before gap [⟨.eof, ⟨placeBehind (before ++ gap), placeBehind (before ++ gap)⟩⟩]
  | lexeme {before gap : List Char} {c : Char} {cs : List Char} {s : Scanned}
    {tokens : List SpannedToken} (blank : Text.allBlank gap = true) (read : scan c cs = .ok s)
    (text : s.lexeme ++ s.rest = c :: cs) (taken : s.lexeme ≠ [])
    (notEof : s.token.isEof = false) (behind : Tiles (before ++ gap ++ s.lexeme) s.rest tokens) :
    Tiles before (gap ++ s.lexeme ++ s.rest)
      (⟨s.token, ⟨placeBehind (before ++ gap), placeBehind (before ++ gap ++ s.lexeme)⟩⟩ :: tokens)

/-- The blanks that a text starts with are blanks. -/
theorem allBlank_takeWhile (cs : List Char) :
    Text.allBlank (cs.takeWhile Text.isBlank) = true := List.all_takeWhile

/-- Where a text is read on, the tokens that are found tile what is left of it. -/
theorem exists_tiles_of_lexFrom {countComments : Bool} {steps : Nat} {before cs : List Char}
    {found tokens : List SpannedToken} {counted : Nat} (enough : cs.length ≤ steps)
    (h : lexFrom countComments steps (placeBehind before) cs found counted = .ok tokens) :
    ∃ rest, tokens = found.reverse ++ rest ∧ Tiles before cs rest := by
  -- by induction on the steps, of which every token takes one
  induction steps generalizing before cs found counted with
  | zero =>
    obtain rfl : cs = [] := List.length_eq_zero_iff.mp (Nat.le_zero.mp enough)
    rw [lexFrom_of_blank _ _ _ _ _ rfl] at h
    cases h
    have tiled : Tiles before [] _ := .done rfl
    refine ⟨_, List.reverse_cons, ?_⟩
    simpa using tiled
  | succ steps ih =>
    have blank := allBlank_takeWhile cs
    have whole : cs.takeWhile Text.isBlank ++ cs.dropWhile Text.isBlank = cs :=
      List.takeWhile_append_dropWhile
    rcases cases_of_lexFrom h with ⟨nothing, rfl⟩ | ⟨c, rest, s, left, read, -, others⟩
    · rw [nothing, List.append_nil] at whole
      rw [← placeBehind_append, whole]
      exact ⟨_, rfl, .done (whole ▸ blank)⟩
    · rw [← placeBehind_append, ← placeBehind_append] at others
      have text := lexeme_append_rest_of_scan read
      have shorter := length_rest_le_of_scan read
      have less : (c :: rest).length ≤ cs.length := left ▸ (List.dropWhile_suffix _).length_le
      rw [List.length_cons] at less
      obtain ⟨tail, rfl, behind⟩ := ih (by omega) others
      have tiled := Tiles.lexeme blank read text (lexeme_ne_nil_of_scan read) (isEof_of_scan read) behind
      have parts : cs.takeWhile Text.isBlank ++ s.lexeme ++ s.rest = cs := by
        rw [List.append_assoc, text, ← left, whole]
      rw [parts] at tiled
      refine ⟨_, ?_, tiled⟩
      rw [List.reverse_cons, List.append_assoc]
      rfl

/-- All places of tokens that tile a text are places behind some of its first characters. -/
theorem Tiles.exists_prefix {before cs : List Char} {tokens : List SpannedToken}
    (h : Tiles before cs tokens) : ∀ t ∈ tokens, ∃ x y, x <+: before ++ cs ∧ y <+: before ++ cs ∧
      t.span = ⟨placeBehind x, placeBehind y⟩ := by
  induction h with
  | done =>
    intro t ht
    obtain rfl := List.mem_singleton.mp ht
    exact ⟨_, _, List.prefix_refl _, List.prefix_refl _, rfl⟩
  | @lexeme before gap c cs s tokens _ _ _ _ _ _ ih =>
    have parts : before ++ (gap ++ s.lexeme ++ s.rest) = before ++ gap ++ s.lexeme ++ s.rest := by
      simp only [List.append_assoc]
    rw [parts]
    intro t ht
    rcases List.mem_cons.mp ht with rfl | ht
    · refine ⟨_, _, ?_, List.prefix_append _ _, rfl⟩
      rw [List.append_assoc (before ++ gap)]
      exact List.prefix_append _ _
    · exact ih t ht

/-- The first characters of a text have no more bytes than all of it. -/
theorem byteSize_le_of_isPrefix {xs cs : List Char} (h : xs <+: cs) : byteSize xs ≤ byteSize cs := by
  obtain ⟨rest, rfl⟩ := h
  rw [byteSize_append]
  exact Nat.le_add_right _ _

/-- The tokens of a text of less than 2 ^ 28 bytes tile it, and they stand at places that are known by
numbers of 32 bits. -/
theorem tiles_of_lex {countComments : Bool} {cs : List Char} {tokens : List SpannedToken}
    (small : byteSize cs < Nat.pow 2 28) (h : lex countComments cs = .ok tokens) :
    Tiles [] cs tokens ∧ ∀ t ∈ tokens, t.span.start.Fits32 ∧ t.span.stop.Fits32 := by
  have fromStart : lexFrom countComments cs.length (placeBehind []) cs [] 0 = .ok tokens := h
  obtain ⟨rest, rfl, tiles⟩ := exists_tiles_of_lexFrom (Nat.le_refl _) fromStart
  refine ⟨tiles, fun t ht => ?_⟩
  obtain ⟨x, y, startsIn, endsIn, span⟩ := tiles.exists_prefix t ht
  rw [span]
  exact ⟨Position.fits32_start_advanceAll (Nat.lt_of_le_of_lt (byteSize_le_of_isPrefix startsIn) small),
    Position.fits32_start_advanceAll (Nat.lt_of_le_of_lt (byteSize_le_of_isPrefix endsIn) small)⟩

/-- A name, a tab, a string with a letter of two bytes, a blank and a comment: the places of the tokens
are counted over all of them. -/
theorem tiles_of_lex_tabbed :
    let text := ['a', '\t', '"', 'ä', '"', ' ', '#', 'c']
    let tokens : List SpannedToken :=
      [⟨.id "a", ⟨⟨0, 1, 1⟩, ⟨1, 1, 2⟩⟩⟩, ⟨.string "ä", ⟨⟨2, 1, 9⟩, ⟨6, 1, 12⟩⟩⟩,
        ⟨.comment "#c", ⟨⟨7, 1, 13⟩, ⟨9, 1, 15⟩⟩⟩, ⟨.eof, ⟨⟨9, 1, 15⟩, ⟨9, 1, 15⟩⟩⟩]
    byteSize text < Nat.pow 2 28 ∧ lex true text = .ok tokens ∧
      Tiles [] text tokens ∧ ∀ t ∈ tokens, t.span.start.Fits32 ∧ t.span.stop.Fits32 := by
  intro text tokens
  have small : byteSize text < Nat.pow 2 28 := by decide
  have read : lex true text = .ok tokens := by rfl
  exact ⟨small, read, tiles_of_lex small read⟩

end Lexer

end Planfile
