import Mathlib.Data.List.DropRight
import Planfile.Proofs.Source.Excerpt
import Planfile.Proofs.Token.Metrics

/-!
# Planfile — the numbers of lines

Lines are counted twice. While a text is read, every line feed that is passed starts a line. In the text as a
whole the table of lines has an entry for each of them. A message goes from the one to the other: it knows the
line and the column of a token, and looks for the line by its number.

The pieces between line feeds are followed from the front of the text on. What is in front of a piece is made of
complete lines, and their number is the number of the piece.

Main results:

* `SourceText.line?_add` — behind complete lines the lines are the pieces of the rest.
* `SourceText.numbered` — the lines by their numbers are the pieces between line feeds.
* `SourceText.startsIn_of_char` — the place of a character is reached from the start of its line.
* `Analyzer.startsIn_of_tokenize` — both for the text and the tokens of an analyzer.
-/

namespace Planfile

/-! ## All lines -/

/-- A piece of a text as it is shown. -/
def shownPiece (piece : List Char) : String := String.ofList (piece.rdropWhile (· == '\r'))

/-- Whether the lines of a text, by their numbers, are the pieces between its line feeds, in order and without the
carriage returns at their ends. -/
structure Numbered (s : SourceText) : Prop where
  count : s.lineCount = s.content.toList.count '\n' + 1
  pieces : (s.content.toList.splitOn '\n').length = s.lineCount
  shown : ∀ n piece, (s.content.toList.splitOn '\n')[n]? = some piece → s.line? (n + 1) = some (shownPiece piece)
  others : ∀ n, n = 0 ∨ s.lineCount < n → s.line? n = none

namespace SourceText

variable {s : SourceText} {before cs : List Char}

/-- There is no line beyond their number. -/
theorem line?_of_lt {n : Nat} (h : s.lineCount < n) : s.line? n = none := by
  cases n with
  | zero => rfl
  | succ n =>
    have missing : s.lineStarts[n]? = none := List.getElem?_eq_none_iff.mpr (Nat.lt_succ_iff.mp h)
    rw [line?, missing, Option.map_none]

/-- Behind complete lines the lines are the pieces of what is left of the text. -/
theorem line?_add (complete : lastLine before = []) (parts : s.content.toList = before ++ cs) (n : Nat) :
    s.line? (before.count '\n' + n + 1) = (cs.splitOn '\n')[n]?.map shownPiece := by
  -- by induction on the number of the line, with one more complete line for each step
  induction n generalizing before cs with
  | zero =>
    -- the first line of the rest goes on up to a line feed or to the end
    obtain ⟨line, tail, whole, noFeed, ends⟩ := exists_line cs
    have first : (cs.splitOn '\n')[0]? = some line := by
      rcases ends with rfl | ⟨more, rfl⟩
      · rw [← whole, List.append_nil, List.splitOn_eq_singleton noFeed]
        rfl
      · rw [← whole, List.splitOn_append_cons_self_of_not_mem noFeed]
        rfl
    have found := line?_eq (parts.trans (congrArg (before ++ ·) whole.symm)) noFeed ends
    rw [Nat.add_zero, found, complete, first]
    rfl
  | succ n ih =>
    obtain ⟨line, tail, whole, noFeed, rfl | ⟨more, rfl⟩⟩ := exists_line cs
    · -- this is the last line
      rw [List.append_nil] at whole
      subst whole
      rw [List.splitOn_eq_singleton noFeed]
      refine line?_of_lt ?_
      have number : s.lineCount = _ := s.length_lineStarts
      rw [number, parts, List.count_append, List.count_eq_zero.mpr noFeed]
      omega
    · -- with this line and its line feed in front the number is the one in the rest
      have number : (before ++ line ++ ['\n']).count '\n' = before.count '\n' + 1 := by
        rw [List.count_append, List.count_append, List.count_eq_zero.mpr noFeed]
        rfl
      have split : s.content.toList = (before ++ line ++ ['\n']) ++ more := by
        rw [parts, ← whole]
        simp only [List.append_assoc, List.singleton_append]
      have next := ih (lastLine_lineFeed (before ++ line)) split
      rw [number] at next
      rw [← whole, List.splitOn_append_cons_self_of_not_mem noFeed, List.getElem?_cons_succ, ← next]
      exact congrArg (fun k => s.line? (k + 1)) (by omega)

/-- The lines of every text, by their numbers, are the pieces between its line feeds. -/
theorem numbered (s : SourceText) : Numbered s := by
  have count : s.lineCount = s.content.toList.count '\n' + 1 := s.length_lineStarts
  have line (n : Nat) : s.line? (n + 1) = (s.content.toList.splitOn '\n')[n]?.map shownPiece := by
    have all := @line?_add s [] s.content.toList rfl rfl n
    rwa [List.count_nil, Nat.zero_add] at all
  refine ⟨count, Nat.le_antisymm ?_ ?_, fun n piece found => ?_, fun n other => ?_⟩
  · -- there is no piece beyond the last line
    have nothing := (line s.lineCount).symm.trans (line?_of_lt (Nat.lt_succ_self _))
    exact List.getElem?_eq_none_iff.mp (Option.map_eq_none_iff.mp nothing)
  · -- and no line beyond the last piece
    have nothing := line (s.content.toList.splitOn '\n').length
    rw [List.getElem?_eq_none (Nat.le_refl _), Option.map_none, line?, Option.map_eq_none_iff] at nothing
    exact List.getElem?_eq_none_iff.mp nothing
  · rw [line, found, Option.map_some]
  · rcases other with rfl | beyond
    · exact s.line?_zero
    · exact line?_of_lt beyond

example :
    let s : SourceText := ⟨"p.tjp", "a\r\n\r\r\n\tb \r"⟩
    s.lineCount = 3 ∧ s.line? 1 = some "a" ∧ s.line? 2 = some "" ∧ s.line? 3 = some "\tb " ∧ s.line? 4 = none := by
  decide +kernel

end SourceText

/-! ## The line of a token -/

/-- How many columns of a line are taken behind some of its characters, if as many as are given are taken in front
of them. A tab takes the columns up to the next multiple of eight. -/
def columnsTaken (taken : Nat) : List Char → Nat
  | [] => taken
  | c :: cs => columnsTaken (if c = '\t' then 8 * (taken / 8 + 1) else taken + 1) cs

/-- Within a line a column is the first one that is not taken. -/
theorem column_advanceAll {cs : List Char} (noFeed : '\n' ∉ cs) {p : Position} {taken : Nat}
    (first : p.column = taken + 1) : (p.advanceAll cs).column = columnsTaken taken cs + 1 := by
  induction cs generalizing p taken with
  | nil => exact first
  | cons c cs ih =>
    have notFeed : c ≠ '\n' := fun feed => noFeed (feed ▸ List.mem_cons_self)
    refine ih (fun mem => noFeed (List.mem_cons_of_mem c mem)) ?_
    by_cases tab : c = '\t'
    · -- columns count from one, so that one less of them is taken
      rw [if_pos tab, tab]
      show p.column + 8 - (p.column - 1) % 8 = _
      omega
    · rw [if_neg tab, Position.advance, if_neg notFeed, if_neg tab, first]

/-- Whether a token starts in the line that its place names: from the start of this line, where the column is one,
its place is reached over some characters, and behind these the line goes on with the first character of the
lexeme. -/
def StartsIn (s : SourceText) (t : SpannedToken) : Prop :=
  ∃ start front c rest lexeme, s.lineStarts[t.span.start.line - 1]? = some start ∧
    (Position.mk start t.span.start.line 1).advanceAll front = t.span.start ∧
    t.span.start.column = columnsTaken 0 front + 1 ∧
    s.line? t.span.start.line = some (String.ofList (front ++ c :: rest)) ∧
    byteSlice t.span.start.offset t.span.stop.offset s.content.toList = c :: lexeme

theorem lastLine_wholeLines (cs : List Char) : lastLine (wholeLines cs) = [] := by
  induction cs using List.reverseRecOn with
  | nil => rfl
  | append_singleton cs c ih =>
    by_cases feed : c = '\n'
    · rw [feed, wholeLines_lineFeed, lastLine_lineFeed]
    · rw [wholeLines_concat feed, ih]

/-- Behind complete lines there is the start of a line. -/
theorem placeBehind_wholeLines (before : List Char) :
    placeBehind (wholeLines before) = ⟨byteSize (wholeLines before), before.count '\n' + 1, 1⟩ := by
  have feeds : before.count '\n' = (wholeLines before).count '\n' := by
    conv => lhs; rw [← wholeLines_append_lastLine before]
    rw [List.count_append, List.count_eq_zero.mpr (not_mem_lastLine before), Nat.add_zero]
  have column : (placeBehind (wholeLines before)).column = 1 := by
    rw [column_placeBehind, lastLine_wholeLines]
    rfl
  rw [feeds, ← line_placeBehind, ← offset_placeBehind, ← column]

/-- A lexeme that is not blank at its start starts in the line that its place names. -/
theorem SourceText.startsIn_of_char {s : SourceText} {before lexeme after : List Char} {c : Char} {t : SpannedToken}
    (parts : s.content.toList = before ++ (c :: lexeme) ++ after) (notBlank : Text.isBlank c = false)
    (span : t.span = ⟨placeBehind before, placeBehind (before ++ c :: lexeme)⟩) : StartsIn s t := by
  have behind : s.content.toList = before ++ c :: (lexeme ++ after) := by
    rw [parts, List.append_assoc, List.cons_append]
  obtain ⟨rest, -, -, -, -, -, -, -, -, shown⟩ := exists_line?_of_char behind notBlank
  -- the table has the size of the complete lines in front for the start of the line
  have start := (lineIndex_eq behind).2
  have slice : byteSlice (byteSize before) (byteSize (before ++ c :: lexeme)) s.content.toList = c :: lexeme := by
    rw [parts, byteSize_append, List.append_assoc, byteSlice_append]
  have reached : (placeBehind (wholeLines before)).advanceAll (lastLine before) = placeBehind before := by
    rw [← placeBehind_append, wholeLines_append_lastLine]
  -- and the place there is the one from which the columns of the line are counted
  rw [placeBehind_wholeLines] at reached
  rw [StartsIn, span]
  have column : (placeBehind before).column = columnsTaken 0 (lastLine before) + 1 := by
    rw [← reached]
    exact column_advanceAll (not_mem_lastLine before) rfl
  dsimp only
  rw [line_placeBehind, offset_placeBehind, offset_placeBehind]
  exact ⟨_, lastLine before, c, rest, lexeme, start, reached, column, shown, slice⟩

/-- The lines of every text, by their numbers, are the pieces between its line feeds. In a text of less than 2 ^ 28
bytes every token that an analyzer reads, but for the end, starts in the line that its place names, which is
known by numbers of 32 bits. -/
theorem Analyzer.startsIn_of_tokenize (s : SourceText) :
    Numbered s ∧ (s.content.utf8ByteSize < Nat.pow 2 28 → ∀ (a : Analyzer) (stream : TokenStream),
      (a.tokenize s.name s.content).1 = .ok stream → stream.source = some s ∧
        ∀ t ∈ stream.all, t.token.isEof = false → t.span.start.Fits32 ∧ StartsIn s t) := by
  refine ⟨s.numbered, fun small a stream taken => ?_⟩
  obtain ⟨scanned, last, -, -, rfl, read, -⟩ := a.exists_tokens_of_tokenize taken
  refine ⟨rfl, fun t ht notEof => ?_⟩
  obtain ⟨tiles, fits⟩ := Lexer.tiles_of_lex (byteSize_toList s.content ▸ small) read
  obtain ⟨before, c, lexeme, after, notBlank, parts, span⟩ := tiles.exists_lexeme t ht notEof
  exact ⟨(fits t ht).1, SourceText.startsIn_of_char parts notBlank span⟩

/-- A token behind a tab, in the second line of a text. -/
theorem Analyzer.startsIn_of_tokenize_tabbedLine :
    let s : SourceText := ⟨"p.tjp", "a\r\n\tb"⟩
    let b : SpannedToken := ⟨.id "b", ⟨⟨4, 2, 9⟩, ⟨5, 2, 10⟩⟩⟩
    let stream := TokenStream.ofTokens
      [⟨.id "a", ⟨⟨0, 1, 1⟩, ⟨1, 1, 2⟩⟩⟩, b, ⟨.eof, ⟨⟨5, 2, 10⟩, ⟨5, 2, 10⟩⟩⟩] (some s)
    s.content.utf8ByteSize < Nat.pow 2 28 ∧
      ((Analyzer.new ⟨true, false⟩).tokenize s.name s.content).1 = .ok stream ∧ b ∈ stream.all ∧
        b.token.isEof = false ∧ b.span.start.Fits32 ∧ StartsIn s b := by
  intro s b stream
  have chars : "a\r\n\tb".toList = ['a', '\r', '\n', '\t', 'b'] := by decide
  have read : Lexer.lex false s.content.toList = .ok stream.all := by
    show Lexer.lex false "a\r\n\tb".toList = .ok stream.all
    rw [chars]
    rfl
  have taken : ((Analyzer.new ⟨true, false⟩).tokenize s.name s.content).1 = .ok stream := by
    rw [outcome_tokenize]
    exact congrArg (Except.map fun tokens => TokenStream.ofTokens tokens (some s)) read
  have small : s.content.utf8ByteSize < Nat.pow 2 28 := by decide +kernel
  have mem : b ∈ stream.all := List.mem_cons_of_mem _ List.mem_cons_self
  obtain ⟨-, starts⟩ := (startsIn_of_tokenize s).2 small _ stream taken
  exact ⟨small, taken, mem, rfl, starts b mem rfl⟩

end Planfile
