import Planfile.Proofs.Source.Lines
import Planfile.Proofs.Token.Form
import Planfile.Proofs.Token.Spacing

/-!
# Planfile — the caret of an excerpt

An excerpt shows a line of a text and, below it, a caret for a column. What stands in front of the line is the
number of the line and a bar. What stands in front of the caret is a blank, as many blanks as the number has
digits, a bar, and the blanks up to the column. So the line below is indented by one character more than the
line above, and the caret is not under the character that it is for, but behind it.

All of this is said of the end of a message, since the text of a message and the name of the source are in
front of it.

Main results:

* `SourceText.line?_eq` — which line a number stands for.
* `SourceText.endLines_excerpt` — the last two lines of an excerpt.
* `Lexer.Tiles.exists_lexeme` — where the first character of a token stands.
* `SourceText.pointsBehind_excerpt` — an excerpt shows the line of a character, and the caret is one character
  right of it, whatever the number of the line is.
* `SourceText.pointsBehind_of_lex` — so it is for all tokens.
-/

namespace Planfile

/-! ## The line that is shown -/

/-- Behind a character that is no carriage return all carriage returns are dropped at the end only. -/
theorem dropReturns_append {c : Char} (noReturn : c ≠ '\r') (before behind : List Char) :
    dropReturns (before ++ c :: behind) = before ++ c :: dropReturns behind := by
  have keeps : (c :: before.reverse).dropWhile (· == '\r') = c :: before.reverse :=
    List.dropWhile_cons_of_neg (by simpa using noReturn)
  have turned : (before ++ c :: behind).reverse = behind.reverse ++ c :: before.reverse := by simp
  rw [dropReturns, dropReturns, turned, List.dropWhile_append]
  split
  · next nothing =>
    rw [List.isEmpty_iff.mp nothing, keeps]
    simp
  · simp

/-- Nothing but carriage returns is dropped, and all of them are. -/
theorem exists_dropReturns (line : List Char) :
    ∃ returns, dropReturns line ++ returns = line ∧ (∀ c ∈ returns, c = '\r') ∧
      (dropReturns line).getLast? ≠ some '\r' := by
  refine ⟨(line.reverse.takeWhile (· == '\r')).reverse, ?_, fun c hc => ?_, fun last => ?_⟩
  · rw [dropReturns, ← List.reverse_append, List.takeWhile_append_dropWhile, List.reverse_reverse]
  · rw [List.mem_reverse] at hc
    simpa using List.mem_takeWhile_imp hc
  · have stops := List.head?_dropWhile_not (· == '\r') line.reverse
    rw [dropReturns, List.getLast?_reverse] at last
    rw [last] at stops
    cases stops

/-- A text starts with a line, behind which there is nothing or a line feed. -/
theorem exists_line (cs : List Char) :
    ∃ line tail, line ++ tail = cs ∧ '\n' ∉ line ∧ (tail = [] ∨ ∃ more, tail = '\n' :: more) := by
  refine ⟨cs.takeWhile (· != '\n'), cs.dropWhile (· != '\n'), List.takeWhile_append_dropWhile, fun mem => ?_, ?_⟩
  · have other := List.mem_takeWhile_imp mem
    simp at other
  · have stops := List.head?_dropWhile_not (· != '\n') cs
    cases left : cs.dropWhile (· != '\n') with
    | nil => exact .inl rfl
    | cons d more =>
      rw [left, List.head?_cons] at stops
      exact .inr ⟨more, by rw [bne_eq_false_iff_eq.mp stops]⟩

namespace SourceText

variable {s : SourceText} {before : List Char}

/-- There is a line more than there are line feeds. -/
theorem length_lineStarts (s : SourceText) : s.lineStarts.length = s.content.toList.count '\n' + 1 := by
  obtain ⟨earlier, starts, number, -⟩ := exists_lineStarts_of_lastLine s.content.toList
  rw [lineStarts, starts, List.length_append, number]
  rfl

/-- A line ends in front of the line feed behind it, or with the text. -/
theorem lineStop_eq {line tail : List Char} (h : s.content.toList = before ++ (line ++ tail))
    (noFeed : '\n' ∉ line) (ends : tail = [] ∨ ∃ rest, tail = '\n' :: rest) :
    s.lineStop (before.count '\n') = byteSize (before ++ line) := by
  have count : (before ++ line).count '\n' = before.count '\n' := by
    rw [List.count_append, List.count_eq_zero.mpr noFeed, Nat.add_zero]
  unfold lineStop
  rcases ends with rfl | ⟨rest, rfl⟩
  · have missing : s.lineStarts[before.count '\n' + 1]? = none := by
      rw [List.getElem?_eq_none_iff, length_lineStarts, h, List.append_nil, count]
    rw [missing, ← byteSize_toList, h, List.append_nil]
  · -- the next line is the one behind the text up to the line feed
    have split : s.content.toList = ((before ++ line) ++ ['\n']) ++ rest := by
      rw [h, List.append_assoc, List.append_assoc]
      rfl
    have next := (lineIndex_eq split).2
    have number : ((before ++ line) ++ ['\n']).count '\n' = before.count '\n' + 1 := by
      rw [List.count_append, count]
      rfl
    rw [number, wholeLines_lineFeed, byteSize_append (before ++ line)] at next
    rw [next]
    exact Nat.add_sub_cancel _ 1

/-- The line that an offset is in, without the carriage returns at its end. -/
theorem line?_eq {line tail : List Char} (h : s.content.toList = before ++ (line ++ tail))
    (noFeed : '\n' ∉ line) (ends : tail = [] ∨ ∃ rest, tail = '\n' :: rest) :
    s.line? (before.count '\n' + 1) = some (String.ofList (dropReturns (lastLine before ++ line))) := by
  have start := (lineIndex_eq h).2
  have stop := lineStop_eq h noFeed ends
  have parts : s.content.toList = wholeLines before ++ ((lastLine before ++ line) ++ tail) := by
    rw [h, List.append_assoc, ← List.append_assoc (wholeLines before), wholeLines_append_lastLine]
  have size : byteSize (wholeLines before) + byteSize (lastLine before ++ line) = byteSize (before ++ line) := by
    rw [← byteSize_append, ← List.append_assoc, wholeLines_append_lastLine]
  rw [line?, start, Option.map_some, stop, ← size, parts, byteSlice_append]

end SourceText

/-! ## The end of a message -/

/-- The last line of a message and the line in front of it, each without the line feed that ends it. -/
def endLines (message : List Char) : List Char × List Char :=
  let lines := message.dropLast
  (lastLine (wholeLines lines).dropLast, lastLine lines)

theorem endLines_eq (front : List Char) {xs ys : List Char} (hx : '\n' ∉ xs) (hy : '\n' ∉ ys) :
    endLines (front ++ '\n' :: xs ++ '\n' :: ys ++ ['\n']) = (xs, ys) := by
  have last := lastLine_append (front ++ '\n' :: xs) hy
  unfold endLines
  dsimp only
  rw [List.dropLast_concat, last.1, last.2, List.dropLast_concat, (lastLine_append front hx).2]

/-- Where a list ends with something that is not in it before, there is the only one. -/
theorem getElem?_concat_eq_some_iff {c : Char} {cs : List Char} (new : c ∉ cs) {i : Nat} :
    (cs ++ [c])[i]? = some c ↔ i = cs.length := by
  constructor
  · intro found
    by_cases within : i < cs.length
    · rw [List.getElem?_append_left within] at found
      exact absurd (List.mem_of_getElem? found) new
    · have size := (List.getElem?_eq_some_iff.mp found).1
      rw [List.length_append, List.length_singleton] at size
      omega
  · rintro rfl
    exact List.getElem?_concat_length

/-- What stands in front of the line of an excerpt. -/
def gutter (line : Nat) : List Char := (toString line ++ " | ").toList

/-- What stands in front of the caret of an excerpt. -/
def caretIndent (line column : Nat) : List Char :=
  ' ' :: List.replicate (toString line).length ' ' ++ [' ', '|', ' '] ++ List.replicate (column - 1) ' '

theorem length_gutter (line : Nat) : (gutter line).length = (toString line).length + 3 := by
  rw [gutter, String.toList_append, List.length_append, String.length_toList]
  rfl

theorem length_caretIndent (line column : Nat) :
    (caretIndent line column).length = (gutter line).length + 1 + (column - 1) := by
  rw [length_gutter]
  simp only [caretIndent, List.length_append, List.length_cons, List.length_replicate, List.length_nil]

/-- In front of the caret there is no other one, and no end of a line. -/
theorem not_mem_caretIndent {c : Char} (line column : Nat) (blank : c ≠ ' ') (bar : c ≠ '|') :
    c ∉ caretIndent line column := by
  simp [caretIndent, blank, bar]

theorem not_mem_gutter (line : Nat) : '\n' ∉ gutter line := by
  rw [gutter, String.toList_append, List.mem_append, not_or]
  refine ⟨fun mem => ?_, by decide⟩
  have digit := (Text.Digits.Spells.toString line).digits _ mem
  cases digit

namespace SourceText

/-- The last two lines of an excerpt. -/
theorem endLines_excerpt {s : SourceText} {line : Nat} {text : List Char}
    (shown : s.line? line = some (String.ofList text)) (noFeed : '\n' ∉ text) (column : Nat) (message : String) :
    endLines (s.excerpt line column message).toList =
      (gutter line ++ text, caretIndent line column ++ ['^']) := by
  have noFeedAbove : '\n' ∉ gutter line ++ text := by
    rw [List.mem_append, not_or]
    exact ⟨not_mem_gutter line, noFeed⟩
  have noFeedBelow : '\n' ∉ caretIndent line column ++ ['^'] := by
    rw [List.mem_append, not_or]
    exact ⟨not_mem_caretIndent line column (by decide) (by decide), by decide⟩
  -- the last two lines hold no line feed, so what the message holds does not matter
  let heading := s!"Error: {message}\n  --> {s.name}:{line}:{column}\n"
  let pad := List.replicate (toString line).length ' '
  have parts : (s.excerpt line column message).toList =
      (heading.toList ++ ' ' :: pad ++ [' ', '|']) ++ '\n' :: (gutter line ++ text) ++
        '\n' :: (caretIndent line column ++ ['^']) ++ ['\n'] := by
    have barEnd : " |\n".toList = [' ', '|', '\n'] := by decide
    have bar : " | ".toList = [' ', '|', ' '] := by decide
    have feed : "\n ".toList = ['\n', ' '] := by decide
    have caret : "^\n".toList = ['^', '\n'] := by decide
    have blank : " ".toList = [' '] := by decide
    unfold excerpt
    rw [shown]
    simp only [heading, pad, gutter, caretIndent, toString, String.toList_append, String.toList_ofList, barEnd,
      bar, feed, caret, blank, List.append_assoc, List.cons_append, List.nil_append]
  rw [parts, endLines_eq _ noFeedAbove noFeedBelow]

end SourceText

/-! ## The character that a token starts with -/

/-- A token that is not the end of a text starts with a character that is not blank, where its place is. -/
theorem Lexer.Tiles.exists_lexeme {before cs : List Char} {tokens : List SpannedToken}
    (tiles : Lexer.Tiles before cs tokens) :
    ∀ t ∈ tokens, t.token.isEof = false → ∃ front c lexeme after, Text.isBlank c = false ∧
      before ++ cs = front ++ (c :: lexeme) ++ after ∧
      t.span = ⟨placeBehind front, placeBehind (front ++ c :: lexeme)⟩ := by
  induction tiles with
  | done =>
    intro t ht notEof
    obtain rfl := List.mem_singleton.mp ht
    cases notEof
  | @lexeme before gap c cs s tokens _ read text taken _ _ ih =>
    intro t ht notEof
    rcases List.mem_cons.mp ht with rfl | ht
    · cases used : s.lexeme with
      | nil => exact absurd used taken
      | cons d lexeme =>
        rw [used, List.cons_append] at text
        obtain rfl := (List.cons.inj text).1
        refine ⟨before ++ gap, d, lexeme, s.rest, isBlank_of_scan read, ?_, rfl⟩
        simp only [List.append_assoc]
    · obtain ⟨front, d, lexeme, after, blank, parts, span⟩ := ih t ht notEof
      refine ⟨front, d, lexeme, after, blank, ?_, span⟩
      rw [← parts]
      simp only [List.append_assoc]

/-- What the end of an excerpt is for a character of a text, between what is in front of it in its line and what
is behind it in the text: a line `above` and a line `below`. -/
structure PointsBehind (above below : List Char) (number : Nat) (line : List Char) (c : Char)
    (behind : List Char) : Prop where
  /-- The line above is the line that the character is in, up to its carriage returns at the end. -/
  shows : ∃ rest returns tail, behind = rest ++ returns ++ tail ∧ '\n' ∉ rest ++ returns ∧
    (tail = [] ∨ ∃ more, tail = '\n' :: more) ∧ (∀ r ∈ returns, r = '\r') ∧ rest.getLast? ≠ some '\r' ∧
    above = gutter number ++ (line ++ c :: rest)
  char : above[(gutter number).length + line.length]? = some c
  /-- The caret is one further right than the character, and there is no other caret. -/
  caret : ∀ i, below[i]? = some '^' ↔ i = (gutter number).length + line.length + 1

/-- The line that a character is in, if it is not blank, is shown up to its carriage returns at the end. -/
theorem SourceText.exists_line?_of_char {s : SourceText} {before after : List Char} {c : Char}
    (parts : s.content.toList = before ++ c :: after) (notBlank : Text.isBlank c = false) :
    ∃ rest returns tail, after = rest ++ returns ++ tail ∧ '\n' ∉ rest ++ returns ∧
      (tail = [] ∨ ∃ more, tail = '\n' :: more) ∧ (∀ r ∈ returns, r = '\r') ∧ rest.getLast? ≠ some '\r' ∧
      '\n' ∉ lastLine before ++ c :: rest ∧
      s.line? (before.count '\n' + 1) = some (String.ofList (lastLine before ++ c :: rest)) := by
  have noReturn : c ≠ '\r' := by
    rintro rfl
    cases notBlank
  have noFeed : '\n' ≠ c := by
    rintro rfl
    cases notBlank
  -- the line goes on up to the next line feed
  obtain ⟨behind, tail, whole, noFeedBehind, ends⟩ := exists_line after
  obtain ⟨returns, dropped, all, last⟩ := exists_dropReturns behind
  have noFeedShown : '\n' ∉ lastLine before ++ c :: dropReturns behind := by
    rw [List.mem_append, List.mem_cons, not_or, not_or]
    refine ⟨not_mem_lastLine before, noFeed, fun mem => noFeedBehind ?_⟩
    rw [← dropped]
    exact List.mem_append_left _ mem
  have shown : s.line? (before.count '\n' + 1) =
      some (String.ofList (lastLine before ++ c :: dropReturns behind)) := by
    rw [← dropReturns_append noReturn]
    refine line?_eq ?_ ?_ ends
    · rw [parts, List.cons_append, whole]
    · rw [List.mem_cons, not_or]
      exact ⟨noFeed, noFeedBehind⟩
  refine ⟨dropReturns behind, returns, tail, ?_, ?_, ends, all, last, noFeedShown, shown⟩
  · rw [dropped, whole]
  · rw [dropped]
    exact noFeedBehind

/-- The excerpt for the place of a character that is not blank shows the line of the character, if there is no
tab in front of it there, and the caret is one character right of it. -/
theorem SourceText.pointsBehind_excerpt {s : SourceText} {before after : List Char} {c : Char}
    (parts : s.content.toList = before ++ c :: after) (notBlank : Text.isBlank c = false)
    (noTab : '\t' ∉ lastLine before) (message : String) :
    let place := placeBehind before
    let lines := endLines (s.excerpt place.line place.column message).toList
    PointsBehind lines.1 lines.2 place.line (lastLine before) c after := by
  have column : (placeBehind before).column = (lastLine before).length + 1 := by
    rw [column_placeBehind]
    refine (column_placeBehind_iff (not_mem_lastLine before)).2.mpr fun i hi => ?_
    exact absurd (List.mem_of_getElem? hi) noTab
  obtain ⟨rest, returns, tail, whole, noFeed, ends, all, last, noFeedShown, shown⟩ :=
    exists_line?_of_char parts notBlank
  intro place lines
  have line : place.line = before.count '\n' + 1 := line_placeBehind before
  have found : lines = (gutter (before.count '\n' + 1) ++ (lastLine before ++ c :: rest),
      caretIndent (before.count '\n' + 1) ((lastLine before).length + 1) ++ ['^']) := by
    show endLines (s.excerpt place.line (placeBehind before).column message).toList = _
    rw [line, column, endLines_excerpt shown noFeedShown]
  rw [found, line]
  exact {
    shows := ⟨rest, returns, tail, whole, noFeed, ends, all, last, rfl⟩
    char := by
      rw [List.getElem?_append_right (Nat.le_add_right _ _), Nat.add_sub_cancel_left,
        List.getElem?_append_right (Nat.le_refl _), Nat.sub_self, List.getElem?_cons_zero]
    caret := fun i => by
      have noCaret := not_mem_caretIndent (c := '^') (before.count '\n' + 1) ((lastLine before).length + 1)
        (by decide) (by decide)
      rw [getElem?_concat_eq_some_iff noCaret, length_caretIndent]
      omega }

/-- So it is for all tokens of a text: the excerpt for the place of a token shows its line, and the caret is one
character right of the one that the token starts with. -/
theorem SourceText.pointsBehind_of_lex (s : SourceText) {countComments : Bool} {tokens : List SpannedToken}
    (read : Lexer.lex countComments s.content.toList = .ok tokens) {t : SpannedToken} (ht : t ∈ tokens)
    (notEof : t.token.isEof = false) :
    ∃ before c lexeme after, s.content.toList = before ++ (c :: lexeme) ++ after ∧
      t.span = ⟨placeBehind before, placeBehind (before ++ c :: lexeme)⟩ ∧
      ('\t' ∉ lastLine before → ∀ message,
        let lines := endLines (s.excerpt t.span.start.line t.span.start.column message).toList
        PointsBehind lines.1 lines.2 t.span.start.line (lastLine before) c (lexeme ++ after)) := by
  obtain ⟨before, c, lexeme, after, notBlank, parts, span⟩ := (Lexer.Tiles.of_lex read).exists_lexeme t ht notEof
  rw [List.nil_append] at parts
  refine ⟨before, c, lexeme, after, parts, span, fun noTab message => ?_⟩
  have place : t.span.start = placeBehind before := by rw [span]
  have split : s.content.toList = before ++ c :: (lexeme ++ after) := by
    rw [parts, List.append_assoc, List.cons_append]
  rw [place]
  exact pointsBehind_excerpt split notBlank noTab message

/-- The second token of a short text, without tabs. -/
theorem SourceText.pointsBehind_of_lex_shortTask :
    let s : SourceText := ⟨"p.tjp", "task t"⟩
    let t : SpannedToken := ⟨.id "t", ⟨⟨5, 1, 6⟩, ⟨6, 1, 7⟩⟩⟩
    let tokens := [⟨.id "task", ⟨⟨0, 1, 1⟩, ⟨4, 1, 5⟩⟩⟩, t, ⟨.eof, ⟨⟨6, 1, 7⟩, ⟨6, 1, 7⟩⟩⟩]
    Lexer.lex false s.content.toList = .ok tokens ∧ t ∈ tokens ∧ t.token.isEof = false ∧
      ∃ before c lexeme after, s.content.toList = before ++ (c :: lexeme) ++ after ∧
        t.span = ⟨placeBehind before, placeBehind (before ++ c :: lexeme)⟩ ∧ '\t' ∉ lastLine before ∧
        ∀ message,
          let lines := endLines (s.excerpt t.span.start.line t.span.start.column message).toList
          PointsBehind lines.1 lines.2 t.span.start.line (lastLine before) c (lexeme ++ after) := by
  intro s t tokens
  have chars : "task t".toList = ['t', 'a', 's', 'k', ' ', 't'] := by decide
  have read : Lexer.lex false s.content.toList = .ok tokens := by
    show Lexer.lex false "task t".toList = .ok tokens
    rw [chars]
    rfl
  have mem : t ∈ tokens := List.mem_cons_of_mem _ List.mem_cons_self
  obtain ⟨before, c, lexeme, after, parts, span, points⟩ := s.pointsBehind_of_lex read mem rfl
  have noTab : '\t' ∉ lastLine before := by
    intro tab
    have inText : '\t' ∈ "task t".toList := by
      rw [show "task t".toList = _ from parts, ← wholeLines_append_lastLine before]
      simp [tab]
    rw [chars] at inText
    revert inText
    decide
  exact ⟨read, mem, rfl, before, c, lexeme, after, parts, span, noTab, points noTab⟩

/-- The token is the tenth character of the line that is shown, and the caret is the eleventh of the line
below. -/
theorem SourceText.caret_shortTask :
    let s : SourceText := ⟨"p.tjp", "task t"⟩
    let lines := endLines (s.excerpt 1 6 "Unexpected").toList
    Lexer.lex false s.content.toList =
        .ok [⟨.id "task", ⟨⟨0, 1, 1⟩, ⟨4, 1, 5⟩⟩⟩, ⟨.id "t", ⟨⟨5, 1, 6⟩, ⟨6, 1, 7⟩⟩⟩,
          ⟨.eof, ⟨⟨6, 1, 7⟩, ⟨6, 1, 7⟩⟩⟩] ∧
      '\t' ∉ s.content.toList ∧ lines = ("1 | task t".toList, "   |      ^".toList) ∧
      lines.1[9]? = some 't' ∧ lines.2[9]? ≠ some '^' ∧ lines.2[10]? = some '^' := by
  intro s lines
  have chars : "task t".toList = ['t', 'a', 's', 'k', ' ', 't'] := by decide
  have read : Lexer.lex false ['t', 'a', 's', 'k', ' ', 't'] =
      .ok [⟨.id "task", ⟨⟨0, 1, 1⟩, ⟨4, 1, 5⟩⟩⟩, ⟨.id "t", ⟨⟨5, 1, 6⟩, ⟨6, 1, 7⟩⟩⟩,
        ⟨.eof, ⟨⟨6, 1, 7⟩, ⟨6, 1, 7⟩⟩⟩] := by rfl
  have ends : lines = ("1 | task t".toList, "   |      ^".toList) := by decide +kernel
  rw [ends]
  exact ⟨chars ▸ read, by decide, rfl, by decide, by decide, by decide⟩

end Planfile
