import Mathlib.Data.List.Induction
import Mathlib.Data.List.TakeWhile
import Planfile.Proofs.Token.Tiling
import Planfile.Source.Text

/-!
# Planfile — places that are counted and places that are looked up

There are two ways to know the place of an offset. It can be counted, character by character from the start
of the text, as the lexer does it. Or it can be looked up: the line is searched in the table of lines, and
the column is the number of characters from the start of the line on. The two do not say the same. A tab that
is counted goes on to the next multiple of eight columns, and a tab that is looked up is one character.

Both ways cut the text in front of the offset in two, the lines that are complete and the line that is not.
Of the former only their number and their size matter, of the latter only its characters.

Main results:

* `exists_lineStarts` — the table has an entry for each line feed in front of an offset, then the start of
  the line that the offset is in, then what is behind it.
* `column_placeBehind_iff` — a column counts characters if all tabs stand in front of a multiple of eight.
* `SourceText.positionAt_eq` — what is looked up.
* `SourceText.positionAt_eq_placeBehind_iff` — the two ways agree if and only if such tabs are the only ones.
-/

namespace Planfile

/-! ## The last line of a text -/

/-- The lines of a text up to its last line feed. -/
def wholeLines (cs : List Char) : List Char := (cs.reverse.dropWhile (· != '\n')).reverse

/-- What stands behind the last line feed of a text. -/
def lastLine (cs : List Char) : List Char := (cs.reverse.takeWhile (· != '\n')).reverse

section

variable (cs : List Char) {c : Char}

theorem wholeLines_append_lastLine : wholeLines cs ++ lastLine cs = cs := by
  rw [wholeLines, lastLine, ← List.reverse_append, List.takeWhile_append_dropWhile, List.reverse_reverse]

theorem byteSize_wholeLines_le : byteSize (wholeLines cs) ≤ byteSize cs :=
  Lexer.byteSize_le_of_isPrefix ⟨lastLine cs, wholeLines_append_lastLine cs⟩

theorem not_mem_lastLine : '\n' ∉ lastLine cs := by
  intro mem
  rw [lastLine, List.mem_reverse] at mem
  have other := List.mem_takeWhile_imp mem
  simp at other

theorem wholeLines_lineFeed : wholeLines (cs ++ ['\n']) = cs ++ ['\n'] := by
  simp [wholeLines]

theorem lastLine_lineFeed : lastLine (cs ++ ['\n']) = [] := by
  simp [lastLine]

variable {cs}

theorem wholeLines_concat (h : c ≠ '\n') : wholeLines (cs ++ [c]) = wholeLines cs := by
  simp [wholeLines, h]

theorem count_concat (h : c ≠ '\n') : (cs ++ [c]).count '\n' = cs.count '\n' := by
  rw [List.count_append, List.count_singleton, if_neg (by simpa using h), Nat.add_zero]

theorem lastLine_concat (h : c ≠ '\n') : lastLine (cs ++ [c]) = lastLine cs ++ [c] := by
  simp [lastLine, h]

/-- Behind a line feed that is the last one, there is the last line. -/
theorem lastLine_append (before : List Char) {line : List Char} (noFeed : '\n' ∉ line) :
    wholeLines (before ++ '\n' :: line) = before ++ ['\n'] ∧ lastLine (before ++ '\n' :: line) = line := by
  induction line using List.reverseRecOn with
  | nil => exact ⟨wholeLines_lineFeed before, lastLine_lineFeed before⟩
  | append_singleton line c ih =>
    rw [List.mem_append, not_or, List.mem_singleton] at noFeed
    have notFeed : c ≠ '\n' := fun h => noFeed.2 h.symm
    obtain ⟨lines, last⟩ := ih noFeed.1
    rw [← List.cons_append, ← List.append_assoc, wholeLines_concat notFeed, lastLine_concat notFeed, lines, last]
    exact ⟨rfl, rfl⟩

end

/-! ## The table of lines -/

/-- What has been found before stays in front. -/
theorem lineStartsFrom_eq_append (offset : Nat) (found : List Nat) (cs : List Char) :
    lineStartsFrom offset found cs = found.reverse ++ lineStartsFrom offset [] cs := by
  induction cs generalizing offset found with
  | nil => simp [lineStartsFrom]
  | cons c cs ih =>
    by_cases feed : c = '\n'
    · rw [lineStartsFrom, lineStartsFrom, if_pos feed, if_pos feed, ih, ih _ [_], List.reverse_cons,
        List.append_assoc]
      rfl
    · rw [lineStartsFrom, lineStartsFrom, if_neg feed, if_neg feed, ih]

/-- A text that goes on is looked through from where it goes on. -/
theorem lineStartsFrom_append (offset : Nat) (found : List Nat) (xs ys : List Char) :
    lineStartsFrom offset found (xs ++ ys) =
      lineStartsFrom offset found xs ++ lineStartsFrom (offset + byteSize xs) [] ys := by
  induction xs generalizing offset found with
  | nil => exact lineStartsFrom_eq_append _ _ _
  | cons x xs ih =>
    rw [List.cons_append, lineStartsFrom, lineStartsFrom, ih, byteSize_cons, Nat.add_assoc]

/-- Lines start behind the offset from which on a text is looked through. -/
theorem lt_of_mem_lineStartsFrom {offset n : Nat} {cs : List Char} (h : n ∈ lineStartsFrom offset [] cs) :
    offset < n := by
  induction cs generalizing offset with
  | nil => cases h
  | cons c cs ih =>
    have bytes := one_le_utf8Size c
    rw [lineStartsFrom, lineStartsFrom_eq_append] at h
    rcases List.mem_append.mp h with this | later
    · split at this
      · rw [List.reverse_singleton, List.mem_singleton] at this
        omega
      · cases this
    · have further := ih later
      omega

theorem lineStarts_append (xs ys : List Char) :
    lineStarts (xs ++ ys) = lineStarts xs ++ lineStartsFrom (byteSize xs) [] ys := by
  rw [lineStarts, lineStartsFrom_append, Nat.zero_add]
  rfl

/-- The table of a text ends with the start of its last line. In front of it there is an entry for each line
feed. -/
theorem exists_lineStarts_of_lastLine (cs : List Char) :
    ∃ earlier, lineStarts cs = earlier ++ [byteSize (wholeLines cs)] ∧ earlier.length = cs.count '\n' ∧
      ∀ n ∈ earlier, n < byteSize (wholeLines cs) := by
  -- the text grows at its end, where a line feed starts one more line and leaves the others as they are
  induction cs using List.reverseRecOn with
  | nil => exact ⟨[], rfl, rfl, by simp⟩
  | append_singleton cs c ih =>
    obtain ⟨earlier, starts, number, below⟩ := ih
    rw [lineStarts_append]
    by_cases feed : c = '\n'
    · -- the line that was the last one is complete
      subst feed
      have within := byteSize_wholeLines_le cs
      have size : byteSize (cs ++ ['\n']) = byteSize cs + 1 := byteSize_append _ _
      refine ⟨lineStarts cs, ?_, ?_, fun n hn => ?_⟩
      · rw [wholeLines_lineFeed, size]
        rfl
      · rw [starts, List.length_append, number, List.count_append]
        rfl
      · rw [wholeLines_lineFeed, size]
        rw [starts] at hn
        rcases List.mem_append.mp hn with hn | hn
        · have less := below n hn
          omega
        · obtain rfl := List.mem_singleton.mp hn
          omega
    · have nothing : lineStartsFrom (byteSize cs) [] [c] = [] := by
        rw [lineStartsFrom, if_neg feed]
        rfl
      rw [nothing, List.append_nil, wholeLines_concat feed, count_concat feed]
      exact ⟨earlier, starts, number, below⟩

/-- The table of a text around an offset: as many entries as there are line feeds in front, then the start of
the line that the offset is in, then what is behind the offset. -/
theorem exists_lineStarts (before after : List Char) :
    ∃ earlier later, lineStarts (before ++ after) = earlier ++ byteSize (wholeLines before) :: later ∧
      earlier.length = before.count '\n' ∧ (∀ n ∈ earlier, n < byteSize (wholeLines before)) ∧
      ∀ n ∈ later, byteSize before < n := by
  obtain ⟨earlier, starts, number, below⟩ := exists_lineStarts_of_lastLine before
  refine ⟨earlier, lineStartsFrom (byteSize before) [] after, ?_, number, below,
    fun n hn => lt_of_mem_lineStartsFrom hn⟩
  rw [lineStarts_append, starts, List.append_assoc, List.singleton_append]

/-! ## Places that are counted

A place is counted from the start of the text on, so texts grow at their end in the inductions here.
-/

/-- The column behind a character depends on the column in front of it only. -/
theorem Position.column_advance_congr {p q : Position} (h : p.column = q.column) (c : Char) :
    (p.advance c).column = (q.advance c).column := by
  unfold Position.advance
  split
  · rfl
  · split
    · show p.column + 8 - (p.column - 1) % 8 = q.column + 8 - (q.column - 1) % 8
      rw [h]
    · show p.column + 1 = q.column + 1
      rw [h]

theorem placeBehind_concat (before : List Char) (c : Char) :
    placeBehind (before ++ [c]) = (placeBehind before).advance c := placeBehind_append before [c]

/-- Lines are counted by the line feeds in front. -/
theorem line_placeBehind (before : List Char) : (placeBehind before).line = before.count '\n' + 1 := by
  induction before using List.reverseRecOn with
  | nil => rfl
  | append_singleton before c ih =>
    rw [placeBehind_concat, Position.advance]
    by_cases feed : c = '\n'
    · have count : (before ++ [c]).count '\n' = before.count '\n' + 1 := by
        rw [feed, List.count_append]
        rfl
      rw [if_pos feed, count, ← ih]
    · rw [if_neg feed, count_concat feed, ← ih]
      split <;> rfl

/-- Columns are counted over the last line. -/
theorem column_placeBehind (before : List Char) :
    (placeBehind before).column = (placeBehind (lastLine before)).column := by
  induction before using List.reverseRecOn with
  | nil => rfl
  | append_singleton before c ih =>
    by_cases feed : c = '\n'
    · subst feed
      rw [lastLine_lineFeed, placeBehind_concat]
      rfl
    · rw [lastLine_concat feed, placeBehind_concat, placeBehind_concat]
      exact Position.column_advance_congr ih c

/-- Whether every tab of a line stands in front of a multiple of eight, where it takes a single column. -/
def TabsAlign (cs : List Char) : Prop := ∀ i, cs[i]? = some '\t' → i % 8 = 7

theorem tabsAlign_concat {line : List Char} {c : Char} :
    TabsAlign (line ++ [c]) ↔ TabsAlign line ∧ (c = '\t' → line.length % 8 = 7) := by
  constructor
  · intro align
    refine ⟨fun i hi => align i ?_, fun tab => align line.length ?_⟩
    · rw [List.getElem?_append_left (List.getElem?_eq_some_iff.mp hi).1, hi]
    · rw [tab, List.getElem?_concat_length]
  · rintro ⟨align, last⟩ i hi
    by_cases within : i < line.length
    · rw [List.getElem?_append_left within] at hi
      exact align i hi
    · have size := (List.getElem?_eq_some_iff.mp hi).1
      rw [List.length_append, List.length_singleton] at size
      obtain rfl : i = line.length := by omega
      rw [List.getElem?_concat_length] at hi
      exact last (Option.some.inj hi)

/-- A line takes at least a column for each character, and no more if and only if all of its tabs stand in
front of a multiple of eight. -/
theorem column_placeBehind_iff {line : List Char} (noFeed : '\n' ∉ line) :
    line.length + 1 ≤ (placeBehind line).column ∧
      ((placeBehind line).column = line.length + 1 ↔ TabsAlign line) := by
  induction line using List.reverseRecOn with
  | nil =>
    refine ⟨Nat.le_refl _, iff_of_true rfl fun i hi => ?_⟩
    cases hi
  | append_singleton line c ih =>
    rw [List.mem_append, not_or, List.mem_singleton] at noFeed
    obtain ⟨least, exact⟩ := ih noFeed.1
    have notFeed : ¬c = '\n' := fun h => noFeed.2 h.symm
    rw [tabsAlign_concat, ← exact, placeBehind_concat, Position.advance, if_neg notFeed, List.length_append,
      List.length_singleton]
    -- a tab takes one column only where it stands in the last one of eight, and not where another tab has
    -- taken more than one before
    by_cases tab : c = '\t'
    · rw [if_pos tab]
      show _ ≤ (placeBehind line).column + 8 - ((placeBehind line).column - 1) % 8 ∧
        ((placeBehind line).column + 8 - ((placeBehind line).column - 1) % 8 = _ ↔ _)
      refine ⟨by omega, fun h => ⟨by omega, fun _ => by omega⟩, fun h => ?_⟩
      have align := h.2 tab
      omega
    · rw [if_neg tab]
      show _ ≤ (placeBehind line).column + 1 ∧ ((placeBehind line).column + 1 = _ ↔ _)
      refine ⟨by omega, fun h => ⟨by omega, fun h => absurd h tab⟩, fun h => ?_⟩
      omega

/-- Tokens tile the text that they are read from, so that their places are counted in it. -/
theorem Lexer.Tiles.of_lex {countComments : Bool} {cs : List Char} {tokens : List SpannedToken}
    (h : Lexer.lex countComments cs = .ok tokens) : Lexer.Tiles [] cs tokens := by
  have fromStart : Lexer.lexFrom countComments cs.length (placeBehind []) cs [] 0 = .ok tokens := h
  obtain ⟨_, rfl, tiles⟩ := Lexer.exists_tiles_of_lexFrom (Nat.le_refl _) fromStart
  exact tiles

/-! ## Places that are looked up -/

/-- In a list that ascends around a number, the search ends at the last entry that is not greater, or behind
it. -/
theorem searchSorted_eq {earlier later : List Nat} {m n : Nat} (below : ∀ k ∈ earlier, k < m) (le : m ≤ n)
    (above : ∀ k ∈ later, n < k) :
    searchSorted (earlier ++ m :: later) n = if m = n then .ok earlier.length else .error (earlier.length + 1) := by
  have front : ∀ k ∈ earlier, decide (k < n) = true := by
    intro k hk
    have less := below k hk
    rw [decide_eq_true_iff]
    omega
  have behind : later.takeWhile (· < n) = [] := by
    cases later with
    | nil => rfl
    | cons k later =>
      have greater := above k List.mem_cons_self
      exact List.takeWhile_cons_of_neg (by rw [decide_eq_true_iff]; omega)
  unfold searchSorted
  dsimp only
  rw [List.takeWhile_append_of_pos front]
  -- the entry in the middle is where the search ends, if it is what is searched, and is passed otherwise
  by_cases same : m = n
  · have stops : (m :: later).takeWhile (· < n) = [] :=
      List.takeWhile_cons_of_neg (by rw [decide_eq_true_iff]; omega)
    rw [stops, List.append_nil, List.getElem?_append_right (Nat.le_refl _), Nat.sub_self, List.getElem?_cons_zero,
      if_pos (congrArg some same), if_pos same]
  · have passes : (m :: later).takeWhile (· < n) = [m] := by
      rw [List.takeWhile_cons_of_pos (by rw [decide_eq_true_iff]; omega), behind]
    have missing : ¬(earlier ++ m :: later)[earlier.length + 1]? = some n := by
      rw [List.getElem?_append_right (Nat.le_add_right _ _), Nat.add_sub_cancel_left, List.getElem?_cons_succ]
      intro found
      have greater := above n (List.mem_of_getElem? found)
      omega
    rw [passes, List.length_append, List.length_singleton, if_neg missing, if_neg same]

namespace SourceText

variable {s : SourceText} {before after : List Char}

/-- The line of an offset is known by the line feeds in front of it, and the table knows where it starts. -/
theorem lineIndex_eq (h : s.content.toList = before ++ after) :
    s.lineIndex (byteSize before) = before.count '\n' ∧
      s.lineStarts[before.count '\n']? = some (byteSize (wholeLines before)) := by
  obtain ⟨earlier, later, starts, number, below, above⟩ := exists_lineStarts before after
  rw [lineIndex, lineStarts, h, starts, searchSorted_eq below (byteSize_wholeLines_le before) above, ← number]
  constructor
  · by_cases begins : byteSize (wholeLines before) = byteSize before
    · rw [if_pos begins]
    · rw [if_neg begins]
      rfl
  · rw [List.getElem?_append_right (Nat.le_refl _), Nat.sub_self, List.getElem?_cons_zero]

/-- At an offset there is found the line that it is in and the number of characters in front of it there. -/
theorem positionAt_eq (h : s.content.toList = before ++ after) :
    s.positionAt (byteSize before) =
      ⟨byteSize before, before.count '\n' + 1, (lastLine before).length + 1⟩ := by
  obtain ⟨line, start⟩ := lineIndex_eq h
  have within : min (byteSize before) s.content.utf8ByteSize = byteSize before := by
    rw [← byteSize_toList, h, byteSize_append]
    omega
  have parts : s.content.toList = wholeLines before ++ (lastLine before ++ after) := by
    rw [← List.append_assoc, wholeLines_append_lastLine, h]
  have size : byteSize before = byteSize (wholeLines before) + byteSize (lastLine before) := by
    rw [← byteSize_append, wholeLines_append_lastLine]
  have slice : byteSlice (byteSize (wholeLines before)) (byteSize before) s.content.toList = lastLine before := by
    rw [parts, size, byteSlice_append]
  unfold positionAt
  dsimp only
  rw [within, line, start, Option.getD_some, slice]

/-- The place of an offset is the same by both ways, but for its column, for which the characters of the line
and not its tabs are counted: it is the same if and only if all tabs in front stand in front of a multiple of
eight. So it is for the places of tokens. -/
theorem positionAt_eq_placeBehind_iff (s : SourceText) (small : s.content.utf8ByteSize < Nat.pow 2 28) :
    (∀ before after, s.content.toList = before ++ after →
      let found := s.positionAt (byteSize before)
      let counted := placeBehind before
      found.Fits32 ∧ counted.Fits32 ∧ found.offset = counted.offset ∧ found.line = counted.line ∧
        found.column ≤ counted.column ∧ (found = counted ↔ TabsAlign (lastLine before))) ∧
    ∀ countComments tokens, Lexer.lex countComments s.content.toList = .ok tokens → ∀ t ∈ tokens,
      ∃ before after, s.content.toList = before ++ after ∧ t.span.start = placeBehind before ∧
        (s.positionAt t.span.start.offset = t.span.start ↔ TabsAlign (lastLine before)) := by
  have offset (before : List Char) : (placeBehind before).offset = byteSize before := by
    rw [placeBehind, Position.offset_advanceAll]
    exact Nat.zero_add _
  -- the columns are all that can differ, and they agree where the tabs of the line are aligned
  have agree {before after : List Char} (h : s.content.toList = before ++ after) :
      (lastLine before).length + 1 ≤ (placeBehind before).column ∧
        (s.positionAt (byteSize before) = placeBehind before ↔ TabsAlign (lastLine before)) := by
    obtain ⟨least, exact⟩ := column_placeBehind_iff (not_mem_lastLine before)
    rw [← column_placeBehind] at least exact
    refine ⟨least, ?_⟩
    rw [← exact, positionAt_eq h, ← line_placeBehind, ← offset]
    exact ⟨fun same => congrArg Position.column same.symm, fun same => by rw [← same]⟩
  constructor
  · intro before after h found counted
    have fits : counted.Fits32 := by
      refine Position.fits32_start_advanceAll (Nat.lt_of_le_of_lt ?_ small)
      rw [← byteSize_toList, h, byteSize_append]
      exact Nat.le_add_right _ _
    have line : found.line = counted.line := by
      rw [line_placeBehind, show found = _ from positionAt_eq h]
    have column : found.column ≤ counted.column := by
      rw [show found = _ from positionAt_eq h]
      exact (agree h).1
    refine ⟨⟨line ▸ fits.1, Nat.le_trans column fits.2⟩, fits, ?_, line, column, (agree h).2⟩
    rw [offset, show found = _ from positionAt_eq h]
  · intro countComments tokens read t ht
    have tiles := Lexer.Tiles.of_lex read
    obtain ⟨before, stop, ⟨after, h⟩, -, span⟩ := tiles.exists_prefix t ht
    refine ⟨before, after, h.symm, by rw [span], ?_⟩
    rw [span, offset]
    exact (agree h.symm).2

/-- A tab behind seven blanks takes one column in both ways. -/
theorem positionAt_eq_placeBehind_alignedTab :
    let s : SourceText := ⟨"p.tjp", "       \tx"⟩
    let before := [' ', ' ', ' ', ' ', ' ', ' ', ' ', '\t']
    s.content.utf8ByteSize < Nat.pow 2 28 ∧ s.content.toList = before ++ ['x'] ∧
      s.positionAt 8 = ⟨8, 1, 9⟩ ∧ s.positionAt (byteSize before) = placeBehind before := by
  intro s before
  have small : s.content.utf8ByteSize < Nat.pow 2 28 := by decide
  have parts : s.content.toList = before ++ ['x'] := by decide
  have align : TabsAlign (lastLine before) := (column_placeBehind_iff (not_mem_lastLine before)).2.mp rfl
  have same := ((positionAt_eq_placeBehind_iff s small).1 before ['x'] parts).2.2.2.2.2.mpr align
  exact ⟨small, parts, same, same⟩

/-- A tab at the start of a line goes on to the ninth column where it is counted, as the lexer does it, and to
the second where it is looked up. -/
theorem positionAt_ne_placeBehind_leadingTab :
    let s : SourceText := ⟨"p.tjp", "\tx"⟩
    s.content.utf8ByteSize < Nat.pow 2 28 ∧ s.content.toList = ['\t'] ++ ['x'] ∧
      placeBehind ['\t'] = ⟨1, 1, 9⟩ ∧ s.positionAt (byteSize ['\t']) = ⟨1, 1, 2⟩ ∧
      s.positionAt (byteSize ['\t']) ≠ placeBehind ['\t'] ∧
      Lexer.lex false s.content.toList =
        .ok [⟨.id "x", ⟨⟨1, 1, 9⟩, ⟨2, 1, 10⟩⟩⟩, ⟨.eof, ⟨⟨2, 1, 10⟩, ⟨2, 1, 10⟩⟩⟩] := by
  intro s
  have chars : "\tx".toList = ['\t', 'x'] := by decide
  have read : Lexer.lex false ['\t', 'x'] =
      .ok [⟨.id "x", ⟨⟨1, 1, 9⟩, ⟨2, 1, 10⟩⟩⟩, ⟨.eof, ⟨⟨2, 1, 10⟩, ⟨2, 1, 10⟩⟩⟩] := by rfl
  have parts : s.content.toList = ['\t'] ++ ['x'] := chars
  have found : s.positionAt (byteSize ['\t']) = ⟨1, 1, 2⟩ := positionAt_eq parts
  have other : s.positionAt (byteSize ['\t']) ≠ placeBehind ['\t'] := by
    rw [found]
    decide
  exact ⟨by decide, parts, rfl, found, other, chars ▸ read⟩

end SourceText

end Planfile
