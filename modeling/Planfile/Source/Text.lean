import Planfile.Source.Position

/-!
# Planfile — the lines of a source text

Messages show the line they are about. Lines are the pieces between line feeds; carriage returns
at the end of a line are not shown.

The lines of a text are found in a table of the offsets at which they start. The table ascends, so
that an offset is searched in it and need not be counted up to.

An excerpt is a message with its line and a caret under the column.

Main results:

* `splitAtByte_append` — at the size of its first characters a text is split behind them.
* `SourceText.line?_zero` — lines are counted from one.
-/

namespace Planfile

/-- A text and the name it goes by in messages. -/
structure SourceText where
  name : String
  content : String
  deriving DecidableEq, Repr, Inhabited

/-! ## Pieces of a text -/

/-- The characters before an offset in bytes and those behind it. What has been passed so far is held in
reverse. -/
def splitAtByte (offset : Nat) (passed : List Char) : List Char → List Char × List Char
  | [] => (passed.reverse, [])
  | c :: cs =>
    if offset = 0 then (passed.reverse, c :: cs)
    else splitAtByte (offset - c.utf8Size) (c :: passed) cs

/-- The characters between two offsets in bytes. -/
def byteSlice (start stop : Nat) (cs : List Char) : List Char :=
  (splitAtByte (stop - start) [] (splitAtByte start [] cs).2).1

/-- At the size of its first characters a text is split behind them. -/
theorem splitAtByte_append (passed xs ys : List Char) :
    splitAtByte (byteSize xs) passed (xs ++ ys) = (passed.reverse ++ xs, ys) := by
  induction xs generalizing passed with
  | nil => cases ys <;> simp [splitAtByte]
  | cons x xs ih =>
    have bytes := Char.utf8Size_pos x
    have more : ¬x.utf8Size + byteSize xs = 0 := by omega
    rw [List.cons_append, byteSize_cons, splitAtByte, if_neg more, Nat.add_sub_cancel_left, ih,
      List.reverse_cons, List.append_assoc, List.singleton_append]

/-- Between the offsets of a piece of a text there is the piece. -/
theorem byteSlice_append (xs ys zs : List Char) :
    byteSlice (byteSize xs) (byteSize xs + byteSize ys) (xs ++ (ys ++ zs)) = ys := by
  rw [byteSlice, splitAtByte_append, Nat.add_sub_cancel_left, splitAtByte_append, List.reverse_nil,
    List.nil_append]

/-- A line without the carriage returns at its end. -/
def dropReturns (line : List Char) : List Char := (line.reverse.dropWhile (· == '\r')).reverse

/-! ## Where lines start -/

/-- The offsets behind the line feeds of a text that stands at an offset, behind those that have been
found before, which are held in reverse. -/
def lineStartsFrom (offset : Nat) (found : List Nat) : List Char → List Nat
  | [] => found.reverse
  | c :: cs => lineStartsFrom (offset + c.utf8Size) (if c = '\n' then (offset + 1) :: found else found) cs

/-- The offsets at which the lines of a text start. -/
def lineStarts (cs : List Char) : List Nat := lineStartsFrom 0 [0] cs

/-- Searches a number in an ascending list: its index, or else the index at which it would have to stand. -/
def searchSorted (numbers : List Nat) (n : Nat) : Except Nat Nat :=
  let before := (numbers.takeWhile (· < n)).length
  if numbers[before]? = some n then .ok before else .error before

namespace SourceText

/-- The table of lines of a text. -/
def lineStarts (s : SourceText) : List Nat := Planfile.lineStarts s.content.toList

/-- The number of lines: one more than there are line feeds. -/
def lineCount (s : SourceText) : Nat := s.lineStarts.length

/-- The index of the line that an offset is in. An offset at which no line starts is in the line before. -/
def lineIndex (s : SourceText) (offset : Nat) : Nat :=
  match searchSorted s.lineStarts offset with
  | .ok i => i
  | .error i => i - 1

/-- The place at an offset; columns count characters, and offsets past the end mean the end. -/
def positionAt (s : SourceText) (offset : Nat) : Position :=
  let offset := min offset s.content.utf8ByteSize
  let line := s.lineIndex offset
  let column := (byteSlice (s.lineStarts[line]?.getD 0) offset s.content.toList).length
  ⟨offset, line + 1, column + 1⟩

/-- The offset at which a line ends, by the index of the line: in front of the line feed that ends it, or with
the text. -/
def lineStop (s : SourceText) (line : Nat) : Nat :=
  match s.lineStarts[line + 1]? with
  | some next => next - 1
  | none => s.content.utf8ByteSize

/-- A line by its number, without line feed and carriage returns. -/
def line? (s : SourceText) : Nat → Option String
  | 0 => none
  | n + 1 =>
    s.lineStarts[n]?.map fun start =>
      String.ofList (dropReturns (byteSlice start (s.lineStop n) s.content.toList))

/-- Lines are counted from one. -/
theorem line?_zero (s : SourceText) : s.line? 0 = none := rfl

/-- A message about a place: heading, place and, when the line exists, the line with a caret under
the column. -/
def excerpt (s : SourceText) (line column : Nat) (message : String) : String :=
  let heading := s!"Error: {message}\n  --> {s.name}:{line}:{column}\n"
  match s.line? line with
  | none => heading
  | some text =>
    let gutter := String.ofList (List.replicate (toString line).length ' ')
    let indent := String.ofList (List.replicate (column - 1) ' ')
    heading ++ s!" {gutter} |\n{line} | {text}\n {gutter} | {indent}^\n"

end SourceText

end Planfile
