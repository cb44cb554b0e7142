/-!
# Planfile — places in a text

A place is known by its offset in bytes and by line and column, which count from one. Places move
forward over characters: a line feed starts the next line, a tab goes on to the next multiple of
eight columns, every other character takes one column.

Main results:

* `byteSize_toList` — the size of the characters of a string is the size of the string.
* `Position.advanceAll_append` — moving over two texts is moving over one after the other.
* `Position.offset_advanceAll` — the offset grows by the size of the text.
* `Position.offset_le_advanceAll` — places never move back.
-/

namespace Planfile

/-- A place in a text. -/
structure Position where
  offset : Nat
  line : Nat
  column : Nat
  deriving DecidableEq, Repr, Inhabited

/-- The place before the first character. -/
def Position.start : Position := ⟨0, 1, 1⟩

/-- The place after one more character. -/
def Position.advance (p : Position) (c : Char) : Position :=
  if c = '\n' then ⟨p.offset + 1, p.line + 1, 1⟩
  else if c = '\t' then ⟨p.offset + 1, p.line, p.column + 8 - (p.column - 1) % 8⟩
  else ⟨p.offset + c.utf8Size, p.line, p.column + 1⟩

/-- The place after a text. -/
def Position.advanceAll (p : Position) (cs : List Char) : Position := cs.foldl Position.advance p

/-- The size of a text in bytes. -/
def byteSize (cs : List Char) : Nat := cs.foldl (fun n c => n + c.utf8Size) 0

/-- Counting on from a number adds the size of the text to it. -/
theorem foldl_utf8Size (n : Nat) (cs : List Char) :
    cs.foldl (fun n c => n + c.utf8Size) n = n + byteSize cs := by
  induction cs generalizing n with
  | nil => rfl
  | cons c cs ih =>
    simp only [byteSize, List.foldl_cons]
    rw [ih, ih (0 + c.utf8Size)]
    omega

/-- No text takes no bytes. -/
@[simp] theorem byteSize_nil : byteSize [] = 0 := rfl

/-- The size of a text is the sum over its characters. -/
@[simp] theorem byteSize_cons (c : Char) (cs : List Char) :
    byteSize (c :: cs) = c.utf8Size + byteSize cs := by
  simp only [byteSize, List.foldl_cons]
  rw [foldl_utf8Size, Nat.zero_add, byteSize]

/-- The sizes of two texts add up. -/
theorem byteSize_append (xs ys : List Char) :
    byteSize (xs ++ ys) = byteSize xs + byteSize ys := by
  induction xs with
  | nil => simp
  | cons c xs ih => simp [ih, Nat.add_assoc]

/-- The size of the characters of a string is the size of the string. -/
theorem byteSize_toList (s : String) : byteSize s.toList = s.utf8ByteSize := by
  have ofList : ∀ cs : List Char, byteSize cs = (String.ofList cs).utf8ByteSize := by
    intro cs
    induction cs with
    | nil => simp
    | cons c cs ih =>
      have first : String.ofList (c :: cs) = String.singleton c ++ String.ofList cs := by
        rw [String.singleton_eq_ofList, ← String.ofList_append, List.singleton_append]
      rw [byteSize_cons, ih, first, String.utf8ByteSize_append, String.utf8ByteSize_singleton]
  rw [ofList, String.ofList_toList]

/-- No text moves nowhere. -/
@[simp] theorem Position.advanceAll_nil (p : Position) : p.advanceAll [] = p := rfl

/-- A text is moved over from its first character on. -/
@[simp] theorem Position.advanceAll_cons (p : Position) (c : Char) (cs : List Char) :
    p.advanceAll (c :: cs) = (p.advance c).advanceAll cs := rfl

/-- Moving over two texts is moving over one after the other. -/
theorem Position.advanceAll_append (p : Position) (xs ys : List Char) :
    p.advanceAll (xs ++ ys) = (p.advanceAll xs).advanceAll ys := by
  simp [Position.advanceAll, List.foldl_append]

/-- A character moves the offset on by its size, whatever it does to line and column. -/
theorem Position.offset_advance (p : Position) (c : Char) :
    (p.advance c).offset = p.offset + c.utf8Size := by
  unfold Position.advance
  split
  · next h => subst h; rfl
  · split
    · next h => subst h; rfl
    · rfl

/-- A text moves the offset on by its size. -/
theorem Position.offset_advanceAll (p : Position) (cs : List Char) :
    (p.advanceAll cs).offset = p.offset + byteSize cs := by
  induction cs generalizing p with
  | nil => simp
  | cons c cs ih =>
    rw [Position.advanceAll_cons, ih, Position.offset_advance, byteSize_cons]
    omega

/-- Places never move back. -/
theorem Position.offset_le_advanceAll (p : Position) (cs : List Char) :
    p.offset ≤ (p.advanceAll cs).offset := by
  rw [Position.offset_advanceAll]
  omega

/-- Places are compared by offset, then by line, then by column. -/
def Position.order (p q : Position) : Ordering :=
  (compare p.offset q.offset).then ((compare p.line q.line).then (compare p.column q.column))

/-- A place as `line:column`. -/
def Position.text (p : Position) : String := s!"{p.line}:{p.column}"

/-- The stretch of text from one place to another. -/
structure Span where
  start : Position
  stop : Position
  deriving DecidableEq, Repr, Inhabited

/-- The size of a span in bytes. -/
def Span.size (s : Span) : Nat := s.stop.offset - s.start.offset

/-- Whether a span holds no text. -/
def Span.isEmpty (s : Span) : Bool := s.start.offset == s.stop.offset

/-- A span as `line:column-column`, or as two places when it goes over lines. -/
def Span.text (s : Span) : String :=
  if s.start.line = s.stop.line then s!"{s.start.line}:{s.start.column}-{s.stop.column}"
  else s!"{s.start.text}-{s.stop.text}"

end Planfile

/-!
## Places among several files

A plan can include other files, so a message names the file beside line and column.
-/

namespace Planfile

/-- A line and column of a named file. -/
structure Location where
  file : String
  line : Nat
  column : Nat
  deriving DecidableEq, Repr, Inhabited

/-- A place in a file. -/
def Location.ofPosition (file : String) (p : Position) : Location := ⟨file, p.line, p.column⟩

/-- The first place of a file. -/
def Location.startOf (file : String) : Location := .ofPosition file .start

/-- The span of the one character at a location. -/
def Location.span (l : Location) : Span := ⟨⟨0, l.line, l.column⟩, ⟨0, l.line, l.column + 1⟩⟩

/-- A location as `file:line:column`. -/
def Location.text (l : Location) : String := s!"{l.file}:{l.line}:{l.column}"

end Planfile
