import Mathlib.Data.List.Infix
import Planfile.Log.Memory

/-!
# Planfile — what the log keeps

The log is bounded twice: a message by its size in bytes, and a memory by the number of its events. What goes
beyond is given up, the end of a message and the oldest of the events.

A message is cut at the last place within the bound at which no character is cut in two. The search for it goes
back byte by byte. It comes to an end within the text, since every text can be cut in front of its first
character, and after three steps at most, since no character has more than four bytes.

How many events a memory gives up is decided by how many it holds, and not by how many it has been told of. So
what is kept along a run says both, that a memory holds the end of what it has been told, and how much of it.

Main results:

* `exists_lastBoundary?` — the search ends at the greatest size of a start of the text within the bound.
* `Event.message_of` — what becomes of the message of an event.
* `Memory.HoldsNewest.remember` — a memory of the newest events is one when it is told one more.
* `Recorder.newest_of_recordAll` — what the memories of a recorder hold after any events.
-/

namespace Planfile.Log

/-! ## Where a message is cut -/

/-- A text can be cut at the sizes of its starts. -/
theorem isValid_iff {text : String} {offset : Nat} : String.Pos.Raw.isValid text ⟨offset⟩ = true ↔
    ∃ start rest, text = start ++ rest ∧ offset = start.utf8ByteSize := by
  rw [String.Pos.Raw.isValid_eq_true_iff, String.Pos.Raw.isValid_iff_exists_append]
  simp only [String.Pos.Raw.ext_iff, String.byteIdx_rawEndPos]

/-- The search ends with the size of a start of the text, and no start within the bound is larger. -/
theorem exists_lastBoundary? (text : String) (offset : Nat) :
    ∃ start rest, text = start ++ rest ∧ start.utf8ByteSize ≤ offset ∧
      lastBoundary? text offset = some start.utf8ByteSize ∧
      ∀ other more, text = other ++ more → other.utf8ByteSize ≤ offset →
        other.utf8ByteSize ≤ start.utf8ByteSize := by
  induction offset with
  | zero =>
    -- here the search would go below zero, if a text could not be cut in front of its first character
    have front : String.Pos.Raw.isValid text ⟨0⟩ = true := isValid_iff.mpr ⟨"", text, by simp, rfl⟩
    refine ⟨"", text, by simp, Nat.le_refl _, ?_, fun other more _ within => within⟩
    rw [lastBoundary?, if_pos front]
    rfl
  | succ offset ih =>
    by_cases here : String.Pos.Raw.isValid text ⟨offset + 1⟩ = true
    · -- the search ends with the bound itself
      obtain ⟨start, rest, parts, size⟩ := isValid_iff.mp here
      refine ⟨start, rest, parts, Nat.le_of_eq size.symm, ?_, fun other more _ within => size ▸ within⟩
      rw [lastBoundary?, if_pos here, ← size]
    · obtain ⟨start, rest, parts, within, found, greatest⟩ := ih
      refine ⟨start, rest, parts, Nat.le_succ_of_le within, ?_, fun other more split within => ?_⟩
      · rw [lastBoundary?, if_neg here]
        exact found
      · -- no start ends where the text cannot be cut
        have notHere : other.utf8ByteSize ≠ offset + 1 := fun size =>
          here (isValid_iff.mpr ⟨other, more, split, size.symm⟩)
        exact greatest other more split (by omega)

/-- Of two starts of a text the smaller one is a start of the larger one. -/
theorem exists_append_of_size_le {start rest other more : String} (same : start ++ rest = other ++ more)
    (le : start.utf8ByteSize ≤ other.utf8ByteSize) : ∃ between, other = start ++ between := by
  have chars : start.toList ++ rest.toList = other.toList ++ more.toList := by
    rw [← String.toList_append, same, String.toList_append]
  -- one of the two starts goes on where the other one ends
  rcases List.append_eq_append_iff.mp chars with ⟨between, front, -⟩ | ⟨between, front, -⟩
  · refine ⟨String.ofList between, String.toList_inj.mp ?_⟩
    rw [String.toList_append, String.toList_ofList, front]
  · -- nothing is between them, since it would make the smaller one larger
    have size := congrArg byteSize front
    rw [byteSize_append, byteSize_toList, byteSize_toList] at size
    have nothing : between = [] := by
      cases between with
      | nil => rfl
      | cons c between =>
        have bytes := Char.utf8Size_pos c
        rw [byteSize_cons] at size
        omega
    refine ⟨"", String.toList_inj.mp ?_⟩
    rw [String.toList_append, front, nothing]
    simp

/-- What of a text is within a bound: the longest of its starts that have at most as many bytes. -/
structure IsLongestStart (text : String) (bound : Nat) (kept : String) : Prop where
  isStart : ∃ rest, text = kept ++ rest
  within : kept.utf8ByteSize ≤ bound
  longest : ∀ other more, text = other ++ more → other.utf8ByteSize ≤ bound → ∃ between, kept = other ++ between

/-- If the text goes on behind the bound, less than a character is missing up to it. -/
theorem IsLongestStart.lt_add_four {text kept : String} {bound : Nat} (h : IsLongestStart text bound kept)
    (beyond : bound < text.utf8ByteSize) : bound < kept.utf8ByteSize + 4 := by
  obtain ⟨rest, parts⟩ := h.isStart
  have within := h.within
  cases left : rest.toList with
  | nil =>
    -- then all of the text is within the bound
    have nothing : rest = "" := String.toList_eq_nil_iff.mp left
    rw [parts, nothing, String.append_empty] at beyond
    omega
  | cons c rest' =>
    have further : text = (kept ++ String.singleton c) ++ String.ofList rest' := by
      rw [parts, String.append_assoc]
      refine congrArg (kept ++ ·) (String.toList_inj.mp ?_)
      rw [left, String.toList_append, String.toList_ofList]
      simp
    have size : (kept ++ String.singleton c).utf8ByteSize = kept.utf8ByteSize + c.utf8Size := by
      rw [String.utf8ByteSize_append, String.utf8ByteSize_singleton]
    have large := Char.utf8Size_le_four c
    by_contra room
    -- the next character would be within the bound as well
    obtain ⟨between, more⟩ := h.longest _ _ further (by omega)
    have sizes := congrArg String.utf8ByteSize more
    have bytes := Char.utf8Size_pos c
    rw [String.utf8ByteSize_append, size] at sizes
    omega

/-- Of a message beyond the bound there is kept what is within, and the search ends behind it. -/
theorem exists_cutMessage {message : String} (beyond : Limits.logMessageLength < message.utf8ByteSize) :
    ∃ kept, IsLongestStart message Limits.logMessageLength kept ∧ cutMessage message = kept ++ "..." ∧
      lastBoundary? message Limits.logMessageLength = some kept.utf8ByteSize := by
  obtain ⟨kept, rest, parts, within, found, greatest⟩ := exists_lastBoundary? message Limits.logMessageLength
  have slice : byteSlice 0 kept.utf8ByteSize message.toList = kept.toList := by
    have whole := byteSlice_append [] kept.toList rest.toList
    rw [byteSize_nil, Nat.zero_add, byteSize_toList, List.nil_append, ← String.toList_append, ← parts] at whole
    exact whole
  refine ⟨kept, ⟨⟨rest, parts⟩, within, fun other more split small => ?_⟩, ?_, found⟩
  · exact exists_append_of_size_le (split.symm.trans parts) (greatest other more split small)
  · rw [cutMessage, if_neg (Nat.not_le.mpr beyond), found]
    dsimp only
    rw [slice, String.ofList_toList]

/-- An event has the message that it is given, if this is within the bound. Otherwise it has the longest start of
it, in whole characters, that is within the bound, and three dots. The search for the end of this start ends for
every text and from every offset on, and never in front of the text. -/
theorem Event.message_of (level : Level) (code : Code) (text : String) :
    (text.utf8ByteSize ≤ Limits.logMessageLength → (Event.of level code text).message = text) ∧
      (Limits.logMessageLength < text.utf8ByteSize → ∃ kept,
        IsLongestStart text Limits.logMessageLength kept ∧ Limits.logMessageLength < kept.utf8ByteSize + 4 ∧
          (Event.of level code text).message = kept ++ "..." ∧
          lastBoundary? text Limits.logMessageLength = some kept.utf8ByteSize) ∧
      ∀ offset, ∃ cut, lastBoundary? text offset = some cut ∧ cut ≤ offset := by
  refine ⟨fun within => cutMessage_of_le within, fun beyond => ?_, fun offset => ?_⟩
  · obtain ⟨kept, longest, message, found⟩ := exists_cutMessage beyond
    exact ⟨kept, longest, longest.lt_add_four beyond, message, found⟩
  · obtain ⟨start, -, -, within, found, -⟩ := exists_lastBoundary? text offset
    exact ⟨start.utf8ByteSize, found, within⟩

/-! ## What a memory holds -/

namespace Memory

/-- Whether a memory holds the newest of some events, as many as there is room for. -/
structure HoldsNewest (m : Memory) (es : List Event) : Prop where
  isEnd : m.toList <:+ es
  size : m.size = min es.length Limits.logBuffer

theorem length_toList (m : Memory) : m.toList.length = m.size := Array.length_toList

/-- What is forgotten for one more event is what there is no room for beside it. -/
theorem toList_remember (m : Memory) (e : Event) :
    (m.remember e).toList = m.toList.drop (m.size + 1 - Limits.logBuffer) ++ [e] := by
  by_cases room : m.size < Limits.logBuffer
  · rw [toList_remember_of_lt room, Nat.sub_eq_zero_of_le room, List.drop_zero]
  · -- one event is forgotten by a full memory, and by one beyond its bound what is too much as well
    have number : m.size - Limits.logBuffer + 1 = m.size + 1 - Limits.logBuffer := by omega
    have whole : (m.toList.drop (m.size + 1 - Limits.logBuffer)).take (m.size - (m.size + 1 - Limits.logBuffer)) =
        m.toList.drop (m.size + 1 - Limits.logBuffer) :=
      List.take_of_length_le (by rw [List.length_drop, length_toList])
    rw [remember, if_neg room, toList, Array.toList_push, Array.toList_extract, List.extract_eq_take_drop, number]
    exact congrArg (· ++ [e]) whole

/-- A memory of the newest events is one when it is told one more. -/
theorem HoldsNewest.remember {m : Memory} {es : List Event} (h : m.HoldsNewest es) (e : Event) :
    (m.remember e).HoldsNewest (es ++ [e]) where
  isEnd := by
    obtain ⟨forgotten, parts⟩ := (List.drop_suffix (m.size + 1 - Limits.logBuffer) m.toList).trans h.isEnd
    refine ⟨forgotten, ?_⟩
    rw [toList_remember, ← parts, List.append_assoc]
  size := by
    have size := h.size
    -- without any room the new event would be remembered all the same
    have bound : 0 < Limits.logBuffer := by decide
    rw [← length_toList, toList_remember, List.length_append, List.length_drop, length_toList,
      List.length_append, List.length_singleton]
    omega

/-- Which events these are. -/
theorem HoldsNewest.toList_eq {m : Memory} {es : List Event} (h : m.HoldsNewest es) :
    m.toList = es.drop (es.length - Limits.logBuffer) := by
  have size := h.size
  -- an end is known by how much is in front of it
  have number : es.length - m.toList.length = es.length - Limits.logBuffer := by
    rw [length_toList]
    omega
  rw [← number]
  exact List.suffix_iff_eq_drop.mp h.isEnd

end Memory

/-! ## What a recorder leaves in its memories -/

namespace Recorder

/-- Whether the memories of a recorder, of which there are `count`, hold the newest of some events, and what its
levels are. -/
structure Holds (a b : Level) (count : Nat) (r : Recorder) (es : List Event) : Prop where
  level : r.level = a
  targetLevel : r.target.level = b
  count : r.target.memories.length = count
  newest : ∀ m ∈ r.target.memories, m.HoldsNewest es

/-- Whether an event is told at two levels. -/
def isTold (a b : Level) (e : Event) : Bool := e.level.order ≤ a.order ∧ e.level.order ≤ b.order

variable {a b : Level} {count : Nat} {r : Recorder} {es : List Event}

/-- An event is remembered by all memories, or by none. -/
theorem record_eq (level : r.level = a) (targetLevel : r.target.level = b) (e : Event) :
    r.record e = if isTold a b e
      then { r with target := { r.target with memories := r.target.memories.map (·.remember e) } } else r := by
  subst level targetLevel
  -- the recorder looks at its own level first, and its target at the other one
  by_cases first : r.level.admits e.level = true <;> by_cases second : r.target.level.admits e.level = true
  all_goals
    simp only [Level.admits, decide_eq_true_eq] at first second
    simp [record, admits, FanOut.log, isTold, Level.admits, first, second]

/-- One more event is one more for all memories if it is told at both levels, and none otherwise. -/
theorem Holds.record (h : Holds a b count r es) (e : Event) :
    Holds a b count (r.record e) (es ++ [e].filter (isTold a b)) := by
  rw [record_eq h.level h.targetLevel]
  by_cases told : isTold a b e = true
  · rw [if_pos told, List.filter_cons_of_pos told, List.filter_nil]
    exact {
      level := h.level
      targetLevel := h.targetLevel
      count := by rw [List.length_map, h.count]
      newest := by
        intro m hm
        obtain ⟨before, mem, rfl⟩ := List.mem_map.mp hm
        exact (h.newest before mem).remember e }
  · rw [if_neg told, List.filter_cons_of_neg told, List.filter_nil, List.append_nil]
    exact h

/-- So it is for any events, one after the other. -/
theorem Holds.recordAll (h : Holds a b count r es) (more : List Event) :
    Holds a b count (r.recordAll more) (es ++ more.filter (isTold a b)) := by
  -- by induction on the events that follow, with the events of before in the statement
  induction more generalizing r es with
  | nil => simpa [Recorder.recordAll] using h
  | cons e more ih =>
    have step := ih (h.record e)
    rw [List.append_assoc, ← List.filter_append, List.singleton_append] at step
    exact step

/-- After any events that a recorder takes, all of its memories hold the newest of those that both levels admit,
in order and as many as there is room for. Errors, warnings and events with a code are looked for in these. -/
theorem newest_of_recordAll (a b : Level) (count : Nat) (es : List Event) :
    let told := es.filter (isTold a b)
    let newest := told.drop (told.length - Limits.logBuffer)
    let memories := (recordAll ⟨a, ⟨b, List.replicate count .empty⟩⟩ es).target.memories
    newest.length = min told.length Limits.logBuffer ∧ memories.length = count ∧
      ∀ m ∈ memories, m.toList = newest ∧ m.size ≤ Limits.logBuffer ∧
        m.errors = newest.filter (·.level = .error) ∧ m.warnings = newest.filter (·.level = .warning) ∧
        ∀ code, m.withCode code = newest.filter (·.code = code) := by
  intro told newest memories
  -- all memories are empty in the beginning
  have start : Holds a b count ⟨a, ⟨b, List.replicate count .empty⟩⟩ [] := {
    level := rfl
    targetLevel := rfl
    count := List.length_replicate
    newest := by
      intro m hm
      rw [List.eq_of_mem_replicate hm]
      exact ⟨List.suffix_refl _, rfl⟩ }
  have holds := start.recordAll es
  rw [List.nil_append] at holds
  refine ⟨?_, holds.count, fun m hm => ?_⟩
  · rw [List.length_drop]
    omega
  · -- what is looked for is looked for in what is held
    have held := holds.newest m hm
    have contents : m.toList = newest := held.toList_eq
    rw [Memory.errors, Memory.warnings, contents]
    refine ⟨rfl, held.size ▸ Nat.min_le_right _ _, rfl, rfl, fun code => ?_⟩
    rw [Memory.withCode, contents]
    rfl

end Recorder

end Planfile.Log
