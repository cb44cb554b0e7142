import Planfile.Plan.Identifier
import Planfile.Proofs.Token.Form

/-!
# Planfile — the shapes of tokens

The scanner decides character by character, with a look at what comes next. What comes out of it is told here
without it: a name is a letter or an underscore with letters, digits and underscores behind it, a path is names
with single dots between them, and numbers, dates, times and texts keep within their bounds. Whoever splits a
path at its dots, or takes the bangs off a relative id, relies on this and does not look again.

Main results:

* `Lexer.IsPath.exists_names` — what the scanner takes for a path is names joined by dots.
* `Lexer.hasShape_of_formed` — every token that is read has the shape of its class.
* `Lexer.hasShape_of_lex` — so have all tokens of a text, and its end is the last of them and no other.
-/

namespace Planfile.Lexer

open Plan (joinParts)

/-! ## Names -/

/-- The characters that a name can start with. -/
def IsNameStart (c : Char) : Prop := 'a' ≤ c ∧ c ≤ 'z' ∨ 'A' ≤ c ∧ c ≤ 'Z' ∨ c = '_'

/-- The characters that a name can go on with. -/
def IsNameChar (c : Char) : Prop := IsNameStart c ∨ '0' ≤ c ∧ c ≤ '9'

/-- A character that a name can start with, and others that it can go on with. -/
inductive IsName : List Char → Prop
  | name {first : Char} {others : List Char} (starts : IsNameStart first)
    (goesOn : ∀ c ∈ others, IsNameChar c) : IsName (first :: others)

theorem isIdStart_iff {c : Char} : isIdStart c = true ↔ IsNameStart c := by
  simp only [isIdStart, IsNameStart, isAlpha_iff, Bool.or_eq_true, beq_iff_eq, or_assoc]
  exact or_left_comm

theorem isIdContinue_iff {c : Char} : isIdContinue c = true ↔ IsNameChar c := by
  have digit : c.isDigit = true ↔ '0' ≤ c ∧ c ≤ '9' := by
    simp only [Char.isDigit, Char.le_def, ge_iff_le, Bool.and_eq_true, decide_eq_true_eq]
  rw [IsNameChar, ← isIdStart_iff, ← digit]
  simp only [isIdContinue, isIdStart, Char.isAlphanum, Bool.or_eq_true]
  exact or_right_comm

/-! ## Paths -/

/-- Names joined by dots are the first one, and each other one with a dot in front. -/
theorem joinParts_cons (name : List Char) (names : List (List Char)) :
    joinParts (name :: names) = name ++ names.flatMap ('.' :: ·) := by
  induction names generalizing name with
  | nil => simp [joinParts]
  | cons other names ih => simp [joinParts, ih]

/-- Where a name starts, what comes before the first dot is one. -/
theorem isName_of_startsId {head : List Char} {names : List (List Char)}
    (starts : startsId (head ++ names.flatMap ('.' :: ·)) = true) (goesOn : ∀ c ∈ head, IsNameChar c) :
    IsName head := by
  cases head with
  | nil => cases names <;> simp [startsId, isIdStart] at starts
  | cons first others =>
    rw [startsId, List.cons_append, List.head?_cons, Option.any_some] at starts
    exact .name (isIdStart_iff.mp starts) fun c hc => goesOn c (List.mem_cons_of_mem _ hc)

/-- Behind each dot of a dotted text there is a name. -/
theorem exists_names_of_isDotted {cs : List Char} (h : isDotted cs = true) :
    ∃ (head : List Char) (names : List (List Char)), cs = head ++ names.flatMap ('.' :: ·) ∧
      (∀ c ∈ head, IsNameChar c) ∧ ∀ name ∈ names, IsName name := by
  -- by induction on the text, from its end: `head` is what comes before the first dot
  induction cs with
  | nil => exact ⟨[], [], rfl, by simp, by simp⟩
  | cons c cs ih =>
    obtain ⟨first, behind⟩ := Bool.and_eq_true_iff.mp h
    obtain ⟨head, names, rfl, goesOn, areNames⟩ := ih behind
    rcases Bool.or_eq_true_iff.mp first with goesOn' | dot
    · refine ⟨c :: head, names, rfl, ?_, areNames⟩
      exact List.forall_mem_cons.mpr ⟨isIdContinue_iff.mp goesOn', goesOn⟩
    · obtain ⟨isDot, starts⟩ := Bool.and_eq_true_iff.mp dot
      obtain rfl := beq_iff_eq.mp isDot
      -- what is before the next dot is a name now
      have isName := isName_of_startsId starts goesOn
      exact ⟨[], head :: names, by simp, by simp, List.forall_mem_cons.mpr ⟨isName, areNames⟩⟩

/-- No name has a dot. -/
theorem IsName.noDot {cs : List Char} (h : IsName cs) : '.' ∉ cs := by
  have other {c : Char} (h : IsNameChar c) : c ≠ '.' := by
    rintro rfl
    exact absurd (isIdContinue_iff.mpr h) (by decide)
  obtain ⟨starts, goesOn⟩ := h
  intro dot
  rcases List.mem_cons.mp dot with rfl | dot
  · exact other (.inl starts) rfl
  · exact other (goesOn _ dot) rfl

/-- What the scanner takes for a path is names joined by dots. There is a dot in it where there are several. -/
theorem IsPath.exists_names {cs : List Char} (h : IsPath cs) :
    ∃ names, names ≠ [] ∧ (∀ name ∈ names, IsName name) ∧ cs = joinParts names ∧
      ('.' ∈ cs ↔ 2 ≤ names.length) := by
  obtain ⟨head, names, rfl, goesOn, areNames⟩ := exists_names_of_isDotted h.dotted
  have isName := isName_of_startsId h.starts goesOn
  refine ⟨head :: names, List.cons_ne_nil _ _, List.forall_mem_cons.mpr ⟨isName, areNames⟩,
    (joinParts_cons head names).symm, ?_⟩
  cases names with
  | nil => simpa using isName.noDot
  | cons name names => simp

/-! ## Shapes -/

/-- What is right for a token of its class. -/
def HasShape : Token → Prop
  | .id name | .idWithColon name => IsName name.toList ∧ name.utf8ByteSize ≤ Limits.identifierLength
  | .absoluteId path =>
    (∃ names, 2 ≤ names.length ∧ (∀ name ∈ names, IsName name) ∧ path.toList = joinParts names) ∧
      path.utf8ByteSize ≤ Limits.identifierLength
  | .relativeId path =>
    (∃ bangs names, 1 ≤ bangs ∧ 1 ≤ names.length ∧ (∀ name ∈ names, IsName name) ∧
      path.toList = List.replicate bangs '!' ++ joinParts names) ∧
      path.utf8ByteSize ≤ Limits.identifierLength
  | .integer n => 0 ≤ n
  | .time seconds => 60 ∣ seconds ∧ seconds ≤ 86400
  | .date d => d.Valid ∧ 0 ≤ d.year ∧ d.year ≤ 9999
  | .string value => value.utf8ByteSize ≤ Limits.stringSize
  | .comment text => text.utf8ByteSize ≤ Limits.commentLength
  | .float _ | .mark _ | .eof => True

/-- A path without a dot is a name. -/
theorem IsPath.isName {cs : List Char} (h : IsPath cs) (noDot : '.' ∉ cs) : IsName cs := by
  obtain ⟨names, notNone, areNames, rfl, dots⟩ := h.exists_names
  match names, notNone with
  | [name], _ => exact areNames name List.mem_cons_self
  | first :: second :: others, _ => exact absurd (dots.mpr (by simp)) noDot

/-- Every token that is read has the shape of its class. -/
theorem hasShape_of_formed {token : Token} (h : Formed token) : HasShape token := by
  cases token with
  | id name =>
    obtain ⟨path, noDot, within⟩ := h
    exact ⟨path.isName noDot, byteSize_toList name ▸ within⟩
  | idWithColon name =>
    obtain ⟨path, noDot, within⟩ := h
    exact ⟨path.isName noDot, byteSize_toList name ▸ within⟩
  | absoluteId text =>
    obtain ⟨path, dot, within⟩ := h
    obtain ⟨names, -, areNames, joined, dots⟩ := path.exists_names
    exact ⟨⟨names, dots.mp dot, areNames, joined⟩, byteSize_toList text ▸ within⟩
  | relativeId text =>
    obtain ⟨⟨bangs, rest, written, all, path⟩, within⟩ := h
    obtain ⟨names, notNone, areNames, joined, -⟩ := path.exists_names
    have same : '!' :: bangs = List.replicate (bangs.length + 1) '!' :=
      congrArg _ (List.eq_replicate_of_mem all)
    refine ⟨⟨bangs.length + 1, names, by omega, List.length_pos_iff.mpr notNone, areNames, ?_⟩,
      byteSize_toList text ▸ within⟩
    rw [written, joined, same]
  | integer n =>
    obtain ⟨k, rfl, -⟩ := h
    exact Int.natCast_nonneg k
  | time seconds =>
    obtain ⟨hour, minute, rfl, inHour, inDay⟩ := h
    exact ⟨⟨hour * 60 + minute, by omega⟩, by omega⟩
  | date d => exact h
  | string value => exact Nat.le_trans (Nat.le_of_eq (byteSize_toList value).symm) h
  | comment text => exact Nat.le_trans (Nat.le_of_eq (byteSize_toList text).symm) h
  | _ => trivial

/-- The tokens of a text have the shapes of their classes. The last one is the end of the text, and no other
one is. -/
theorem hasShape_of_lex {countComments : Bool} {cs : List Char} {tokens : List SpannedToken}
    (h : lex countComments cs = .ok tokens) :
    (∀ t ∈ tokens, HasShape t.token) ∧
      ∃ scanned stop, tokens = scanned ++ [⟨.eof, stop⟩] ∧ ∀ t ∈ scanned, t.token ≠ .eof := by
  refine ⟨fun t ht => hasShape_of_formed (formed_of_produces ⟨_, _, _, t.span, h, ht⟩), ?_⟩
  obtain ⟨scanned, stop, same, others⟩ := eq_append_eof_of_lex h
  refine ⟨scanned, stop, same, fun t ht eof => ?_⟩
  have other := others t ht
  rw [eof] at other
  cases other

/-- A path, a relative id, a label, midnight at the end of a day, a leap day, a comment, a string and an
integer: one token of each class. -/
theorem hasShape_of_lex_sampler :
    let text := ['a', '.', 'b', '_', '1', '!', '!', 'c', '.', 'd', ' ', 'x', ':', '2', '4', ':', '0', '0', ' ',
      '2', '0', '2', '4', '-', '0', '2', '-', '2', '9', '/', '*', 'c', '*', '/', '"', 's', '"', '0', '7']
    let scans : List Token := [.absoluteId "a.b_1", .relativeId "!!c.d", .idWithColon "x", .time 86400,
      .date ⟨2024, 2, 29, 0, 0, 0⟩, .comment "/*c*/", .string "s", .integer 7, .eof]
    ∃ tokens, lex true text = .ok tokens ∧ tokens.map (·.token) = scans ∧ (∀ t ∈ tokens, HasShape t.token) ∧
      ∃ scanned stop, tokens = scanned ++ [⟨.eof, stop⟩] ∧ ∀ t ∈ scanned, t.token ≠ .eof := by
  intro text scans
  have read : ∃ tokens, lex true text = .ok tokens ∧ tokens.map (·.token) = scans := ⟨_, rfl, rfl⟩
  obtain ⟨tokens, read, same⟩ := read
  exact ⟨tokens, read, same, hasShape_of_lex read⟩

end Planfile.Lexer
