import Planfile.Proofs.Token.Metrics
import Planfile.Proofs.Token.Rendering
import Planfile.Token.Stream

/-!
# Planfile — reading undoes writing

Tokens are written one after the other, each with a blank behind it. What is written so is read as these
tokens again, at the places that are counted where a stream is built of them by hand. There is one
condition: a text has no more tokens than the limit admits. It is not about writing, since no text at all
has more, and of plain tokens every list within the limit is found in some text, the written one.

Main results:

* `length_le_of_lex` — what the grammar reads of a text keeps within the limit on tokens.
* `lexFrom_writeAll` — where tokens are written they are read, wherever reading has come to.
* `lex_writeAll` — tokens that have been read are read again where they are written.
-/

namespace Planfile

/-- A text of tokens, each with a blank behind it. -/
def Token.writeAll : List Token → String
  | [] => ""
  | t :: ts => t.text ++ " " ++ writeAll ts

/-- Tokens that are added one after the other, each as it is written. -/
def TokenStreamBuilder.pushAll (b : TokenStreamBuilder) (ts : List Token) : TokenStreamBuilder :=
  ts.foldl (fun b t => b.push t t.text) b

/-- What is added comes before what has been there, the last one first. -/
theorem TokenStreamBuilder.tokens_pushAll (b : TokenStreamBuilder) (ts : List Token) :
    (b.pushAll ts).tokens.map (·.token) = ts.reverse ++ b.tokens.map (·.token) := by
  induction ts generalizing b with
  | nil => rfl
  | cons t ts ih =>
    show ((b.push t t.text).pushAll ts).tokens.map (·.token) = _
    rw [ih, List.reverse_cons, List.append_assoc]
    rfl

/-- A stream of tokens that are not the end of a text ends where the next one would start. -/
theorem TokenStreamBuilder.all_build {b : TokenStreamBuilder}
    (h : b.tokens.head?.any (·.token.isEof) = false) :
    b.build.all = (⟨.eof, ⟨b.next, b.next⟩⟩ :: b.tokens).reverse := by
  rw [build, h]
  rfl

namespace Lexer

/-- Whether some text has the tokens, and no others before its end. -/
def ProducesAll (ts : List Token) : Prop :=
  ∃ countComments cs tokens, lex countComments cs = .ok tokens ∧ tokens.map (·.token) = ts ++ [.eof]

/-! ## The limit -/

/-- What is found keeps within the limit on tokens, together with what has been counted. -/
theorem counted_add_countOf_le_of_lexFrom {countComments : Bool} {steps : Nat} {p : Position}
    {cs : List Char} {found tokens : List SpannedToken} {counted : Nat}
    (within : counted ≤ Limits.tokenCount)
    (h : lexFrom countComments steps p cs found counted = .ok tokens) :
    ∃ rest, tokens = found.reverse ++ rest ∧
      counted + countOf countComments (valuesOf rest) ≤ Limits.tokenCount := by
  induction steps generalizing p cs found counted with
  | zero =>
    rw [lexFrom_zero] at h
    cases h
    exact ⟨[⟨.eof, _⟩], rfl, within⟩
  | succ steps ih =>
    rcases cases_of_lexFrom h with ⟨-, rfl⟩ | ⟨c, rest, s, -, read, fits, behind⟩
    · exact ⟨_, rfl, within⟩
    · -- a token is counted when it is found
      have grows := countOf_cons_of_notEof countComments (isEof_of_scan read) counted
      obtain ⟨others, rfl, bounded⟩ := ih fits behind
      rw [List.reverse_cons, List.append_assoc]
      exact ⟨_, rfl, Nat.le_trans (Nat.le_of_eq (grows (valuesOf others))) bounded⟩

/-- What is read of a text keeps within the limit on tokens. -/
theorem countOf_le_of_lex {countComments : Bool} {cs : List Char} {tokens : List SpannedToken}
    (h : lex countComments cs = .ok tokens) :
    countOf countComments (valuesOf tokens) ≤ Limits.tokenCount := by
  obtain ⟨rest, rfl, bounded⟩ := counted_add_countOf_le_of_lexFrom (Nat.zero_le _) h
  rwa [Nat.zero_add] at bounded

/-- What the grammar reads of a text keeps within the limit on tokens. -/
theorem length_le_of_lex {countComments : Bool} {cs : List Char} {tokens : List SpannedToken}
    (h : lex countComments cs = .ok tokens) : (readable tokens).length ≤ Limits.tokenCount :=
  Nat.le_trans (length_readable_le countComments tokens) (countOf_le_of_lex h)

/-! ## Reading what is written -/

/-- The grammar reads plain tokens, and they are not the end of a text. -/
theorem significant_of_isPlain {t : Token} (h : t.isPlain = true) :
    t.isSignificant = true ∧ t.isEof = false := by
  cases t <;> first | exact ⟨rfl, rfl⟩ | cases h

/-- Where tokens are written they are read, wherever reading has come to. -/
theorem lexFrom_writeAll (countComments : Bool) {ts : List Token}
    (each : ∀ t ∈ ts, ReadsAs t.text.toList t ∧ t.isPlain = true) {steps counted : Nat} {p : Position}
    {gap : List Char} {found : List SpannedToken} (blank : Text.allBlank gap = true)
    (room : counted + ts.length ≤ Limits.tokenCount)
    (enough : (gap ++ (Token.writeAll ts).toList).length ≤ steps) :
    lexFrom countComments steps p (gap ++ (Token.writeAll ts).toList) found counted =
      let b := TokenStreamBuilder.pushAll ⟨found, p.advanceAll gap⟩ ts
      .ok (⟨.eof, ⟨b.next, b.next⟩⟩ :: b.tokens).reverse := by
  have blanks : ∀ c ∈ gap, Text.isBlank c = true := List.all_eq_true.mp blank
  -- by induction on the tokens, with the blank behind each of them as the gap before the next
  induction ts generalizing steps counted p gap found with
  | nil =>
    have text : gap ++ (Token.writeAll []).toList = gap := List.append_nil gap
    have left : (gap ++ []).dropWhile Text.isBlank = [] := List.dropWhile_append_of_pos blanks
    have taken : (gap ++ []).takeWhile Text.isBlank = gap ++ [] := List.takeWhile_append_of_pos blanks
    rw [List.append_nil] at left taken
    rw [text, lexFrom_of_blank _ _ _ _ _ left, taken]
    rfl
  | cons t ts ih =>
    obtain ⟨⟨c, cs, first, notBlank, read⟩, plain⟩ := each t List.mem_cons_self
    have seen := (significant_of_isPlain plain).1
    have text : (Token.writeAll (t :: ts)).toList = c :: (cs ++ ' ' :: (Token.writeAll ts).toList) := by
      simp [Token.writeAll, first]
    rw [text] at enough ⊢
    have left : (gap ++ c :: (cs ++ ' ' :: (Token.writeAll ts).toList)).dropWhile Text.isBlank =
        c :: (cs ++ ' ' :: (Token.writeAll ts).toList) := by
      rw [List.dropWhile_append_of_pos blanks, List.dropWhile_cons_of_neg (by simp [notBlank])]
    have taken : (gap ++ c :: (cs ++ ' ' :: (Token.writeAll ts).toList)).takeWhile Text.isBlank =
        gap := by
      rw [List.takeWhile_append_of_pos blanks, List.takeWhile_cons_of_neg (by simp [notBlank]),
        List.append_nil]
    simp only [List.length_append, List.length_cons] at enough room
    have fits : ¬Limits.tokenCount < counted + 1 := by omega
    cases steps with
    | zero => omega
    | succ steps =>
      let start := p.advanceAll gap
      let stop := start.advanceAll t.text.toList
      have blankBehind : ∀ d ∈ [' '], Text.isBlank d = true := fun d hd => List.mem_singleton.mp hd ▸ rfl
      have others : lexFrom countComments steps stop ([' '] ++ (Token.writeAll ts).toList)
          (⟨t, ⟨start, stop⟩⟩ :: found) (counted + 1) = _ :=
        ih (fun t ht => each t (List.mem_cons_of_mem _ ht)) rfl (by omega)
          (by simp only [List.singleton_append, List.length_cons]; omega) blankBehind
      rw [lexFrom_of_ok _ _ _ _ _ left (read _), taken]
      simp only [seen, Bool.true_or, if_true, if_neg fits]
      exact others

/-- Written tokens are read at the places that are counted where a stream is built of them. -/
theorem lex_writeAll_of_length_le (countComments : Bool) {ts : List Token}
    (each : ∀ t ∈ ts, ReadsAs t.text.toList t ∧ t.isPlain = true)
    (within : ts.length ≤ Limits.tokenCount) :
    let built := (TokenStreamBuilder.empty.pushAll ts).build
    lex countComments (Token.writeAll ts).toList = .ok built.all ∧
      built.all.map (·.token) = ts ++ [.eof] := by
  intro built
  have tokens : (TokenStreamBuilder.empty.pushAll ts).tokens.map (·.token) = ts.reverse := by
    rw [TokenStreamBuilder.tokens_pushAll]
    exact List.append_nil _
  have notEnded : (TokenStreamBuilder.empty.pushAll ts).tokens.head?.any (·.token.isEof) = false := by
    cases first : (TokenStreamBuilder.empty.pushAll ts).tokens with
    | nil => rfl
    | cons t others =>
      rw [first, List.map_cons] at tokens
      have mem : t.token ∈ ts := List.mem_reverse.mp (tokens ▸ List.mem_cons_self)
      exact (significant_of_isPlain (each _ mem).2).2
  have all := TokenStreamBuilder.all_build notEnded
  refine ⟨?_, ?_⟩
  · let text := (Token.writeAll ts).toList
    have read : lexFrom countComments text.length .start ([] ++ text) [] 0 = _ :=
      lexFrom_writeAll countComments each rfl (by omega) (Nat.le_refl _)
    rw [all]
    exact read
  · rw [all, List.map_reverse, List.map_cons, tokens, List.reverse_cons, List.reverse_reverse]

/-- A text has no more plain tokens than the limit admits. -/
theorem length_le_of_producesAll {ts : List Token} (plain : ∀ t ∈ ts, t.isPlain = true)
    (h : ProducesAll ts) : ts.length ≤ Limits.tokenCount := by
  obtain ⟨countComments, cs, tokens, lexed, same⟩ := h
  have within := length_le_of_lex lexed
  let reads := fun t : Token => t.isSignificant && !t.isEof
  have all : (readable tokens).map (·.token) = ts := by
    have kept : (ts ++ [Token.eof]).filter reads = ts := by
      rw [List.filter_append, List.filter_eq_self.mpr]
      · exact List.append_nil ts
      · intro t ht
        obtain ⟨seen, notEof⟩ := significant_of_isPlain (plain t ht)
        simp [reads, seen, notEof]
    rw [← kept, ← same, List.filter_map]
    rfl
  rwa [← List.length_map (·.token), all] at within

/-- Tokens that have been read, if they are plain, are read again where they are written. Some text has
them all if they are within the limit, and then the written one has them, at the places that are counted
where a stream is built of them. -/
theorem lex_writeAll (countComments : Bool) {ts : List Token} (each : ∀ t ∈ ts, Produces t)
    (plain : ∀ t ∈ ts, t.isPlain = true) :
    (ProducesAll ts ↔ ts.length ≤ Limits.tokenCount) ∧
    (ProducesAll ts →
      let built := (TokenStreamBuilder.empty.pushAll ts).build
      lex countComments (Token.writeAll ts).toList = .ok built.all ∧
        built.all.map (·.token) = ts ++ [.eof]) := by
  have reads : ∀ t ∈ ts, ReadsAs t.text.toList t ∧ t.isPlain = true :=
    fun t ht => ⟨readsAs_text (formed_of_produces (each t ht)) (plain t ht), plain t ht⟩
  refine ⟨⟨length_le_of_producesAll plain, fun within => ?_⟩, fun some => ?_⟩
  · obtain ⟨lexed, same⟩ := lex_writeAll_of_length_le countComments reads within
    exact ⟨countComments, _, _, lexed, same⟩
  · exact lex_writeAll_of_length_le countComments reads (length_le_of_producesAll plain some)

/-- The tokens that some text has are tokens of a text. -/
theorem produces_of_producesAll {ts : List Token} (h : ProducesAll ts) : ∀ t ∈ ts, Produces t := by
  obtain ⟨countComments, cs, tokens, lexed, same⟩ := h
  intro t ht
  have mem : t ∈ tokens.map (·.token) := same ▸ List.mem_append_left _ ht
  obtain ⟨⟨_, span⟩, found, rfl⟩ := List.mem_map.mp mem
  exact ⟨countComments, cs, tokens, span, lexed, found⟩

/-- A label, a date with an hour of one digit, two marks that would join each other and a string in
single quotes are read again where they are written. -/
theorem lex_writeAll_labelled :
    let ts : List Token := [.idWithColon "p", .date ⟨2024, 1, 15, 9, 30, 0⟩, .mark .greater,
      .mark .equals, .string "ä"]
    let built := (TokenStreamBuilder.empty.pushAll ts).build
    (∀ t ∈ ts, Produces t) ∧ (∀ t ∈ ts, t.isPlain = true) ∧
      lex true (Token.writeAll ts).toList = .ok built.all ∧ built.all.map (·.token) = ts ++ [.eof] := by
  intro ts built
  let text := ['p', ':', '2', '0', '2', '4', '-', '1', '-', '1', '5', '-', '9', ':', '3', '0', '>', ' ',
    '=', '\'', 'ä', '\'']
  have found : ProducesAll ts := ⟨true, text, _, rfl, rfl⟩
  have each := produces_of_producesAll found
  have plain : ∀ t ∈ ts, t.isPlain = true := by decide
  exact ⟨each, plain, (lex_writeAll true each plain).2 found⟩

end Lexer

end Planfile
