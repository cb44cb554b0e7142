import Planfile.Proofs.Token.Tiling

/-!
# Planfile — every text can be written as a string

Between quotes a backslash escapes what follows it, if that is another backslash or a quote of the kind
around it. So a text is written with a backslash in front of each of these. They are read in pairs: a
backslash is always the first of one, whatever comes before it, and so a quote that is the second of none
can only be the one at the end. Line breaks, tabs and quotes of the other kind stand for themselves.

Main results:

* `Lexer.scanStringBody_escaped` — what is written for a text is read as the text.
* `Lexer.lex_quoted` — between quotes there is one string, and nothing else.
-/

namespace Planfile.Lexer

/-- The quotes of strings. -/
def IsQuote (c : Char) : Prop := c = '"' ∨ c = '\''

instance (c : Char) : Decidable (IsQuote c) := inferInstanceAs (Decidable (_ ∨ _))

/-- How a character is written between quotes. -/
def escaped (quote c : Char) : List Char := if c = '\\' ∨ c = quote then ['\\', c] else [c]

/-- A text between quotes, with a backslash before each backslash and each quote of the kind around it. -/
def quoted (quote : Char) (value : List Char) : List Char :=
  quote :: (value.flatMap (escaped quote) ++ [quote])

section
variable {quote c : Char}

theorem escaped_of_special (h : c = '\\' ∨ c = quote) : escaped quote c = ['\\', c] := if_pos h

theorem escaped_of_plain (h : ¬(c = '\\' ∨ c = quote)) : escaped quote c = [c] := if_neg h

/-- A backslash is no quote. -/
theorem IsQuote.ne_backslash (h : IsQuote quote) : '\\' ≠ quote := by
  rcases h with rfl | rfl <;> decide

/-- What is written with a backslash in front stands for itself. -/
theorem IsQuote.unescape (h : IsQuote quote) (special : c = '\\' ∨ c = quote) : unescape quote c = [c] := by
  rcases special with rfl | rfl
  · rcases h with rfl | rfl <;> rfl
  · rcases h with rfl | rfl <;> rfl

/-- A quote starts a string. -/
theorem IsQuote.scan (h : IsQuote quote) (body : List Char) : scan quote body = scanString quote body := by
  rcases h with rfl | rfl <;> rfl

/-- No quote is a blank. -/
theorem IsQuote.isBlank (h : IsQuote quote) : Text.isBlank quote = false := by
  rcases h with rfl | rfl <;> decide

end

/-! ## Reading what has been written -/

section
variable {quote : Char} (h : IsQuote quote)

include h

/-- What is written for a character within the limit is read as the character, and the string goes on. -/
theorem scanStringBody_escaped_cons {c : Char} {size : Nat} (fits : size + c.utf8Size ≤ Limits.stringSize)
    (read content rest : List Char) :
    scanStringBody quote read content size (escaped quote c ++ rest) =
      scanStringBody quote ((escaped quote c).reverse ++ read) (c :: content) (size + c.utf8Size) rest := by
  by_cases special : c = '\\' ∨ c = quote
  · have single : byteSize [c] = c.utf8Size := by simp
    rw [escaped_of_special special, List.cons_append, List.singleton_append]
    conv => lhs; unfold scanStringBody
    simp [h.ne_backslash, h.unescape special, single, fits]
  · have plain := not_or.mp special
    rw [escaped_of_plain special, List.singleton_append]
    conv => lhs; unfold scanStringBody
    simp [plain, fits]

/-- What is written for a text, with the quote behind it, is read as the text. -/
theorem scanStringBody_escaped {value : List Char} (read content rest : List Char) (size : Nat)
    (within : size + byteSize value ≤ Limits.stringSize) :
    scanStringBody quote read content size (value.flatMap (escaped quote) ++ quote :: rest) =
      .ok ⟨.string (String.ofList (content.reverse ++ value)),
        read.reverse ++ (value.flatMap (escaped quote) ++ [quote]), rest⟩ := by
  -- by induction on the text, of which each character is read with the backslash in front of it
  induction value generalizing read content size with
  | nil =>
    unfold scanStringBody
    simp
  | cons c value ih =>
    rw [byteSize_cons] at within
    rw [List.flatMap_cons, List.append_assoc, scanStringBody_escaped_cons h (by omega), ih _ _ _ (by omega)]
    simp only [List.reverse_append, List.reverse_reverse, List.reverse_cons, List.append_assoc,
      List.singleton_append]

end

/-! ## Whole texts -/

/-- Nothing is in front of what is written between quotes. -/
theorem dropWhile_quoted {quote : Char} (h : IsQuote quote) (value : List Char) :
    (quoted quote value).dropWhile Text.isBlank = quoted quote value :=
  List.dropWhile_cons_of_neg (by simp [h.isBlank])

theorem takeWhile_quoted {quote : Char} (h : IsQuote quote) (value : List Char) :
    (quoted quote value).takeWhile Text.isBlank = [] :=
  List.takeWhile_cons_of_neg (by simp [h.isBlank])

/-- A text that keeps within the limit can be written: between quotes there is one string, which is the text,
and behind it nothing. -/
theorem lex_quoted (countComments : Bool) {quote : Char} (h : IsQuote quote) (value : String)
    (within : value.utf8ByteSize ≤ Limits.stringSize) :
    let text := quoted quote value.toList
    lex countComments text = .ok
      [⟨.string value, ⟨.start, placeBehind text⟩⟩, ⟨.eof, ⟨placeBehind text, placeBehind text⟩⟩] := by
  intro text
  rw [← byteSize_toList] at within
  have read : scan quote (value.toList.flatMap (escaped quote) ++ [quote]) = .ok ⟨.string value, text, []⟩ := by
    rw [h.scan, scanString, scanStringBody_escaped h _ _ _ _ (by omega)]
    simp [text, quoted]
  have few : ¬Limits.tokenCount < 1 := by decide
  refine (lexFrom_of_ok countComments _ .start [] 0 (dropWhile_quoted h _) read).trans ?_
  dsimp only
  have counts : (Token.string value).isSignificant = true := rfl
  simp only [takeWhile_quoted h, counts, Bool.true_or, if_true, Nat.zero_add, if_neg few]
  exact lexFrom_of_blank _ _ _ _ _ rfl

/-- A text of backslashes, quotes of both kinds, a line break, a tab and letters of several bytes. -/
theorem lex_quoted_of_hard_text :
    let value := "\\\"'\n\t\\\\nä😀\""
    let text := ['"', '\\', '\\', '\\', '"', '\'', '\n', '\t', '\\', '\\', '\\', '\\', 'n', 'ä', '😀',
      '\\', '"', '"']
    IsQuote '"' ∧ value.utf8ByteSize ≤ Limits.stringSize ∧ lex false text = .ok
      [⟨.string value, ⟨.start, placeBehind text⟩⟩, ⟨.eof, ⟨placeBehind text, placeBehind text⟩⟩] := by
  intro value text
  have isQuote : IsQuote '"' := .inl rfl
  have within : value.utf8ByteSize ≤ Limits.stringSize := by decide
  have written : quoted '"' value.toList = text := by decide
  have read := lex_quoted false isQuote value within
  rw [written] at read
  exact ⟨isQuote, within, read⟩

end Planfile.Lexer
