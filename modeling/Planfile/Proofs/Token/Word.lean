import Planfile.Grammar.Rule
import Planfile.Token.Scan.Lexeme

/-!
# Planfile — the identifiers of a text

A grammar tells identifiers from marks by their first character: a literal that looks like an
identifier can be asked for by its text and by its class. That is safe because identifiers are the
only tokens with a class and a literal text, and because every identifier that is read from a text
starts like one.

Main results:

* `token_eq_id_of_scan` — an identifier is read by the reader of identifiers, and its name is its
  lexeme.
* `isWord_of_produces` — every identifier of a text looks like one.
* `eq_append_eof_of_lex` — the end of a text is its last token, and no other.
-/

namespace Planfile.Lexer

/-- The tokens that some text has, the end of the text included. -/
def Produces (token : Token) : Prop :=
  ∃ countComments cs tokens span,
    lex countComments cs = .ok tokens ∧ ⟨token, span⟩ ∈ tokens

/-- Whether a token is neither an identifier nor the end of a text. -/
def isOther : Token → Bool
  | .id _ | .eof => false
  | _ => true

/-! ## Readers that give no identifier -/

/-- A comment is no identifier. -/
theorem isOther_of_commentOf {text rest : List Char} {s : Scanned}
    (h : commentOf text rest = .ok s) : isOther s.token = true := by
  unfold commentOf at h
  split at h
  · cases h
    rfl
  · cases h

/-- A string is no identifier. -/
theorem isOther_of_scanStringBody {quote : Char} {read content : List Char} {size : Nat}
    {cs : List Char} {s : Scanned} (h : scanStringBody quote read content size cs = .ok s) :
    isOther s.token = true := by
  fun_induction scanStringBody quote read content size cs with
  | case1 => cases h
  | case2 =>
    cases h
    rfl
  | case3 => cases h
  | case4 read content size _ d rest _ _ _ ih => exact ih h
  | case5 => cases h
  | case6 read content size c rest _ _ _ ih => exact ih h
  | case7 => cases h

/-- An integer is no identifier. -/
theorem isOther_of_integerOf {digits rest : List Char} {s : Scanned}
    (h : integerOf digits rest = .ok s) : isOther s.token = true := by
  unfold integerOf at h
  split at h
  · cases h
    rfl
  · cases h

/-- A date is no identifier. -/
theorem isOther_of_dateOf {year month day hour minute second text rest : List Char} {s : Scanned}
    (h : dateOf year month day hour minute second text rest = .ok s) :
    isOther s.token = true := by
  unfold dateOf at h
  split at h
  · split at h
    · cases h
      rfl
    · cases h
  · cases h

/-- A date with the time of day that may follow it is no identifier. -/
theorem isOther_of_scanDate {year rest : List Char} {s : Scanned}
    (h : scanDate year rest = .ok s) : isOther s.token = true := by
  unfold scanDate at h
  dsimp only at h
  split at h
  · split at h
    · split at h
      · unfold scanClock at h
        split at h
        · exact isOther_of_dateOf h
        · dsimp only at h
          split at h <;> exact isOther_of_dateOf h
      · cases h
    · cases h
  · cases h

/-- Neither numbers nor dates nor times are identifiers. -/
theorem isOther_of_scanNumber {cs : List Char} {s : Scanned} (h : scanNumber cs = .ok s) :
    isOther s.token = true := by
  unfold scanNumber at h
  dsimp only at h
  split at h
  · split at h
    · exact isOther_of_scanDate h
    · exact isOther_of_integerOf h
  · split at h
    · unfold scanTime at h
      dsimp only at h
      split at h
      · cases h
        rfl
      · cases h
    · exact isOther_of_integerOf h
  · split at h
    · cases h
      rfl
    · exact isOther_of_integerOf h
  · exact isOther_of_integerOf h

/-- A relative path is no identifier. -/
theorem isOther_of_scanRelative {cs : List Char} {s : Scanned} (h : scanRelative cs = .ok s) :
    isOther s.token = true := by
  unfold scanRelative at h
  dsimp only at h
  split at h
  · cases eq_ok_of_withinIdLimit h
    rfl
  · cases h

/-- A mark is no identifier. -/
theorem isOther_of_scanMark {c : Char} {rest : List Char} {s : Scanned}
    (h : scanMark c rest = .ok s) : isOther s.token = true := by
  unfold scanMark at h
  split at h
  · cases h
    rfl
  · cases h
    rfl
  · split at h
    · cases h
      rfl
    · cases h

/-- Only the reader of identifiers gives one, and only where an identifier starts. -/
theorem isOther_or_of_scan {c : Char} {rest : List Char} {s : Scanned} (h : scan c rest = .ok s) :
    isOther s.token = true ∨ isIdStart c = true ∧ scanIdentifier (c :: rest) = .ok s := by
  unfold scan at h
  split at h
  · exact .inl (isOther_of_commentOf h)
  split at h
  · split at h
    · exact .inl (isOther_of_commentOf h)
    · unfold scanBlockComment at h
      split at h
      · exact .inl (isOther_of_commentOf h)
      · cases h
    · cases h
  split at h
  · exact .inl (isOther_of_scanStringBody h)
  split at h
  · exact .inl (isOther_of_scanNumber h)
  split at h
  · exact .inl (isOther_of_scanRelative h)
  split at h
  · next starts => exact .inr ⟨starts, h⟩
  · exact .inl (isOther_of_scanMark h)

/-! ## Identifiers -/

/-- The name of an identifier is its lexeme. -/
theorem toList_of_scanIdentifier {cs : List Char} {s : Scanned} {name : String}
    (h : scanIdentifier cs = .ok s) (hs : s.token = .id name) : name.toList = s.lexeme := by
  unfold scanIdentifier at h
  generalize splitDotted [] cs = split at h
  obtain ⟨text, rest⟩ := split
  have h := eq_ok_of_withinIdLimit h
  split at h
  · cases h
    cases hs
  · split at h
    · cases h
      cases hs
    · cases h
      cases hs
      simp

/-- The reader of identifiers never gives the end of a text. -/
theorem token_ne_eof_of_scanIdentifier {cs : List Char} {s : Scanned}
    (h : scanIdentifier cs = .ok s) : s.token ≠ .eof := by
  unfold scanIdentifier at h
  generalize splitDotted [] cs = split at h
  obtain ⟨text, rest⟩ := split
  have h := eq_ok_of_withinIdLimit h
  split at h
  · cases h
    simp
  · split at h <;> cases h <;> simp

/-- An identifier starts as identifiers do, and its name is its lexeme. -/
theorem token_eq_id_of_scan {c : Char} {rest : List Char} {s : Scanned} {name : String}
    (h : scan c rest = .ok s) (hs : s.token = .id name) :
    isIdStart c = true ∧ name.toList = s.lexeme := by
  rcases isOther_or_of_scan h with other | ⟨starts, identifier⟩
  · rw [hs] at other
    cases other
  · exact ⟨starts, toList_of_scanIdentifier identifier hs⟩

/-- No reader gives the end of a text. -/
theorem isEof_of_scan {c : Char} {rest : List Char} {s : Scanned} (h : scan c rest = .ok s) :
    s.token.isEof = false := by
  have notEof : s.token ≠ .eof := by
    intro eof
    rcases isOther_or_of_scan h with other | ⟨-, identifier⟩
    · rw [eof] at other
      cases other
    · exact token_ne_eof_of_scanIdentifier identifier eof
  cases token : s.token with
  | eof => exact absurd token notEof
  | _ => rfl

/-- An identifier that has been read looks like one. -/
theorem isWord_of_scan {c : Char} {rest : List Char} {s : Scanned} {name : String}
    (h : scan c rest = .ok s) (hs : s.token = .id name) : Terminal.isWord name = true := by
  obtain ⟨hc, hname⟩ := token_eq_id_of_scan h hs
  -- the lexeme is not empty and starts the text, so its first character is that of the text
  have first : name.toList.head? = some c := by
    rw [hname]
    have whole := lexeme_append_rest_of_scan h
    cases hl : s.lexeme with
    | nil => exact absurd hl (lexeme_ne_nil_of_scan h)
    | cons d tail =>
      rw [hl, List.cons_append] at whole
      rw [List.head?_cons, (List.cons.inj whole).1]
  rw [Terminal.isWord, first]
  exact hc

/-! ## Tokens of a text -/

/-- The tokens of a text are those that have been found before, those that are read somewhere in it,
and the end of the text. -/
theorem eq_append_of_lexFrom {countComments : Bool} {steps : Nat} {p : Position} {cs : List Char}
    {found tokens : List SpannedToken} {counted : Nat}
    (h : lexFrom countComments steps p cs found counted = .ok tokens) :
    ∃ scanned span, tokens = found.reverse ++ scanned ++ [⟨.eof, span⟩] ∧
      ∀ t ∈ scanned, ∃ c rest s, scan c rest = .ok s ∧ s.token = t.token := by
  induction steps generalizing p cs found counted with
  | zero =>
    rw [lexFrom_zero] at h
    cases h
    exact ⟨[], _, by rw [List.append_nil], fun t ht => absurd ht List.not_mem_nil⟩
  | succ steps ih =>
    rcases cases_of_lexFrom h with ⟨-, rfl⟩ | ⟨c, rest, s, -, scanned, -, behind⟩
    · exact ⟨[], _, by rw [List.append_nil], fun t ht => absurd ht List.not_mem_nil⟩
    · obtain ⟨others, span, rfl, read⟩ := ih behind
      -- the token that was just read joins those that were found before
      rw [List.reverse_cons, List.append_assoc found.reverse]
      refine ⟨_ :: others, span, rfl, ?_⟩
      intro t ht
      rcases List.mem_cons.mp ht with rfl | ht
      · exact ⟨c, rest, s, scanned, rfl⟩
      · exact read t ht

/-- The end of a text is its last token, and no other. -/
theorem eq_append_eof_of_lex {countComments : Bool} {cs : List Char} {tokens : List SpannedToken}
    (h : lex countComments cs = .ok tokens) :
    ∃ scanned span, tokens = scanned ++ [⟨.eof, span⟩] ∧ ∀ t ∈ scanned, t.token.isEof = false := by
  obtain ⟨scanned, span, rfl, read⟩ := eq_append_of_lexFrom h
  refine ⟨scanned, span, rfl, ?_⟩
  intro t ht
  obtain ⟨c, rest, s, hs, same⟩ := read t ht
  rw [← same]
  exact isEof_of_scan hs

/-- Every identifier of a text looks like one. -/
theorem isWord_of_produces {name : String} (h : Produces (.id name)) :
    Terminal.isWord name = true := by
  obtain ⟨countComments, cs, tokens, span, hl, ht⟩ := h
  obtain ⟨scanned, stop, rfl, read⟩ := eq_append_of_lexFrom hl
  rcases List.mem_append.mp ht with found | eof
  · obtain ⟨c, rest, s, hs, hname⟩ := read _ found
    exact isWord_of_scan hs hname
  · cases List.mem_singleton.mp eof

/-- Whether a token looks like one of a text: identifiers have to look like identifiers. -/
def looksRight : Token → Bool
  | .id name => Terminal.isWord name
  | _ => true

/-- Every token of a text looks like one. -/
theorem looksRight_of_produces {token : Token} (h : Produces token) : looksRight token = true := by
  cases token with
  | id name => exact isWord_of_produces h
  | _ => rfl

/-- The end of a text is one of its tokens. -/
theorem produces_eof : Produces .eof :=
  ⟨false, [], _, _, rfl, List.mem_cons_self⟩

/-- So is each that is found among the tokens of a text. -/
theorem produces_of_found (cs : List Char) {ts : List Token}
    (h : (lex false cs).toOption.any (fun tokens => ts.all fun token => tokens.any (·.token == token)) = true) :
    ∀ token ∈ ts, Produces token := by
  intro token mem
  cases lexed : lex false cs with
  | error e =>
    rw [lexed] at h
    cases h
  | ok tokens =>
    rw [lexed] at h
    obtain ⟨⟨other, span⟩, found, same⟩ := List.any_eq_true.mp (List.all_eq_true.mp h token mem)
    obtain rfl : other = token := beq_iff_eq.mp same
    exact ⟨false, cs, tokens, span, lexed, found⟩

end Planfile.Lexer
