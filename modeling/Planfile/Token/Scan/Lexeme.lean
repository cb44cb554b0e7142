import Planfile.Token.Lexer

/-!
# Planfile — what a lexeme takes of its text

Reading a token splits the text in two: the lexeme, which is never empty, and the rest. So a text is
shorter behind every token.

Main results:

* `lexeme_append_rest_of_scan` — a lexeme with what follows it is the text it was read from.
* `lexeme_ne_nil_of_scan` — no lexeme is empty.
* `cases_of_lexFrom` — a text that is read has no token left, or the next one is read, and then the others.
-/

namespace Planfile.Lexer

open Text.Digits (isDigit count32)

/-! ## Nothing is lost -/

/-- A comment is all of its text. -/
theorem lexeme_append_rest_of_commentOf {text rest : List Char} {s : Scanned}
    (h : commentOf text rest = .ok s) : s.lexeme ++ s.rest = text ++ rest := by
  unfold commentOf at h
  split at h
  · cases h
    rfl
  · cases h

/-- Splitting a text loses none of it. -/
theorem append_of_splitAtClose {seen cs text rest : List Char}
    (h : splitAtClose seen cs = some (text, rest)) : text ++ rest = seen.reverse ++ cs := by
  fun_induction splitAtClose seen cs with
  | case1 seen rest =>
    cases h
    simp
  | case2 seen c rest _ ih => simpa using ih h
  | case3 => cases h

/-- What has been read and what is ahead make lexeme and rest. -/
theorem lexeme_append_rest_of_scanStringBody {quote : Char} {read content : List Char} {size : Nat}
    {cs : List Char} {s : Scanned} (h : scanStringBody quote read content size cs = .ok s) :
    s.lexeme ++ s.rest = read.reverse ++ cs := by
  fun_induction scanStringBody quote read content size cs with
  | case1 => cases h
  | case2 =>
    cases h
    simp
  | case3 => cases h
  | case4 read content size _ d rest _ _ _ ih => simpa using ih h
  | case5 => cases h
  | case6 read content size c rest _ _ _ ih => simpa using ih h
  | case7 => cases h

/-- A line comment and what follows it are the text. -/
theorem lexeme_append_rest_of_scanLineComment {cs : List Char} {s : Scanned}
    (h : scanLineComment cs = .ok s) : s.lexeme ++ s.rest = cs := by
  rw [lexeme_append_rest_of_commentOf h, List.takeWhile_append_dropWhile]

/-- A block comment and what follows it are the text. -/
theorem lexeme_append_rest_of_scanBlockComment {body : List Char} {s : Scanned}
    (h : scanBlockComment body = .ok s) : s.lexeme ++ s.rest = '/' :: '*' :: body := by
  unfold scanBlockComment at h
  split at h
  · next hs => rw [lexeme_append_rest_of_commentOf h, append_of_splitAtClose hs]; rfl
  · cases h

/-- An integer takes all of its digits. -/
theorem lexeme_append_rest_of_integerOf {digits rest : List Char} {s : Scanned}
    (h : integerOf digits rest = .ok s) : s.lexeme ++ s.rest = digits ++ rest := by
  unfold integerOf at h
  split at h
  · cases h
    rfl
  · cases h

/-- A time of day takes hours, colon and minutes. -/
theorem lexeme_append_rest_of_scanTime {hours rest : List Char} {s : Scanned}
    (h : scanTime hours rest = .ok s) : s.lexeme ++ s.rest = hours ++ ':' :: rest := by
  unfold scanTime at h
  dsimp only at h
  split at h
  · cases h
    simp
  · cases h

/-- A date takes the text it is given. -/
theorem lexeme_append_rest_of_dateOf {year month day hour minute second text rest : List Char}
    {s : Scanned} (h : dateOf year month day hour minute second text rest = .ok s) :
    s.lexeme ++ s.rest = text ++ rest := by
  unfold dateOf at h
  split at h
  · split at h
    · cases h
      rfl
    · cases h
  · cases h

/-- A time of day behind a date has a hyphen before it and a colon in it. -/
theorem eq_of_clockAfterDate? {rest hours after : List Char}
    (h : clockAfterDate? rest = some (hours, after)) : rest = '-' :: hours ++ ':' :: after := by
  unfold clockAfterDate? at h
  split at h
  · next cs =>
    split at h
    · cases h
    · next hd _ =>
      cases h
      rw [List.cons_append, ← hd, List.takeWhile_append_dropWhile]
    · cases h
  · cases h

/-- Seconds have a colon before them. -/
theorem eq_of_secondsAfterClock? {rest seconds after : List Char}
    (h : secondsAfterClock? rest = some (seconds, after)) : rest = ':' :: seconds ++ after := by
  unfold secondsAfterClock? at h
  split at h
  · split at h
    · cases h
      simp
    · cases h
  · cases h

/-- A date with the time of day that may follow it loses nothing. -/
theorem lexeme_append_rest_of_scanClock {year month day text rest : List Char} {s : Scanned}
    (h : scanClock year month day text rest = .ok s) : s.lexeme ++ s.rest = text ++ rest := by
  unfold scanClock at h
  split at h
  · exact lexeme_append_rest_of_dateOf h
  · next hours after hc =>
    rw [eq_of_clockAfterDate? hc]
    dsimp only at h
    split at h
    · rw [lexeme_append_rest_of_dateOf h]
      simp
    · next seconds behind hs =>
      rw [lexeme_append_rest_of_dateOf h]
      have hb := eq_of_secondsAfterClock? hs
      simp only [List.append_assoc, List.cons_append]
      simp only [List.cons_append] at hb
      rw [← hb, List.takeWhile_append_dropWhile]

/-- A date starts with its year and a hyphen. -/
theorem lexeme_append_rest_of_scanDate {year rest : List Char} {s : Scanned}
    (h : scanDate year rest = .ok s) : s.lexeme ++ s.rest = year ++ '-' :: rest := by
  have month : rest.takeWhile isDigit ++ rest.dropWhile isDigit = rest :=
    List.takeWhile_append_dropWhile
  unfold scanDate at h
  dsimp only at h
  split at h
  · next behind _ hd =>
    split at h
    · split at h
      · rw [hd] at month
        rw [lexeme_append_rest_of_scanClock h]
        simp only [List.append_assoc, List.cons_append, List.takeWhile_append_dropWhile, month]
      · cases h
    · cases h
  · cases h

/-- Numbers, dates and times with what follows them are the text. -/
theorem lexeme_append_rest_of_scanNumber {cs : List Char} {s : Scanned}
    (h : scanNumber cs = .ok s) : s.lexeme ++ s.rest = cs := by
  have whole : cs.takeWhile isDigit ++ cs.dropWhile isDigit = cs :=
    List.takeWhile_append_dropWhile
  unfold scanNumber at h
  dsimp only at h
  split at h
  · next rest hd =>
    rw [hd] at whole
    split at h
    · rw [lexeme_append_rest_of_scanDate h, whole]
    · rw [lexeme_append_rest_of_integerOf h, whole]
  · next rest hd =>
    rw [hd] at whole
    split at h
    · rw [lexeme_append_rest_of_scanTime h, whole]
    · rw [lexeme_append_rest_of_integerOf h, whole]
  · next rest hd =>
    rw [hd] at whole
    split at h
    · cases h
      simpa using whole
    · rw [lexeme_append_rest_of_integerOf h, whole]
  · rw [lexeme_append_rest_of_integerOf h, whole]

/-- Splitting off a path loses nothing. -/
theorem append_splitDotted (seen cs : List Char) :
    (splitDotted seen cs).1 ++ (splitDotted seen cs).2 = seen.reverse ++ cs := by
  fun_induction splitDotted seen cs with
  | case1 => rfl
  | case2 seen c rest _ ih => simpa using ih
  | case3 => rfl

/-- The limit refuses and changes nothing. -/
theorem eq_ok_of_withinIdLimit {text : List Char} {otherwise : Outcome} {s : Scanned}
    (h : withinIdLimit text otherwise = .ok s) : otherwise = .ok s := by
  unfold withinIdLimit at h
  split at h
  · cases h
  · exact h

/-- An identifier with what follows it is the text. -/
theorem lexeme_append_rest_of_scanIdentifier {cs : List Char} {s : Scanned}
    (h : scanIdentifier cs = .ok s) : s.lexeme ++ s.rest = cs := by
  have whole := append_splitDotted [] cs
  unfold scanIdentifier at h
  generalize splitDotted [] cs = split at h whole
  obtain ⟨text, rest⟩ := split
  have h := eq_ok_of_withinIdLimit h
  split at h
  · cases h
    exact whole
  · split at h
    · cases h
      simpa using whole
    · cases h
      exact whole

/-- A relative path with what follows it is the text. -/
theorem lexeme_append_rest_of_scanRelative {cs : List Char} {s : Scanned}
    (h : scanRelative cs = .ok s) : s.lexeme ++ s.rest = cs := by
  unfold scanRelative at h
  dsimp only at h
  split at h
  · have whole := append_splitDotted [] (cs.dropWhile (· == '!'))
    generalize splitDotted [] (cs.dropWhile (· == '!')) = split at h whole
    obtain ⟨text, rest⟩ := split
    cases eq_ok_of_withinIdLimit h
    dsimp only at whole ⊢
    rw [List.append_assoc, whole]
    exact List.takeWhile_append_dropWhile
  · cases h

/-- A mark with what follows it is the text. -/
theorem lexeme_append_rest_of_scanMark {c : Char} {rest : List Char} {s : Scanned}
    (h : scanMark c rest = .ok s) : s.lexeme ++ s.rest = c :: rest := by
  unfold scanMark at h
  split at h
  · cases h
    rfl
  · cases h
    rfl
  · split at h
    · cases h
      rfl
    · cases h

/-- A lexeme with what follows it is the text it was read from. -/
theorem lexeme_append_rest_of_scan {c : Char} {rest : List Char} {s : Scanned}
    (h : scan c rest = .ok s) : s.lexeme ++ s.rest = c :: rest := by
  unfold scan at h
  split at h
  · exact lexeme_append_rest_of_scanLineComment h
  split at h
  · next hc =>
    split at h
    · exact lexeme_append_rest_of_scanLineComment h
    · rw [lexeme_append_rest_of_scanBlockComment h, hc]
    · cases h
  split at h
  · exact lexeme_append_rest_of_scanStringBody h
  split at h
  · exact lexeme_append_rest_of_scanNumber h
  split at h
  · exact lexeme_append_rest_of_scanRelative h
  split at h
  · exact lexeme_append_rest_of_scanIdentifier h
  · exact lexeme_append_rest_of_scanMark h

/-! ## Something is taken -/

/-- The lexeme of a comment is its text. -/
theorem lexeme_of_commentOf {text rest : List Char} {s : Scanned}
    (h : commentOf text rest = .ok s) : s.lexeme = text := by
  unfold commentOf at h
  split at h
  · cases h
    rfl
  · cases h

/-- What is split off ends with the two characters that close a comment. -/
theorem ne_nil_of_splitAtClose {seen cs text rest : List Char}
    (h : splitAtClose seen cs = some (text, rest)) : text ≠ [] := by
  fun_induction splitAtClose seen cs with
  | case1 seen rest =>
    cases h
    simp
  | case2 seen c rest _ ih => exact ih h
  | case3 => cases h

/-- A string has at least its closing quote. -/
theorem lexeme_ne_nil_of_scanStringBody {quote : Char} {read content : List Char} {size : Nat}
    {cs : List Char} {s : Scanned} (h : scanStringBody quote read content size cs = .ok s) :
    s.lexeme ≠ [] := by
  fun_induction scanStringBody quote read content size cs with
  | case1 => cases h
  | case2 =>
    cases h
    simp
  | case3 => cases h
  | case4 read content size _ d rest _ _ _ ih => exact ih h
  | case5 => cases h
  | case6 read content size c rest _ _ _ ih => exact ih h
  | case7 => cases h

/-- The lexeme of an integer is its digits. -/
theorem lexeme_of_integerOf {digits rest : List Char} {s : Scanned}
    (h : integerOf digits rest = .ok s) : s.lexeme = digits := by
  unfold integerOf at h
  split at h
  · cases h
    rfl
  · cases h

/-- The lexeme of a date is its text. -/
theorem lexeme_of_dateOf {year month day hour minute second text rest : List Char} {s : Scanned}
    (h : dateOf year month day hour minute second text rest = .ok s) : s.lexeme = text := by
  unfold dateOf at h
  split at h
  · split at h
    · cases h
      rfl
    · cases h
  · cases h

/-- A date with a time of day starts with the date. -/
theorem prefix_of_scanClock {year month day text rest : List Char} {s : Scanned}
    (h : scanClock year month day text rest = .ok s) : text <+: s.lexeme := by
  unfold scanClock at h
  split at h
  · exact lexeme_of_dateOf h ▸ List.prefix_refl _
  · dsimp only at h
    split at h
    · rw [lexeme_of_dateOf h]
      simp
    · rw [lexeme_of_dateOf h]
      simp

/-- A date starts with its year. -/
theorem prefix_of_scanDate {year rest : List Char} {s : Scanned} (h : scanDate year rest = .ok s) :
    year <+: s.lexeme := by
  unfold scanDate at h
  dsimp only at h
  split at h
  · split at h
    · split at h
      · refine List.IsPrefix.trans ?_ (prefix_of_scanClock h)
        simp
      · cases h
    · cases h
  · cases h

/-- A time of day starts with its hours. -/
theorem prefix_of_scanTime {hours rest : List Char} {s : Scanned}
    (h : scanTime hours rest = .ok s) : hours <+: s.lexeme := by
  unfold scanTime at h
  dsimp only at h
  split at h
  · cases h
    simp
  · cases h

/-- Numbers, dates and times start with all the digits that the text starts with. -/
theorem prefix_of_scanNumber {cs : List Char} {s : Scanned} (h : scanNumber cs = .ok s) :
    cs.takeWhile isDigit <+: s.lexeme := by
  unfold scanNumber at h
  dsimp only at h
  split at h
  · split at h
    · exact prefix_of_scanDate h
    · exact lexeme_of_integerOf h ▸ List.prefix_refl _
  · split at h
    · exact prefix_of_scanTime h
    · exact lexeme_of_integerOf h ▸ List.prefix_refl _
  · split at h
    · cases h
      simp
    · exact lexeme_of_integerOf h ▸ List.prefix_refl _
  · exact lexeme_of_integerOf h ▸ List.prefix_refl _

/-- A path starts with what has been read of it. -/
theorem prefix_of_splitDotted (seen cs : List Char) :
    seen.reverse <+: (splitDotted seen cs).1 := by
  fun_induction splitDotted seen cs with
  | case1 => exact List.prefix_refl _
  | case2 seen c rest _ ih => exact (List.prefix_append _ [c]).trans (by simpa using ih)
  | case3 => exact List.prefix_refl _

/-- An identifier takes its first character. -/
theorem lexeme_ne_nil_of_scanIdentifier {c : Char} {rest : List Char} {s : Scanned}
    (hc : isIdStart c = true) (h : scanIdentifier (c :: rest) = .ok s) : s.lexeme ≠ [] := by
  have continues : isIdContinue c = true := by
    simp only [isIdStart, isIdContinue, Char.isAlphanum, Bool.or_eq_true] at hc ⊢
    rcases hc with hc | hc
    · exact .inl (.inl hc)
    · exact .inr hc
  have first : [c] <+: (splitDotted [] (c :: rest)).1 := by
    simp only [splitDotted, continues, Bool.true_or, if_true]
    exact prefix_of_splitDotted [c] rest
  unfold scanIdentifier at h
  generalize splitDotted [] (c :: rest) = split at h first
  obtain ⟨text, behind⟩ := split
  have taken : text ≠ [] := by
    rintro rfl
    simp at first
  have h := eq_ok_of_withinIdLimit h
  split at h
  · cases h
    exact taken
  · split at h
    · cases h
      simp
    · cases h
      exact taken

/-- A relative path takes its first bang. -/
theorem lexeme_ne_nil_of_scanRelative {rest : List Char} {s : Scanned}
    (h : scanRelative ('!' :: rest) = .ok s) : s.lexeme ≠ [] := by
  unfold scanRelative at h
  dsimp only at h
  split at h
  · cases eq_ok_of_withinIdLimit h
    simp
  · cases h

/-- A mark takes its first character. -/
theorem lexeme_ne_nil_of_scanMark {c : Char} {rest : List Char} {s : Scanned}
    (h : scanMark c rest = .ok s) : s.lexeme ≠ [] := by
  unfold scanMark at h
  split at h
  · cases h
    simp
  · cases h
    simp
  · split at h
    · cases h
      simp
    · cases h

/-- No lexeme is empty. -/
theorem lexeme_ne_nil_of_scan {c : Char} {rest : List Char} {s : Scanned}
    (h : scan c rest = .ok s) : s.lexeme ≠ [] := by
  unfold scan at h
  split at h
  · next hc =>
    rw [lexeme_of_commentOf h, hc]
    simp
  split at h
  · next hc =>
    split at h
    · rw [lexeme_of_commentOf h, hc]
      simp
    · unfold scanBlockComment at h
      split at h
      · next hs =>
        rw [lexeme_of_commentOf h]
        exact ne_nil_of_splitAtClose hs
      · cases h
    · cases h
  split at h
  · exact lexeme_ne_nil_of_scanStringBody h
  split at h
  · next hd =>
    -- a number begins with the digit that has been seen
    intro e
    have digits := prefix_of_scanNumber h
    rw [e] at digits
    simp [hd] at digits
  split at h
  · next hb =>
    subst hb
    exact lexeme_ne_nil_of_scanRelative h
  split at h
  · next hi => exact lexeme_ne_nil_of_scanIdentifier hi h
  · exact lexeme_ne_nil_of_scanMark h

/-- Behind a token the text is shorter by at least a character. -/
theorem length_rest_le_of_scan {c : Char} {rest : List Char} {s : Scanned}
    (h : scan c rest = .ok s) : s.rest.length ≤ rest.length := by
  have whole := congrArg List.length (lexeme_append_rest_of_scan h)
  have taken := List.length_pos_iff.mpr (lexeme_ne_nil_of_scan h)
  simp only [List.length_append, List.length_cons] at whole
  omega

/-! ## Steps -/

/-- No more steps are left, so the text is taken to end before its next lexeme. -/
theorem lexFrom_zero (countComments : Bool) (p : Position) (cs : List Char) (found : List SpannedToken)
    (counted : Nat) : lexFrom countComments 0 p cs found counted =
      let start := p.advanceAll (cs.takeWhile Text.isBlank)
      .ok (found.reverse ++ [⟨.eof, ⟨start, start⟩⟩]) :=
  congrArg _ List.reverse_cons

/-- Where only blanks are left the text ends. -/
theorem lexFrom_of_blank (countComments : Bool) (steps : Nat) (p : Position) {cs : List Char}
    (found : List SpannedToken) (counted : Nat) (h : cs.dropWhile Text.isBlank = []) :
    lexFrom countComments steps p cs found counted =
      let start := p.advanceAll (cs.takeWhile Text.isBlank)
      .ok (⟨.eof, ⟨start, start⟩⟩ :: found).reverse := by
  rw [lexFrom, readFrom_of_blank _ _ _ _ _ _ _ h]

/-- Where a token cannot be read the text is refused. -/
theorem lexFrom_of_error (countComments : Bool) (steps : Nat) (p : Position) {cs rest : List Char}
    {c : Char} (found : List SpannedToken) (counted : Nat) {r : Rejection}
    (h : cs.dropWhile Text.isBlank = c :: rest) (hr : scan c rest = .error r) :
    lexFrom countComments (steps + 1) p cs found counted =
      let start := p.advanceAll (cs.takeWhile Text.isBlank)
      .error ⟨faultAt r.fault start, ⟨start, start.advanceAll r.consumed⟩, counted⟩ := by
  rw [lexFrom, readFrom_of_error _ _ _ _ _ _ _ h hr]

/-- Where a token can be read the text is read on behind it. -/
theorem lexFrom_of_ok (countComments : Bool) (steps : Nat) (p : Position) {cs rest : List Char}
    {c : Char} (found : List SpannedToken) (counted : Nat) {s : Scanned}
    (h : cs.dropWhile Text.isBlank = c :: rest) (hs : scan c rest = .ok s) :
    lexFrom countComments (steps + 1) p cs found counted =
      let start := p.advanceAll (cs.takeWhile Text.isBlank)
      let stop := start.advanceAll s.lexeme
      let counted := if s.token.isSignificant || countComments then counted + 1 else counted
      if Limits.tokenCount < counted then
        .error ⟨faultAt (.tooManyTokens counted) start, ⟨start, stop⟩, counted⟩
      else lexFrom countComments steps stop s.rest (⟨s.token, ⟨start, stop⟩⟩ :: found) counted := by
  rw [lexFrom, readFrom_of_ok _ _ _ _ _ _ _ h hs]
  exact apply_ite Prod.fst _ _ _

/-- A text has been read: only blanks were left of it, or a token that the limit leaves room for has been
read, and then what is behind it. -/
theorem cases_of_lexFrom {countComments : Bool} {steps : Nat} {p : Position} {cs : List Char}
    {found tokens : List SpannedToken} {counted : Nat}
    (h : lexFrom countComments (steps + 1) p cs found counted = .ok tokens) :
    let start := p.advanceAll (cs.takeWhile Text.isBlank)
    (cs.dropWhile Text.isBlank = [] ∧ tokens = found.reverse ++ [⟨.eof, ⟨start, start⟩⟩]) ∨
      ∃ c rest s, cs.dropWhile Text.isBlank = c :: rest ∧ scan c rest = .ok s ∧
        let stop := start.advanceAll s.lexeme
        let counted := if s.token.isSignificant || countComments then counted + 1 else counted
        counted ≤ Limits.tokenCount ∧
          lexFrom countComments steps stop s.rest (⟨s.token, ⟨start, stop⟩⟩ :: found) counted = .ok tokens := by
  intro start
  cases left : cs.dropWhile Text.isBlank with
  | nil =>
    rw [lexFrom_of_blank _ _ _ _ _ left] at h
    cases h
    exact .inl ⟨rfl, List.reverse_cons⟩
  | cons c rest =>
    cases read : scan c rest with
    | error r =>
      rw [lexFrom_of_error _ _ _ _ _ left read] at h
      cases h
    | ok s =>
      rw [lexFrom_of_ok _ _ _ _ _ left read] at h
      by_cases beyond : Limits.tokenCount <
          if s.token.isSignificant || countComments then counted + 1 else counted
      · cases h.symm.trans (if_pos beyond)
      · exact .inr ⟨c, rest, s, rfl, read, Nat.le_of_not_lt beyond, (if_neg beyond).symm.trans h⟩

end Planfile.Lexer
