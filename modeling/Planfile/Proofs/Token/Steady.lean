import Planfile.Proofs.Token.Steady.Number

/-!
# Planfile — a token does not depend on what is put in behind it

Something that starts with a blank or a slash can be put in behind a token, directly or further on, and the
token is read as before: what its reader looks for is not in it. A line comment is the one exception: it
goes on to the end of its line, and what is put in directly behind it would become a part of it. Where the
text breaks off behind a token, it is read as before, too.

Main results:

* `scan_of_spaced` — a token is read as before when something is put in behind it, or the text breaks off.
-/

namespace Planfile

namespace Lexer

/-! ## Names -/

theorem splitDotted_separator {c : Char} (seen gap : List Char) (h : isSeparator c = true) :
    splitDotted seen (c :: gap) = (seen.reverse, c :: gap) := by
  have noName : isIdContinue c = false := by
    cases name : isIdContinue c with
    | false => rfl
    | true =>
      rw [isSeparator_of_isIdContinue name] at h
      cases h
  have noDot : (c == '.') = false := by
    refine beq_eq_false_iff_ne.mpr ?_
    rintro rfl
    cases h
  rw [splitDotted, noName, noDot]
  rfl

/-- What is split off is the text before the rest. -/
theorem append_of_splitDotted {cs text rest : List Char} (h : splitDotted [] cs = (text, rest)) :
    text ++ rest = cs := by
  have whole := append_splitDotted [] cs
  rwa [h] at whole

/-- Names joined by dots are split off as before. -/
theorem splitDotted_of_spaced {cs text rest rest' : List Char} (h : splitDotted [] cs = (text, rest))
    (spaced : Spaced rest rest') : splitDotted [] (text ++ rest') = (text, rest') := by
  -- what has been read already is a part of what is split off
  suffices general : ∀ seen cs, splitDotted seen cs = (text, rest) →
      ∃ used, text = seen.reverse ++ used ∧ splitDotted seen (used ++ rest') = (text, rest') by
    obtain ⟨used, rfl, again⟩ := general [] cs h
    exact again
  intro seen cs h
  fun_induction splitDotted seen cs with
  | case1 seen =>
    cases h
    cases spaced with
    | here gap _ separates => exact ⟨[], by simp, splitDotted_separator seen _ separates⟩
    | off => exact ⟨[], by simp, rfl⟩
  | case2 seen c cs goesOn ih =>
    obtain ⟨path, path', -, starts⟩ := exists_of_splitDotted h
    obtain ⟨used, used', split⟩ := ih h
    obtain rfl := List.append_cancel_left (path'.symm.trans used')
    refine ⟨c :: path, by rw [path']; simp, ?_⟩
    have taken : (isIdContinue c || (c == '.' && startsId (path ++ rest'))) = true := by
      rcases Bool.or_eq_true_iff.mp goesOn with name | dot
      · rw [name, Bool.true_or]
      · obtain ⟨isDot, name⟩ := Bool.and_eq_true_iff.mp dot
        -- the name behind the dot is a part of what is taken
        have startsToo : startsId (path ++ rest') = true := by
          cases path with
          | nil => cases starts name
          | cons d path => exact starts name
        rw [isDot, startsToo, Bool.and_self, Bool.or_true]
    rw [List.cons_append, splitDotted, if_pos taken, split]
  | case3 seen c cs stops =>
    cases h
    cases spaced with
    | here gap _ separates => exact ⟨[], by simp, splitDotted_separator seen _ separates⟩
    | off => exact ⟨[], by simp, rfl⟩
    | @later _ _ rest' behind =>
      have stopsToo : ¬(isIdContinue c || (c == '.' && startsId rest')) = true := by
        intro goesOn
        refine stops ?_
        rcases Bool.or_eq_true_iff.mp goesOn with name | dot
        · rw [name, Bool.true_or]
        · obtain ⟨isDot, name⟩ := Bool.and_eq_true_iff.mp dot
          have before : startsId cs = true :=
            any_head_of_spaced behind (fun _ => isSeparator_of_isIdStart) name
          rw [isDot, before, Bool.and_self, Bool.or_true]
      exact ⟨[], by simp, by rw [List.nil_append, splitDotted, if_neg stopsToo]⟩

theorem steady_scanIdentifier : Steady scanIdentifier := by
  intro cs s h
  unfold scanIdentifier at h
  cases split : splitDotted [] cs with
  | mk text rest =>
  rw [split] at h
  have within := withinIdLimit_of_le (byteSize_le_of_withinIdLimit h)
  have h := eq_ok_of_withinIdLimit h
  -- what is split off is the name, and a colon behind a single name belongs to it
  split at h
  · next dot =>
    cases h
    refine ⟨text, (append_of_splitDotted split).symm, fun {rest'} spaced => ?_⟩
    unfold scanIdentifier
    rw [splitDotted_of_spaced split spaced]
    dsimp only
    rw [within, if_pos dot]
  · next noDot =>
    split at h
    · next behind =>
      cases h
      refine ⟨text ++ [':'], ?_, fun {rest'} spaced => ?_⟩
      · rw [List.append_assoc]
        exact (append_of_splitDotted split).symm
      · unfold scanIdentifier
        rw [List.append_assoc, List.singleton_append, splitDotted_of_spaced split (.later ':' spaced)]
        dsimp only
        rw [within, if_neg noDot]
        rfl
    · next noColon =>
      cases h
      refine ⟨text, (append_of_splitDotted split).symm, fun {rest'} spaced => ?_⟩
      have noColonToo : ∀ behind, rest' ≠ ':' :: behind := by
        rintro behind rfl
        have colon : [':'] <+: ':' :: behind := ⟨behind, rfl⟩
        have plain : ∀ c ∈ [':'], isSeparator c = false := List.forall_mem_singleton.mpr rfl
        obtain ⟨before, same⟩ := prefix_of_spaced spaced plain colon
        exact noColon before same.symm
      unfold scanIdentifier
      rw [splitDotted_of_spaced split spaced]
      dsimp only
      rw [within, if_neg noDot]
      split
      · next behind => exact absurd rfl (noColonToo behind)
      · rfl

theorem steady_scanRelative : Steady scanRelative := by
  intro cs s h
  have whole : cs.takeWhile (· == '!') ++ cs.dropWhile (· == '!') = cs := List.takeWhile_append_dropWhile
  unfold scanRelative at h
  dsimp only at h
  -- marks are followed by a path, and both end where they ended
  split at h
  · next starts =>
    cases split : splitDotted [] (cs.dropWhile (· == '!')) with
    | mk path rest =>
    rw [split] at h
    have within := withinIdLimit_of_le (byteSize_le_of_withinIdLimit h)
    cases eq_ok_of_withinIdLimit h
    have parts := append_of_splitDotted split
    refine ⟨cs.takeWhile (· == '!') ++ path, ?_, fun {rest'} spaced => ?_⟩
    · rw [List.append_assoc, parts, whole]
    · have noSeparator : ∀ c, (c == '!') = true → isSeparator c = false := by
        intro c bang
        rw [beq_iff_eq.mp bang]
        rfl
      have further : Spaced (cs.dropWhile (· == '!')) (path ++ rest') := parts ▸ spaced.append path
      obtain ⟨taken, left⟩ := takeWhile_of_spaced noSeparator further
      have startsToo : startsId (path ++ rest') = true := by
        have name := (isPath_of_splitDotted split starts).starts
        cases path with
        | nil => cases name
        | cons c path => exact name
      unfold scanRelative
      simp only [List.append_assoc, taken, left, if_pos startsToo, splitDotted_of_spaced split spaced]
      exact within _
  · cases h

/-! ## Marks, strings and comments -/

/-- A mark takes an equals sign behind it, or nothing. -/
theorem steady_scanMark (c : Char) : Steady (scanMark c) := by
  intro cs s h
  unfold scanMark at h
  split at h
  · cases h
    exact ⟨['='], rfl, fun _ => rfl⟩
  · cases h
    exact ⟨['='], rfl, fun _ => rfl⟩
  · next noGreater noLess =>
    split at h
    · next m found =>
      cases h
      refine ⟨[], rfl, fun {rest'} spaced => ?_⟩
      -- an equals sign that follows now followed before, and would have been read
      have before {tail : List Char} (equals : rest' = '=' :: tail) : ∃ tail, cs = '=' :: tail := by
        have mark : ['='] <+: rest' := ⟨tail, equals.symm⟩
        have plain : ∀ c ∈ ['='], isSeparator c = false := List.forall_mem_singleton.mpr rfl
        obtain ⟨tail, same⟩ := prefix_of_spaced spaced plain mark
        exact ⟨tail, same.symm⟩
      rw [List.nil_append]
      unfold scanMark
      split
      · obtain ⟨tail, same⟩ := before rfl
        exact absurd same (noGreater tail rfl)
      · obtain ⟨tail, same⟩ := before rfl
        exact absurd same (noLess tail rfl)
      · rw [found]
    · cases h

theorem exists_of_scanStringBody {quote : Char} {read content : List Char} {size : Nat}
    {cs : List Char} {s : Scanned} (h : scanStringBody quote read content size cs = .ok s) :
    ∃ used, cs = used ++ s.rest ∧
      ∀ rest', scanStringBody quote read content size (used ++ rest') = .ok { s with rest := rest' } := by
  fun_induction scanStringBody quote read content size cs with
  | case1 => cases h
  | case2 read content size rest =>
    -- the quote ends the string, so nothing behind it is looked at
    cases h
    refine ⟨[quote], rfl, fun rest' => ?_⟩
    rw [List.singleton_append]
    unfold scanStringBody
    exact if_pos rfl
  | case3 => cases h
  | case4 read content size d rest piece total fits other ih =>
    obtain ⟨used, rfl, again⟩ := ih h
    refine ⟨'\\' :: d :: used, rfl, fun rest' => ?_⟩
    rw [List.cons_append]
    unfold scanStringBody
    rw [if_neg other, if_pos rfl, List.cons_append]
    dsimp only
    rw [if_pos fits, again]
  | case5 => cases h
  | case6 read content size c rest other noEscape fits ih =>
    obtain ⟨used, rfl, again⟩ := ih h
    refine ⟨c :: used, rfl, fun rest' => ?_⟩
    rw [List.cons_append]
    unfold scanStringBody
    dsimp only
    rw [if_neg other, if_neg noEscape, if_pos fits, again]
  | case7 => cases h

/-- What has been split off is split off whatever follows. -/
theorem splitAtClose_append {seen cs text rest : List Char} (h : splitAtClose seen cs = some (text, rest)) :
    ∃ used, used ≠ [] ∧ cs = used ++ rest ∧
      ∀ rest', splitAtClose seen (used ++ rest') = some (text, rest') := by
  fun_induction splitAtClose seen cs with
  | case1 seen rest =>
    cases h
    exact ⟨['*', '/'], List.cons_ne_nil _ _, rfl, fun _ => rfl⟩
  | case2 seen c cs other ih =>
    obtain ⟨used, some, rfl, again⟩ := ih h
    refine ⟨c :: used, List.cons_ne_nil _ _, rfl, fun rest' => ?_⟩
    rw [List.cons_append, splitAtClose]
    · exact again rest'
    · -- where the comment is closed now, it was closed before
      intro behind star slash
      cases used with
      | nil => exact absurd rfl some
      | cons d used =>
        obtain ⟨rfl, -⟩ := List.cons.inj slash
        exact other _ star rfl
  | case3 => cases h

theorem commentOf_of_ok {text rest : List Char} {s : Scanned} (h : commentOf text rest = .ok s) :
    s.rest = rest ∧ ∀ rest', commentOf text rest' = .ok { s with rest := rest' } := by
  unfold commentOf at h ⊢
  split at h
  · next within =>
    cases h
    exact ⟨rfl, fun _ => if_pos within⟩
  · cases h

/-- A block comment is read as before, whatever follows. -/
theorem steady_scanBlockComment : Steady scanBlockComment := by
  intro cs s h
  unfold scanBlockComment at h ⊢
  split at h
  · next text rest split =>
    obtain ⟨rfl, read⟩ := commentOf_of_ok h
    obtain ⟨used, -, whole, again⟩ := splitAtClose_append split
    refine ⟨used, whole, fun {rest'} _ => ?_⟩
    rw [again]
    exact read rest'
  · cases h

/-! ## The first token -/

/-- A line comment is read as before if what follows its line does not change, or is no more. -/
theorem scanLineComment_of_ok {cs : List Char} {s : Scanned} (h : scanLineComment cs = .ok s) :
    s.token = .comment (String.ofList (cs.takeWhile (· != '\n'))) ∧
      cs = cs.takeWhile (· != '\n') ++ s.rest ∧
      ∀ {rest'}, rest'.head? = s.rest.head? ∨ rest' = [] →
        scanLineComment (cs.takeWhile (· != '\n') ++ rest') = .ok { s with rest := rest' } := by
  have whole : cs.takeWhile (· != '\n') ++ cs.dropWhile (· != '\n') = cs :=
    List.takeWhile_append_dropWhile
  have token : s.token = .comment (String.ofList (cs.takeWhile (· != '\n'))) := by
    unfold scanLineComment commentOf at h
    split at h <;> cases h
    rfl
  obtain ⟨left, read⟩ := commentOf_of_ok h
  refine ⟨token, by rw [left, whole], fun {rest'} next => ?_⟩
  have taken : ∀ c ∈ cs.takeWhile (· != '\n'), (c != '\n') = true :=
    List.all_eq_true.mp List.all_takeWhile
  -- what follows still starts with the end of the line, or with nothing at all
  have nothing : rest'.takeWhile (· != '\n') = [] ∧ rest'.dropWhile (· != '\n') = rest' := by
    rcases next with same | rfl
    · have stops := any_head_dropWhile (· != '\n') cs
      rw [← left, ← same] at stops
      cases rest' with
      | nil => exact ⟨rfl, rfl⟩
      | cons c rest' =>
        have noChar : ¬(c != '\n') = true := Bool.eq_false_iff.mp stops
        exact ⟨List.takeWhile_cons_of_neg noChar, List.dropWhile_cons_of_neg noChar⟩
    · exact ⟨rfl, rfl⟩
  unfold scanLineComment
  rw [List.takeWhile_append_of_pos taken, List.dropWhile_append_of_pos taken, nothing.1, nothing.2,
    List.append_nil]
  exact read rest'

end Lexer

/-- Whether a token is a comment that ends where its line does. -/
def Token.isLineComment : Token → Bool
  | .comment text =>
    match text.toList with
    | '#' :: _ => true
    | '/' :: '/' :: _ => true
    | _ => false
  | _ => false

namespace Lexer

/-- What a text reads as does not change when something is put in behind it, which may not be directly behind a
line comment, nor when the text breaks off behind it. -/
theorem scan_of_spaced {c : Char} {cs rest' : List Char} {s : Scanned} (h : scan c cs = .ok s)
    (spaced : Spaced s.rest rest')
    (line : s.token.isLineComment = true → rest'.head? = s.rest.head? ∨ rest' = []) :
    ∃ cs', s.lexeme ++ rest' = c :: cs' ∧ scan c cs' = .ok { s with rest := rest' } := by
  have whole := lexeme_append_rest_of_scan h
  obtain ⟨d, used, taken⟩ := List.exists_cons_of_ne_nil (lexeme_ne_nil_of_scan h)
  rw [taken, List.cons_append] at whole
  obtain ⟨rfl, parts⟩ := List.cons.inj whole
  refine ⟨used ++ rest', by rw [taken]; rfl, ?_⟩
  -- every reader splits its text at the same place
  have inside {used' : List Char} (h : cs = used' ++ s.rest) : used' = used :=
    List.append_cancel_right (h.symm.trans parts.symm)
  have outside {used' : List Char} (h : d :: cs = used' ++ s.rest) : used' = d :: used :=
    List.append_cancel_right (h.symm.trans (by rw [← parts]; rfl))
  unfold scan at h ⊢
  split at h
  · next hash =>
    obtain ⟨token, split, read⟩ := scanLineComment_of_ok h
    have same := outside split
    rw [same] at token read
    rw [if_pos hash]
    refine read (line ?_)
    rw [token, hash, Token.isLineComment, String.toList_ofList]
    rfl
  split at h
  · next noHash slash =>
    rw [if_neg noHash, if_pos slash]
    split at h
    · next tail =>
      obtain ⟨token, split, read⟩ := scanLineComment_of_ok h
      have same := outside split
      rw [same] at token read
      -- the second slash is a part of the comment
      have second : used = '/' :: tail.takeWhile (· != '\n') := by
        rw [slash, List.takeWhile_cons_of_pos rfl, List.takeWhile_cons_of_pos rfl] at same
        exact (List.cons.inj same).2.symm
      rw [second] at token read ⊢
      refine read (line ?_)
      rw [token, slash, Token.isLineComment, String.toList_ofList]
      rfl
    · next body =>
      obtain ⟨used', split, read⟩ := steady_scanBlockComment h
      have star : '*' :: used' = used := inside (by rw [split]; rfl)
      rw [← star]
      exact read spaced
    · cases h
  split at h
  · next noHash noSlash quote =>
    obtain ⟨used', split, read⟩ := exists_of_scanStringBody h
    obtain rfl := inside split
    rw [if_neg noHash, if_neg noSlash, if_pos quote]
    exact read rest'
  split at h
  · next noHash noSlash noQuote digit =>
    obtain ⟨used', split, read⟩ := steady_scanNumber h
    obtain rfl := outside split
    rw [if_neg noHash, if_neg noSlash, if_neg noQuote, if_pos digit]
    exact read spaced
  split at h
  · next noHash noSlash noQuote noDigit bang =>
    obtain ⟨used', split, read⟩ := steady_scanRelative h
    obtain rfl := outside split
    rw [if_neg noHash, if_neg noSlash, if_neg noQuote, if_neg noDigit, if_pos bang]
    exact read spaced
  split at h
  · next noHash noSlash noQuote noDigit noBang name =>
    obtain ⟨used', split, read⟩ := steady_scanIdentifier h
    obtain rfl := outside split
    rw [if_neg noHash, if_neg noSlash, if_neg noQuote, if_neg noDigit, if_neg noBang, if_pos name]
    exact read spaced
  · next noHash noSlash noQuote noDigit noBang noName =>
    obtain ⟨used', split, read⟩ := steady_scanMark d h
    obtain rfl := inside split
    rw [if_neg noHash, if_neg noSlash, if_neg noQuote, if_neg noDigit, if_neg noBang, if_neg noName]
    exact read spaced

end Lexer

end Planfile
