import Planfile.Proofs.Token.Word
import Planfile.Text.Digits

/-!
# Planfile — what can be said of a token that has been read

Not every token is found in some text. A name has the characters of names and keeps within the limit on
identifiers, an integer is not negative, a date has a year of four digits. What can be said of a token is
what its reader has checked, and it is enough to find the token again where it is written.

Numbers come first: one is written by its decimal digits, with or without zeros in front of them. Where such
digits are read, the number comes back, and the text behind them is left alone.

Main results:

* `Spells.toString`, `Spells.padded` — what is written for a number spells it.
* `Spells.valueUpTo?` — digits are read as the number that they spell.
* `formed_of_scan` — what can be said of a token that has been read.
* `formed_of_produces` — what can be said of the tokens of a text.
-/

namespace Planfile.Text.Digits

/-! ## Digits -/

/-- Whether a text consists of digits, at least one, and they stand for the number. -/
structure Spells (cs : List Char) (n : Nat) : Prop where
  ne_nil : cs ≠ []
  digits : ∀ c ∈ cs, isDigit c = true
  value_eq : value cs = n

/-- Digits have the codes from 48 to 57. -/
theorem isDigit_iff_toNat {c : Char} : isDigit c = true ↔ 48 ≤ c.toNat ∧ c.toNat ≤ 57 := by
  simp only [isDigit, Bool.and_eq_true, decide_eq_true_eq, Char.le_def, UInt32.le_iff_toNat_le]
  exact Iff.rfl

/-- A digit stands for a number of one digit. -/
theorem digitValue_le {c : Char} (h : isDigit c = true) : digitValue c ≤ 9 := by
  have codes := isDigit_iff_toNat.mp h
  have zero : '0'.toNat = 48 := rfl
  unfold digitValue
  omega

/-- The value of digits is the number that the decimal system gives them. -/
theorem value_eq_ofDigitChars (cs : List Char) : value cs = Nat.ofDigitChars 10 cs 0 := by
  have step : (fun n c => n * 10 + digitValue c) = fun n (c : Char) => 10 * n + (c.toNat - '0'.toNat) := by
    funext n c
    rw [Nat.mul_comm, digitValue]
  rw [value, step, Nat.ofDigitChars_eq_foldl]

namespace Spells

variable {cs : List Char} {n : Nat}

/-- A number is spelt by the digits that are written for it. -/
theorem toString (n : Nat) : Spells (toString n).toList n := by
  have written : (ToString.toString n).toList = Nat.toDigits 10 n := Nat.toList_repr
  rw [written]
  refine ⟨Nat.toDigits_ne_nil, fun c hc => ?_, ?_⟩
  · have digit := Nat.isDigit_of_mem_toDigits (by decide) (by decide) hc
    exact isDigit_iff_toNat.mpr (Char.isDigit_iff_toNat.mp digit)
  · rw [value_eq_ofDigitChars, Nat.ofDigitChars_ten_toDigits]

/-- Zeros in front change nothing. -/
theorem replicate_append (h : Spells cs n) (k : Nat) : Spells (List.replicate k '0' ++ cs) n := by
  refine ⟨by simp [h.ne_nil], fun c hc => ?_, ?_⟩
  · rcases List.mem_append.mp hc with zero | hc
    · rw [List.eq_of_mem_replicate zero]
      rfl
    · exact h.digits c hc
  · have value_eq := h.value_eq
    rw [value_eq_ofDigitChars] at value_eq ⊢
    rw [Nat.ofDigitChars_append, Nat.ofDigitChars_replicate_zero, Nat.mul_zero, value_eq]

/-- So a number is spelt with zeros up to a width as well. -/
theorem padded (width n : Nat) : Spells (padded width n).toList n := by
  have zeros := (toString n).replicate_append (width - (ToString.toString n).length)
  simpa [Digits.padded] using zeros

/-- A digit comes first. -/
theorem exists_cons (h : Spells cs n) : ∃ c tail, cs = c :: tail ∧ isDigit c = true := by
  obtain ⟨c, tail, rfl⟩ := List.exists_cons_of_ne_nil h.ne_nil
  exact ⟨c, tail, rfl, h.digits c List.mem_cons_self⟩

/-- Digits are read as the number that they spell, if the bound admits it. -/
theorem valueUpTo? (h : Spells cs n) (bound : Nat) (le : n ≤ bound) :
    valueUpTo? bound cs = some n :=
  valueUpTo?_eq_some_iff.mpr ⟨h.ne_nil, h.value_eq ▸ le, h.value_eq⟩

/-- Behind digits a text is read up to them. -/
theorem takeWhile_append (h : Spells cs n) (rest : List Char)
    (stops : rest.head?.any isDigit = false) :
    (cs ++ rest).takeWhile isDigit = cs := by
  rw [List.takeWhile_append_of_pos h.digits]
  cases rest with
  | nil => simp
  | cons c rest => rw [List.takeWhile_cons_of_neg (by simpa using stops), List.append_nil]

/-- What is behind digits is left alone. -/
theorem dropWhile_append (h : Spells cs n) (rest : List Char)
    (stops : rest.head?.any isDigit = false) :
    (cs ++ rest).dropWhile isDigit = rest := by
  rw [List.dropWhile_append_of_pos h.digits]
  cases rest with
  | nil => rfl
  | cons c rest => exact List.dropWhile_cons_of_neg (by simpa using stops)

end Spells

/-- A number with no more digits than its width takes its width. -/
theorem length_padded {width n : Nat} (some : 0 < width) (small : n < Nat.pow 10 width) :
    (padded width n).toList.length = width := by
  have shorter : (toString n).toList.length ≤ width := by
    have written : (toString n).toList = Nat.toDigits 10 n := Nat.toList_repr
    rw [written]
    exact (Nat.length_toDigits_le_iff (by decide) some).mpr small
  rw [padded, String.toList_append, List.length_append, String.toList_ofList, List.length_replicate]
  rw [String.length_toList] at shorter ⊢
  omega

/-- Four digits stand for a number below ten thousand. -/
theorem value_le_of_length {cs : List Char} (digits : ∀ c ∈ cs, isDigit c = true)
    (four : cs.length = 4) : value cs ≤ 9999 := by
  match cs, four with
  | [a, b, c, d], _ =>
    have ha := digitValue_le (digits a (by simp))
    have hb := digitValue_le (digits b (by simp))
    have hc := digitValue_le (digits c (by simp))
    have hd := digitValue_le (digits d (by simp))
    simp only [value, List.foldl_cons, List.foldl_nil]
    omega

end Planfile.Text.Digits

namespace Planfile.Lexer

open Text.Digits (isDigit value valueUpTo? valueUpTo?_eq_some_iff count32 integerBound)

/-! ## Names joined by dots -/

/-- Whether a text has the characters of names, and dots only where a name follows. -/
def isDotted : List Char → Bool
  | [] => true
  | c :: cs => (isIdContinue c || (c == '.' && startsId cs)) && isDotted cs

/-- Whether a text consists of names joined by dots, at least one. -/
structure IsPath (cs : List Char) : Prop where
  starts : startsId cs = true
  dotted : isDotted cs = true

/-- Letters are those from A to Z, of either case. -/
theorem isAlpha_iff {c : Char} : c.isAlpha = true ↔ 'A' ≤ c ∧ c ≤ 'Z' ∨ 'a' ≤ c ∧ c ≤ 'z' := by
  show (decide ('A'.val ≤ c.val ∧ c.val ≤ 'Z'.val) || decide ('a'.val ≤ c.val) && decide (c.val ≤ 'z'.val)) =
    true ↔ _
  simp only [Char.le_def, Bool.or_eq_true, Bool.and_eq_true, decide_eq_true_eq]

/-- Names go on with what they start with. -/
theorem isIdContinue_of_isIdStart {c : Char} (h : isIdStart c = true) : isIdContinue c = true := by
  simp only [isIdStart, Bool.or_eq_true] at h
  simp only [isIdContinue, Char.isAlphanum, Bool.or_eq_true]
  rcases h with alpha | underscore
  · exact .inl (.inl alpha)
  · exact .inr underscore

/-- What is split off a text is what was there, and after it names joined by dots. -/
theorem exists_of_splitDotted {seen cs text rest : List Char}
    (h : splitDotted seen cs = (text, rest)) :
    ∃ path, text = seen.reverse ++ path ∧ isDotted path = true ∧
      (startsId cs = true → startsId path = true) := by
  fun_induction splitDotted seen cs with
  | case1 seen =>
    cases h
    exact ⟨[], by rw [List.append_nil], rfl, id⟩
  | case2 seen c cs goesOn ih =>
    obtain ⟨path, rfl, dotted, starts⟩ := ih h
    refine ⟨c :: path, by simp, ?_, id⟩
    rw [isDotted, dotted, Bool.and_true]
    -- behind a dot the name that starts in the text starts in what is split off
    rcases Bool.or_eq_true_iff.mp goesOn with name | dot
    · rw [name, Bool.true_or]
    · obtain ⟨isDot, behind⟩ := Bool.and_eq_true_iff.mp dot
      rw [isDot, starts behind, Bool.and_self, Bool.or_true]
  | case3 seen c cs stops =>
    cases h
    refine ⟨[], by rw [List.append_nil], rfl, fun starts => absurd ?_ stops⟩
    rw [isIdContinue_of_isIdStart starts, Bool.true_or]

/-- Where a name starts, names joined by dots are split off. -/
theorem isPath_of_splitDotted {cs text rest : List Char} (h : splitDotted [] cs = (text, rest))
    (starts : startsId cs = true) : IsPath text := by
  obtain ⟨path, rfl, dotted, startsToo⟩ := exists_of_splitDotted h
  exact ⟨startsToo starts, dotted⟩

/-- The limit on identifiers has been kept. -/
theorem byteSize_le_of_withinIdLimit {text : List Char} {otherwise : Outcome} {s : Scanned}
    (h : withinIdLimit text otherwise = .ok s) : byteSize text ≤ Limits.identifierLength := by
  unfold withinIdLimit at h
  split at h
  · cases h
  · next within => exact Nat.le_of_not_lt within

/-! ## Forms -/

/-- What can be said of a token that has been read. -/
def Formed : Token → Prop
  | .id name | .idWithColon name =>
    IsPath name.toList ∧ '.' ∉ name.toList ∧ byteSize name.toList ≤ Limits.identifierLength
  | .absoluteId path =>
    IsPath path.toList ∧ '.' ∈ path.toList ∧ byteSize path.toList ≤ Limits.identifierLength
  | .relativeId text =>
    (∃ bangs path, text.toList = '!' :: bangs ++ path ∧ (∀ c ∈ bangs, c = '!') ∧ IsPath path) ∧
      byteSize text.toList ≤ Limits.identifierLength
  | .string value => byteSize value.toList ≤ Limits.stringSize
  | .comment text => byteSize text.toList ≤ Limits.commentLength
  | .integer n => ∃ k : Nat, n = k ∧ k ≤ integerBound
  | .date d => d.Valid ∧ 0 ≤ d.year ∧ d.year ≤ 9999
  | .time seconds =>
    ∃ h m, seconds = h * 3600 + m * 60 ∧ m < 60 ∧ (h < 24 ∨ h = 24 ∧ m = 0)
  | .float _ | .mark _ | .eof => True

theorem formed_of_commentOf {text rest : List Char} {s : Scanned}
    (h : commentOf text rest = .ok s) : Formed s.token := by
  unfold commentOf at h
  split at h
  · next within =>
    cases h
    show byteSize (String.ofList text).toList ≤ _
    rw [String.toList_ofList]
    exact within
  · cases h

/-- The value of a string keeps within the limit all the while it is read. -/
theorem formed_of_scanStringBody {quote : Char} {read content : List Char} {size : Nat}
    {cs : List Char} {s : Scanned} (h : scanStringBody quote read content size cs = .ok s)
    (exact : byteSize content.reverse = size) (within : size ≤ Limits.stringSize) :
    Formed s.token := by
  fun_induction scanStringBody quote read content size cs with
  | case1 => cases h
  | case2 =>
    cases h
    show byteSize (String.ofList _).toList ≤ _
    rw [String.toList_ofList, exact]
    exact within
  | case3 => cases h
  | case4 read content size d rest piece total fits _ ih =>
    refine ih h ?_ fits
    rw [List.reverse_append, List.reverse_reverse, byteSize_append, exact]
  | case5 => cases h
  | case6 read content size c rest _ _ fits ih =>
    refine ih h ?_ fits
    rw [List.reverse_cons, byteSize_append, exact, byteSize_cons, byteSize_nil, Nat.add_zero]
  | case7 => cases h

theorem formed_of_integerOf {digits rest : List Char} {s : Scanned}
    (h : integerOf digits rest = .ok s) : Formed s.token := by
  unfold integerOf at h
  split at h
  · next n read =>
    cases h
    obtain ⟨-, within, value⟩ := valueUpTo?_eq_some_iff.mp read
    exact ⟨n, rfl, value ▸ within⟩
  · cases h

/-- A date has been put together of valid parts, and its year of four digits. -/
theorem formed_of_dateOf {year month day hour minute second text rest : List Char} {s : Scanned}
    (h : dateOf year month day hour minute second text rest = .ok s)
    (small : value year ≤ 9999) : Formed s.token := by
  unfold dateOf at h
  split at h
  · split at h
    · next d made =>
      cases h
      obtain ⟨valid, rfl⟩ := Calendar.DateTime.ofParts?_eq_some_iff.mp made
      refine ⟨valid, ?_, ?_⟩
      · show (0 : Int) ≤ (value year : Int)
        omega
      · show (value year : Int) ≤ 9999
        omega
    · cases h
  · cases h

theorem formed_of_scanDate {year rest : List Char} {s : Scanned}
    (h : scanDate year rest = .ok s) (small : value year ≤ 9999) : Formed s.token := by
  unfold scanDate at h
  dsimp only at h
  split at h
  · split at h
    · split at h
      · unfold scanClock at h
        split at h
        · exact formed_of_dateOf h small
        · dsimp only at h
          split at h <;> exact formed_of_dateOf h small
      · cases h
    · cases h
  · cases h

/-- Hours and minutes have been checked before they were put together. -/
theorem formed_of_scanTime {hours rest : List Char} {s : Scanned}
    (h : scanTime hours rest = .ok s) : Formed s.token := by
  unfold scanTime at h
  dsimp only at h
  split at h
  · next seconds read =>
    cases h
    unfold secondsOfDay? at read
    split at read
    · cases read
    · split at read
      · next hour minute _ _ =>
        split at read
        · cases read
        · next inRange =>
          cases read
          exact ⟨hour, minute, rfl, by omega, by omega⟩
      · cases read
  · cases h

theorem formed_of_scanNumber {cs : List Char} {s : Scanned} (h : scanNumber cs = .ok s) :
    Formed s.token := by
  unfold scanNumber at h
  dsimp only at h
  split at h
  · split at h
    · next year =>
      have digits : ∀ c ∈ cs.takeWhile isDigit, isDigit c = true :=
        List.all_eq_true.mp List.all_takeWhile
      exact formed_of_scanDate h (Text.Digits.value_le_of_length digits year.1)
    · exact formed_of_integerOf h
  · split at h
    · exact formed_of_scanTime h
    · exact formed_of_integerOf h
  · split at h
    · cases h
      trivial
    · exact formed_of_integerOf h
  · exact formed_of_integerOf h

theorem formed_of_scanIdentifier {cs : List Char} {s : Scanned} (h : scanIdentifier cs = .ok s)
    (starts : startsId cs = true) : Formed s.token := by
  unfold scanIdentifier at h
  cases split : splitDotted [] cs with
  | mk text rest =>
    have path := isPath_of_splitDotted split starts
    rw [split] at h
    have within := byteSize_le_of_withinIdLimit h
    have h := eq_ok_of_withinIdLimit h
    -- whatever the token is, its name is what has been split off
    have name : (String.ofList text).toList = text := String.toList_ofList
    split at h
    · next dot =>
      cases h
      rw [Formed, name]
      exact ⟨path, List.contains_iff_mem.mp dot, within⟩
    · next noDot =>
      have noDot : '.' ∉ text := fun dot => noDot (List.contains_iff_mem.mpr dot)
      split at h <;> cases h <;> rw [Formed, name] <;> exact ⟨path, noDot, within⟩

theorem formed_of_scanRelative {cs : List Char} {s : Scanned}
    (h : scanRelative ('!' :: cs) = .ok s) : Formed s.token := by
  unfold scanRelative at h
  have first : ('!' :: cs).takeWhile (· == '!') = '!' :: cs.takeWhile (· == '!') := rfl
  dsimp only at h
  split at h
  · next starts =>
    cases split : splitDotted [] (('!' :: cs).dropWhile (· == '!')) with
    | mk path rest =>
      rw [split, first] at h
      have within := byteSize_le_of_withinIdLimit h
      have bangs : ∀ c ∈ cs.takeWhile (· == '!'), c = '!' := fun c hc =>
        beq_iff_eq.mp (List.all_eq_true.mp List.all_takeWhile c hc)
      cases eq_ok_of_withinIdLimit h
      rw [Formed, String.toList_ofList]
      exact ⟨⟨_, path, rfl, bangs, isPath_of_splitDotted split starts⟩, within⟩
  · cases h

theorem formed_of_scanMark {c : Char} {rest : List Char} {s : Scanned}
    (h : scanMark c rest = .ok s) : Formed s.token := by
  unfold scanMark at h
  split at h
  · cases h
    trivial
  · cases h
    trivial
  · split at h
    · cases h
      trivial
    · cases h

/-- What can be said of a token that has been read. -/
theorem formed_of_scan {c : Char} {rest : List Char} {s : Scanned} (h : scan c rest = .ok s) :
    Formed s.token := by
  unfold scan at h
  split at h
  · exact formed_of_commentOf h
  split at h
  · split at h
    · exact formed_of_commentOf h
    · unfold scanBlockComment at h
      split at h
      · exact formed_of_commentOf h
      · cases h
    · cases h
  split at h
  · exact formed_of_scanStringBody h rfl (Nat.zero_le _)
  split at h
  · exact formed_of_scanNumber h
  split at h
  · next bang => exact formed_of_scanRelative (bang ▸ h)
  split at h
  · next starts => exact formed_of_scanIdentifier h starts
  · exact formed_of_scanMark h

/-- What can be said of the tokens of a text. -/
theorem formed_of_produces {token : Token} (h : Produces token) : Formed token := by
  obtain ⟨countComments, cs, tokens, span, lexed, found⟩ := h
  obtain ⟨scanned, stop, rfl, read⟩ := eq_append_of_lexFrom lexed
  rcases List.mem_append.mp found with found | eof
  · obtain ⟨c, rest, s, hs, same⟩ := read _ found
    have formed := formed_of_scan hs
    rwa [same] at formed
  · cases List.mem_singleton.mp eof
    trivial

end Planfile.Lexer
