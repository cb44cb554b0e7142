import Planfile.Proofs.Token.Form

/-!
# Planfile — a token is read as it is written

The readers decide by looking ahead: four digits and a hyphen make a date, digits and a colon make a time
of day, an equals sign joins the mark before it, a colon joins the name before it. None of this happens
where a blank follows. So a token that has been read somewhere is read again where it is written with a
blank behind it, unless writing loses something of it: the seconds of a date, or what a string needs a
backslash for.

Main results:

* `splitDotted_append` — names joined by dots are split off where neither follows.
* `readsAs_text` — a token is read as it is written.
-/

namespace Planfile

/-- Whether nothing of a token is lost where it is written: no seconds of a date, and no quote or backslash
of a string. Numbers with a point, comments and the end of a text are not written as they are read. -/
def Token.isPlain : Token → Bool
  | .id _ | .idWithColon _ | .absoluteId _ | .relativeId _ | .integer _ | .time _ | .mark _ => true
  | .date d => d.second == 0
  | .string value => !value.toList.contains '"' && !value.toList.contains '\\'
  | .float _ | .comment _ | .eof => false

namespace Lexer

open Text.Digits (isDigit Spells valueUpTo? count32 integerBound padded)

/-- Whether a text with a blank behind it is read as a token. -/
def ReadsAs (text : List Char) (token : Token) : Prop :=
  ∃ c cs, text = c :: cs ∧ Text.isBlank c = false ∧
    ∀ rest, scan c (cs ++ ' ' :: rest) = .ok ⟨token, text, ' ' :: rest⟩

/-! ## The first character -/

/-- No character is a blank and has the code of a digit, of a letter or of a mark of ASCII. -/
theorem isBlank_eq_false {c : Char} (low : 33 ≤ c.toNat) (high : c.toNat ≤ 126) :
    Text.isBlank c = false := by
  simp only [Text.isBlank, Bool.or_eq_false_iff, Bool.and_eq_false_iff, beq_eq_false_iff_ne,
    decide_eq_false_iff_not]
  omega

/-- Names start with letters and with underscores. -/
theorem toNat_of_isIdStart {c : Char} (h : isIdStart c = true) :
    65 ≤ c.toNat ∧ c.toNat ≤ 90 ∨ 97 ≤ c.toNat ∧ c.toNat ≤ 122 ∨ c.toNat = 95 := by
  have code : c.val.toNat = c.toNat := rfl
  simp only [isIdStart, isAlpha_iff, Char.le_def, Bool.or_eq_true, beq_iff_eq, UInt32.le_iff_toNat_le] at h
  rcases h with (upper | lower) | rfl
  · exact .inl upper
  · exact .inr (.inl lower)
  · exact .inr (.inr rfl)

/-- A text that starts with a digit is a number, a date or a time of day. -/
theorem scan_of_isDigit {c : Char} (h : isDigit c = true) (rest : List Char) :
    scan c rest = scanNumber (c :: rest) := by
  have code := Text.Digits.isDigit_iff_toNat.mp h
  have other : ∀ d : Char, d.toNat < 48 → c ≠ d := by
    rintro d low rfl
    omega
  have quote : ¬(c = '"' ∨ c = '\'') := not_or.mpr ⟨other _ (by decide), other _ (by decide)⟩
  unfold scan
  rw [if_neg (other _ (by decide)), if_neg (other _ (by decide)), if_neg quote, if_pos h]

/-- A text that starts like a name is one. -/
theorem scan_of_isIdStart {c : Char} (h : isIdStart c = true) (rest : List Char) :
    scan c rest = scanIdentifier (c :: rest) := by
  have code := toNat_of_isIdStart h
  have other : ∀ d : Char, d.toNat < 65 → c ≠ d := by
    rintro d low rfl
    omega
  have quote : ¬(c = '"' ∨ c = '\'') := not_or.mpr ⟨other _ (by decide), other _ (by decide)⟩
  have digit : ¬isDigit c = true := by
    rw [Text.Digits.isDigit_iff_toNat]
    omega
  unfold scan
  rw [if_neg (other _ (by decide)), if_neg (other _ (by decide)), if_neg quote, if_neg digit,
    if_neg (other _ (by decide)), if_pos h]

/-! ## Names -/

/-- Whether a name ends before a text: it neither goes on with the text nor takes a dot. -/
def endsName (rest : List Char) : Bool := rest.head?.all fun c => !isIdContinue c && c != '.'

/-- Names joined by dots are split off where neither follows. -/
theorem splitDotted_append {path : List Char} (dotted : isDotted path = true) (seen rest : List Char)
    (ends : endsName rest = true) :
    splitDotted seen (path ++ rest) = (seen.reverse ++ path, rest) := by
  -- by induction on the path, of which every character is taken
  induction path generalizing seen with
  | nil =>
    rw [List.append_nil]
    cases rest with
    | nil => rfl
    | cons c rest =>
      obtain ⟨noName, noDot⟩ : isIdContinue c = false ∧ c ≠ '.' := by simpa [endsName] using ends
      simp only [List.nil_append, splitDotted, noName, Bool.false_or, Bool.and_eq_true, beq_iff_eq,
        noDot, false_and, if_false]
  | cons c path ih =>
    obtain ⟨goesOn, dotted⟩ := Bool.and_eq_true_iff.mp dotted
    have taken : (isIdContinue c || (c == '.' && startsId (path ++ rest))) = true := by
      rcases Bool.or_eq_true_iff.mp goesOn with name | dot
      · rw [name, Bool.true_or]
      · obtain ⟨isDot, starts⟩ := Bool.and_eq_true_iff.mp dot
        have startsToo : startsId (path ++ rest) = true := by
          cases path with
          | nil => cases starts
          | cons d path => exact starts
        rw [isDot, startsToo, Bool.and_self, Bool.or_true]
    rw [List.cons_append, splitDotted, if_pos taken, ih dotted, List.reverse_cons, List.append_assoc,
      List.singleton_append]

/-- A path starts with a character that names start with. -/
theorem IsPath.exists_cons {path : List Char} (h : IsPath path) :
    ∃ c cs, path = c :: cs ∧ isIdStart c = true := by
  cases path with
  | nil => cases h.starts
  | cons c cs => exact ⟨c, cs, rfl, h.starts⟩

/-- The limit lets a text pass that keeps within it. -/
theorem withinIdLimit_of_le {text : List Char} (h : byteSize text ≤ Limits.identifierLength)
    (otherwise : Outcome) : withinIdLimit text otherwise = otherwise :=
  if_neg (Nat.not_lt.mpr h)

/-- A text that is read as names is read as its token. -/
theorem readsAs_of_scanIdentifier {text : List Char} {token : Token} (starts : startsId text = true)
    (h : ∀ rest, scanIdentifier (text ++ ' ' :: rest) = .ok ⟨token, text, ' ' :: rest⟩) :
    ReadsAs text token := by
  cases text with
  | nil => cases starts
  | cons c cs =>
    have code := toNat_of_isIdStart starts
    refine ⟨c, cs, rfl, isBlank_eq_false (by omega) (by omega), fun rest => ?_⟩
    rw [scan_of_isIdStart starts]
    exact h rest

theorem readsAs_id {name : String} (h : Formed (.id name)) : ReadsAs name.toList (.id name) := by
  obtain ⟨path, noDot, within⟩ := h
  refine readsAs_of_scanIdentifier path.starts fun rest => ?_
  have split := splitDotted_append path.dotted [] (' ' :: rest) rfl
  have single : ¬name.toList.contains '.' = true := fun dot => noDot (List.contains_iff_mem.mp dot)
  simp only [scanIdentifier, split, List.reverse_nil, List.nil_append, withinIdLimit_of_le within,
    if_neg single, String.ofList_toList]
  rfl

theorem readsAs_absoluteId {path : String} (h : Formed (.absoluteId path)) :
    ReadsAs path.toList (.absoluteId path) := by
  obtain ⟨names, dot, within⟩ := h
  refine readsAs_of_scanIdentifier names.starts fun rest => ?_
  have split := splitDotted_append names.dotted [] (' ' :: rest) rfl
  have several : path.toList.contains '.' = true := List.contains_iff_mem.mpr dot
  simp only [scanIdentifier, split, List.reverse_nil, List.nil_append, withinIdLimit_of_le within,
    if_pos several, String.ofList_toList]

/-- The colon belongs to the name before it, and the name ends there. -/
theorem readsAs_idWithColon {name : String} (h : Formed (.idWithColon name)) :
    ReadsAs (name ++ ":").toList (.idWithColon name) := by
  obtain ⟨path, noDot, within⟩ := h
  have text : (name ++ ":").toList = name.toList ++ [':'] := String.toList_append
  have starts : startsId (name.toList ++ [':']) = true := by
    obtain ⟨c, cs, first, start⟩ := path.exists_cons
    rw [first]
    exact start
  rw [text]
  refine readsAs_of_scanIdentifier starts fun rest => ?_
  have split := splitDotted_append path.dotted [] (':' :: ' ' :: rest) rfl
  have single : ¬name.toList.contains '.' = true := fun dot => noDot (List.contains_iff_mem.mp dot)
  simp only [scanIdentifier, List.append_assoc, List.singleton_append, split, List.reverse_nil,
    List.nil_append, withinIdLimit_of_le within, if_neg single, String.ofList_toList]

/-- The bangs end where a name starts. -/
theorem readsAs_relativeId {text : String} (h : Formed (.relativeId text)) :
    ReadsAs text.toList (.relativeId text) := by
  obtain ⟨⟨bangs, path, parts, all, names⟩, within⟩ := h
  refine ⟨'!', bangs ++ path, parts, rfl, fun rest => ?_⟩
  obtain ⟨c, cs, rfl, start⟩ := names.exists_cons
  have code := toNat_of_isIdStart start
  -- the bangs end where the path begins, as no name starts with one
  have noBang : ¬(c == '!') = true := by
    rw [beq_iff_eq]
    rintro rfl
    revert code
    decide
  have bang : ∀ d ∈ '!' :: bangs, (d == '!') = true := by
    intro d hd
    rcases List.mem_cons.mp hd with rfl | hd
    · rfl
    · exact beq_iff_eq.mpr (all d hd)
  have whole : '!' :: (bangs ++ c :: cs ++ ' ' :: rest) = ('!' :: bangs) ++ (c :: (cs ++ ' ' :: rest)) := by
    simp
  have taken : ('!' :: (bangs ++ c :: cs ++ ' ' :: rest)).takeWhile (· == '!') = '!' :: bangs := by
    rw [whole, List.takeWhile_append_of_pos bang, List.takeWhile_cons, if_neg noBang, List.append_nil]
  have left : ('!' :: (bangs ++ c :: cs ++ ' ' :: rest)).dropWhile (· == '!') =
      (c :: cs) ++ ' ' :: rest := by
    rw [whole, List.dropWhile_append_of_pos bang, List.dropWhile_cons, if_neg noBang]
    rfl
  have starts : startsId ((c :: cs) ++ ' ' :: rest) = true := start
  have split := splitDotted_append names.dotted [] (' ' :: rest) rfl
  have name : String.ofList ('!' :: bangs ++ c :: cs) = text := by rw [← parts, String.ofList_toList]
  show scanRelative ('!' :: (bangs ++ c :: cs ++ ' ' :: rest)) = _
  simp only [scanRelative, taken, left, if_pos starts, split, List.reverse_nil, List.nil_append]
  rw [withinIdLimit_of_le (parts ▸ within), name, parts]

/-! ## Strings -/

/-- What a string holds is read as it is, up to the quote behind it. -/
theorem scanStringBody_append {value : List Char} (plain : ∀ c ∈ value, c ≠ '"' ∧ c ≠ '\\')
    (read content rest : List Char) (size : Nat)
    (within : size + byteSize value ≤ Limits.stringSize) :
    scanStringBody '"' read content size (value ++ '"' :: rest) =
      .ok ⟨.string (String.ofList (content.reverse ++ value)),
        read.reverse ++ (value ++ ['"']), rest⟩ := by
  induction value generalizing read content size with
  | nil =>
    unfold scanStringBody
    simp
  | cons c value ih =>
    obtain ⟨noQuote, noBackslash⟩ := plain c List.mem_cons_self
    rw [byteSize_cons] at within
    have fits : size + c.utf8Size ≤ Limits.stringSize := by omega
    have behind := ih (fun d hd => plain d (List.mem_cons_of_mem _ hd)) (c :: read) (c :: content)
      (size + c.utf8Size) (by omega)
    unfold scanStringBody
    rw [List.cons_append]
    dsimp only
    rw [if_neg noQuote, if_neg noBackslash, if_pos fits, behind]
    simp

theorem readsAs_string {value : String} (h : Formed (.string value))
    (plain : (Token.string value).isPlain = true) :
    ReadsAs ("\"" ++ value ++ "\"").toList (.string value) := by
  obtain ⟨noQuote, noBackslash⟩ := Bool.and_eq_true_iff.mp plain
  have text : ("\"" ++ value ++ "\"").toList = '"' :: (value.toList ++ ['"']) := by simp
  have each : ∀ c ∈ value.toList, c ≠ '"' ∧ c ≠ '\\' := by
    refine fun c hc => ⟨?_, ?_⟩
    · rintro rfl
      rw [List.contains_iff_mem.mpr hc] at noQuote
      cases noQuote
    · rintro rfl
      rw [List.contains_iff_mem.mpr hc] at noBackslash
      cases noBackslash
  refine ⟨'"', _, text, rfl, fun rest => ?_⟩
  have within : 0 + byteSize value.toList ≤ Limits.stringSize := by
    rw [Nat.zero_add]
    exact h
  have read := scanStringBody_append each ['"'] [] (' ' :: rest) 0 within
  rw [text, List.append_assoc, List.singleton_append]
  show scanStringBody '"' ['"'] [] 0 (value.toList ++ '"' :: ' ' :: rest) = _
  rw [read, List.reverse_nil, List.nil_append, String.ofList_toList]
  rfl

/-! ## Numbers, dates and times of day -/

/-- A text of digits that is read as a number is read as its token. -/
theorem readsAs_of_scanNumber {text digits behind : List Char} {token : Token} {n : Nat}
    (first : text = digits ++ behind) (spells : Spells digits n)
    (h : ∀ rest, scanNumber (text ++ ' ' :: rest) = .ok ⟨token, text, ' ' :: rest⟩) :
    ReadsAs text token := by
  obtain ⟨c, cs, rfl, digit⟩ := spells.exists_cons
  have code := Text.Digits.isDigit_iff_toNat.mp digit
  refine ⟨c, cs ++ behind, first, isBlank_eq_false (by omega) (by omega), fun rest => ?_⟩
  rw [scan_of_isDigit digit]
  have whole := h rest
  rw [first] at whole ⊢
  exact whole

theorem readsAs_integer {n : Int} (h : Formed (.integer n)) :
    ReadsAs (toString n).toList (.integer n) := by
  obtain ⟨k, rfl, within⟩ := h
  have spells : Spells (toString (k : Int)).toList k := Spells.toString k
  refine readsAs_of_scanNumber (List.append_nil _).symm spells fun rest => ?_
  have taken := spells.takeWhile_append (' ' :: rest) rfl
  have left := spells.dropWhile_append (' ' :: rest) rfl
  simp only [scanNumber, taken, left, integerOf, spells.valueUpTo? _ within]
  rfl

/-- A time of day is put together of the hours and minutes that are written for it. -/
theorem readsAs_time {seconds : Nat} (h : Formed (.time seconds)) :
    ReadsAs (timeText seconds).toList (.time seconds) := by
  obtain ⟨hour, minute, rfl, minuteLt, hourLe⟩ := h
  have hours : (hour * 3600 + minute * 60) / 3600 = hour := by omega
  have minutes : (hour * 3600 + minute * 60) % 3600 / 60 = minute := by omega
  have spellsHour := Spells.toString hour
  have spellsMinute := Spells.padded 2 minute
  have two : (padded 2 minute).toList.length = 2 :=
    Text.Digits.length_padded (by decide) (show minute < 100 by omega)
  have text : (timeText (hour * 3600 + minute * 60)).toList =
      (toString hour).toList ++ ':' :: (padded 2 minute).toList := by
    rw [timeText, hours, minutes]
    simp
  refine readsAs_of_scanNumber text spellsHour fun rest => ?_
  rw [text]
  have takenHour := spellsHour.takeWhile_append (':' :: ((padded 2 minute).toList ++ ' ' :: rest)) rfl
  have leftHour := spellsHour.dropWhile_append (':' :: ((padded 2 minute).toList ++ ' ' :: rest)) rfl
  have takenMinute := spellsMinute.takeWhile_append (' ' :: rest) rfl
  have leftMinute := spellsMinute.dropWhile_append (' ' :: rest) rfl
  have starts : startsWithDigit ((padded 2 minute).toList ++ ' ' :: rest) = true := by
    obtain ⟨c, cs, first, digit⟩ := spellsMinute.exists_cons
    rw [first]
    exact digit
  have inRange : ¬(60 ≤ minute ∨ 24 < hour ∨ hour = 24 ∧ minute ≠ 0) := by omega
  have valueHour := spellsHour.valueUpTo? count32 (by unfold count32; omega)
  have valueMinute := spellsMinute.valueUpTo? count32 (by unfold count32; omega)
  simp only [scanNumber, List.append_assoc, List.cons_append, takenHour, leftHour, if_pos starts,
    scanTime, takenMinute, leftMinute, secondsOfDay?, two, valueHour, valueMinute, if_neg inRange,
    ne_eq, not_true_eq_false, if_false]

/-- Months and days have two digits. -/
theorem lt_of_valid {d : Calendar.DateTime} (h : d.Valid) :
    d.month < 100 ∧ d.day < 100 ∧ d.hour < 100 ∧ d.minute < 100 := by
  obtain ⟨some, inMonth, hour, minute, -⟩ := h
  unfold Calendar.daysInMonth at inMonth
  split at inMonth
  · split at inMonth <;> omega
  · split at inMonth
    · omega
    · split at inMonth <;> omega

/-- Behind a day that exists its time of day is looked for. -/
theorem scanDate_append {year months days : List Char} {m d : Nat} (spellsMonth : Spells months m)
    (spellsDay : Spells days d) (monthLt : m < 100) (dayLt : d < 100) {moment : Calendar.DateTime}
    (there : Calendar.DateTime.ofParts? (Text.Digits.value year) m d 0 0 0 = some moment)
    (rest : List Char) (stops : rest.head?.any isDigit = false) :
    scanDate year (months ++ '-' :: (days ++ rest)) =
      scanClock year months days (year ++ '-' :: months ++ '-' :: days) rest := by
  have takenMonth := spellsMonth.takeWhile_append ('-' :: (days ++ rest)) rfl
  have leftMonth := spellsMonth.dropWhile_append ('-' :: (days ++ rest)) rfl
  have takenDay := spellsDay.takeWhile_append rest stops
  have leftDay := spellsDay.dropWhile_append rest stops
  have valueMonth := spellsMonth.valueUpTo? count32 (by unfold count32; omega)
  have valueDay := spellsDay.valueUpTo? count32 (by unfold count32; omega)
  simp only [scanDate, takenMonth, leftMonth, takenDay, leftDay, valueMonth, valueDay, there]

/-- Behind a date a hyphen, digits and a colon make a time of day, and nothing comes after a blank. -/
theorem scanClock_append {hours minutes : List Char} {h m : Nat} (spellsHour : Spells hours h)
    (spellsMinute : Spells minutes m) (year month day text rest : List Char) :
    scanClock year month day text ('-' :: (hours ++ ':' :: (minutes ++ ' ' :: rest))) =
      dateOf year month day hours minutes ['0'] (text ++ '-' :: hours ++ ':' :: minutes)
        (' ' :: rest) := by
  obtain ⟨c, cs, rfl, -⟩ := spellsHour.exists_cons
  have takenHour := spellsHour.takeWhile_append (':' :: (minutes ++ ' ' :: rest)) rfl
  have leftHour := spellsHour.dropWhile_append (':' :: (minutes ++ ' ' :: rest)) rfl
  have clock : clockAfterDate? ('-' :: (c :: cs ++ ':' :: (minutes ++ ' ' :: rest))) =
      some (c :: cs, minutes ++ ' ' :: rest) := by
    simp only [clockAfterDate?, takenHour, leftHour]
  have takenMinute := spellsMinute.takeWhile_append (' ' :: rest) rfl
  have leftMinute := spellsMinute.dropWhile_append (' ' :: rest) rfl
  simp only [scanClock, clock, takenMinute, leftMinute]
  rfl

/-- The parts of a date are read back one after the other. -/
theorem readsAs_date {d : Calendar.DateTime} (h : Formed (.date d))
    (plain : (Token.date d).isPlain = true) : ReadsAs d.planText.toList (.date d) := by
  obtain ⟨valid, notNegative, small⟩ := h
  obtain ⟨year, month, day, hour, minute, second⟩ := d
  obtain rfl : second = 0 := beq_iff_eq.mp plain
  obtain ⟨monthLt, dayLt, hourLt, minuteLt⟩ := lt_of_valid valid
  dsimp only at notNegative small monthLt dayLt hourLt minuteLt
  have spellsYear := Spells.padded 4 year.toNat
  have spellsMonth := Spells.padded 2 month
  have spellsDay := Spells.padded 2 day
  have spellsHour := Spells.padded 2 hour
  have spellsMinute := Spells.padded 2 minute
  have four : (padded 4 year.toNat).toList.length = 4 :=
    Text.Digits.length_padded (by decide) (show year.toNat < 10000 by omega)
  have text : (Calendar.DateTime.planText ⟨year, month, day, hour, minute, 0⟩).toList =
      (padded 4 year.toNat).toList ++ '-' :: ((padded 2 month).toList ++ '-' ::
        ((padded 2 day).toList ++ '-' :: ((padded 2 hour).toList ++ ':' ::
          (padded 2 minute).toList))) := by
    simp [Calendar.DateTime.planText, Calendar.DateTime.dateText, Calendar.DateTime.minuteText,
      Calendar.yearText, notNegative, small]
  -- from here on only the digits matter, and no longer how they are written
  generalize (padded 4 year.toNat).toList = years at spellsYear four text
  generalize (padded 2 month).toList = months at spellsMonth text
  generalize (padded 2 day).toList = days at spellsDay text
  generalize (padded 2 hour).toList = hours at spellsHour text
  generalize (padded 2 minute).toList = minutes at spellsMinute text
  have valueYear : (Text.Digits.value years : Int) = year := by
    rw [spellsYear.value_eq, Int.toNat_of_nonneg notNegative]
  have there : Calendar.DateTime.ofParts? (Text.Digits.value years) month day 0 0 0 =
      some ⟨year, month, day, 0, 0, 0⟩ := by
    rw [valueYear, Calendar.DateTime.ofParts?_eq_some_iff]
    exact ⟨⟨valid.1, valid.2.1, Nat.succ_pos 23, Nat.succ_pos 59, Nat.succ_pos 59⟩, rfl⟩
  have made : Calendar.DateTime.ofParts? (Text.Digits.value years) (Text.Digits.value months)
      (Text.Digits.value days) hour minute 0 = some ⟨year, month, day, hour, minute, 0⟩ := by
    rw [valueYear, spellsMonth.value_eq, spellsDay.value_eq, Calendar.DateTime.ofParts?_eq_some_iff]
    exact ⟨valid, rfl⟩
  have valueHour := spellsHour.valueUpTo? count32 (by unfold count32; omega)
  have valueMinute := spellsMinute.valueUpTo? count32 (by unfold count32; omega)
  have valueSecond : valueUpTo? count32 ['0'] = some 0 := rfl
  refine readsAs_of_scanNumber text spellsYear fun rest => ?_
  rw [text]
  let clock := '-' :: (hours ++ ':' :: (minutes ++ ' ' :: rest))
  have takenYear := spellsYear.takeWhile_append ('-' :: (months ++ '-' :: (days ++ clock))) rfl
  have leftYear := spellsYear.dropWhile_append ('-' :: (months ++ '-' :: (days ++ clock))) rfl
  have isDate : years.length = 4 ∧ startsWithDigit (months ++ '-' :: (days ++ clock)) = true := by
    obtain ⟨c, cs, rfl, digit⟩ := spellsMonth.exists_cons
    exact ⟨four, digit⟩
  have whole : years ++ '-' :: (months ++ '-' :: (days ++ '-' :: (hours ++ ':' :: minutes))) ++
      ' ' :: rest = years ++ '-' :: (months ++ '-' :: (days ++ clock)) := by
    simp [clock]
  rw [whole]
  simp only [scanNumber, takenYear, leftYear, if_pos isDate]
  rw [scanDate_append spellsMonth spellsDay monthLt dayLt there clock rfl,
    scanClock_append spellsHour spellsMinute]
  simp only [dateOf, valueHour, valueMinute, valueSecond, made]
  simp

/-! ## All classes -/

/-- A mark that takes no equals sign is read alone, and one that does takes its own. -/
theorem readsAs_mark (m : Mark) : ReadsAs m.text.toList (.mark m) := by
  cases m <;> exact ⟨_, _, rfl, rfl, fun _ => rfl⟩

/-- A token is read as it is written. -/
theorem readsAs_text {token : Token} (h : Formed token) (plain : token.isPlain = true) :
    ReadsAs token.text.toList token := by
  cases token with
  | id => exact readsAs_id h
  | idWithColon => exact readsAs_idWithColon h
  | absoluteId => exact readsAs_absoluteId h
  | relativeId => exact readsAs_relativeId h
  | string => exact readsAs_string h plain
  | integer => exact readsAs_integer h
  | float => cases plain
  | date => exact readsAs_date h plain
  | time => exact readsAs_time h
  | mark m => exact readsAs_mark m
  | comment => cases plain
  | eof => cases plain

end Lexer

end Planfile
