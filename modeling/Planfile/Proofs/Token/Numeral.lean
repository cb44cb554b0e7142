import Planfile.Proofs.Token.Failure

/-!
# Planfile — numerals mean what they say

A text that starts with a digit can be an integer, a time of day or a date, with or without a time of day
behind it. Which one it is depends on how many digits there are and on what comes behind them, and each part
has its own bounds. Whatever is written, one of two things happens: the numbers that the digits stand for
make a token, and it is this token, or they make none, and the text is refused where it starts. Digits that
stand for too large a number are of the second kind, however many there are: nothing is cut off or wraps.

The step that is not obvious is the date. A day that does not exist is refused before the time of day behind
it has been looked at, so the parts are not all read before they are checked; but then they make no moment
either, whatever the time of day.

Main results:

* `Lexer.dateOf_eq` — parts make a date exactly where they make a moment.
* `Lexer.Numeral.settledBy_scanNumber` — a numeral is read as what it says, or refused.
* `Lexer.lex_numeral` — so is a text that consists of one.
-/

namespace Planfile.Lexer

open Text.Digits (isDigit Spells value valueUpTo? valueUpTo?_eq_some_iff count32 integerBound)

/-! ## Written forms -/

/-- A text of digits, at least one. -/
structure DigitRun where
  chars : List Char
  ne_nil : chars ≠ []
  digits : ∀ c ∈ chars, isDigit c = true

/-- The number that the digits stand for in the decimal system. -/
def DigitRun.value (r : DigitRun) : Nat := Text.Digits.value r.chars

theorem DigitRun.spells (r : DigitRun) : Spells r.chars r.value := ⟨r.ne_nil, r.digits, rfl⟩

/-- The time of day that can be written behind a date. -/
inductive Clock where
  | nothing
  | minutes (hour minute : DigitRun)
  | seconds (hour minute second : DigitRun)

namespace Clock

def text : Clock → List Char
  | .nothing => []
  | .minutes h m => '-' :: h.chars ++ ':' :: m.chars
  | .seconds h m s => '-' :: h.chars ++ ':' :: m.chars ++ ':' :: s.chars

def hour : Clock → Nat
  | .nothing => 0
  | .minutes h _ | .seconds h _ _ => h.value

def minute : Clock → Nat
  | .nothing => 0
  | .minutes _ m | .seconds _ m _ => m.value

def second : Clock → Nat
  | .nothing | .minutes _ _ => 0
  | .seconds _ _ s => s.value

end Clock

/-- The written forms of integers, times of day and dates. Only the year of a date has a fixed number of
digits. -/
inductive Numeral where
  | integer (digits : DigitRun)
  | time (hour minute : DigitRun)
  | date (year month day : DigitRun) (fourDigits : year.chars.length = 4) (clock : Clock)

namespace Numeral

def text : Numeral → List Char
  | .integer n => n.chars
  | .time h m => h.chars ++ ':' :: m.chars
  | .date y m d _ clock => y.chars ++ '-' :: m.chars ++ '-' :: d.chars ++ clock.text

/-- What a numeral says: a number of 63 bits, a time up to the end of the day, or a moment of the calendar. -/
def token? : Numeral → Option Token
  | .integer n => if n.value ≤ Nat.pow 2 63 - 1 then some (.integer n.value) else none
  | .time h m =>
    if m.chars.length = 2 ∧ m.value ≤ 59 ∧ 3600 * h.value + 60 * m.value ≤ 24 * 3600 then
      some (.time (3600 * h.value + 60 * m.value))
    else none
  | .date y m d _ clock =>
    let moment : Calendar.DateTime := ⟨y.value, m.value, d.value, clock.hour, clock.minute, clock.second⟩
    if moment.Valid then some (.date moment) else none

/-- How a numeral is refused that says nothing. -/
def Refuses : Numeral → LexFault → Prop
  | .integer n, fault => fault = .invalidNumber (String.ofList n.chars)
  | .time _ _, fault | .date _ _ _ _ _, fault => ∃ shown, fault = .invalidDate shown

/-- Whether a numeral has been read as what it says, up to its end, or has been refused. -/
def SettledBy (n : Numeral) (outcome : Outcome) : Prop :=
  match n.token? with
  | some token => outcome = .ok ⟨token, n.text, []⟩
  | none => ∃ r, outcome = .error r ∧ n.Refuses r.fault

/-- What a numeral says and what becomes of it hang on one condition. -/
theorem SettledBy.of_ite {n : Numeral} {p : Prop} [Decidable p] {token : Token} {r : Rejection}
    {outcome : Outcome} (value : n.token? = if p then some token else none)
    (h : outcome = if p then .ok ⟨token, n.text, []⟩ else .error r) (refuses : n.Refuses r.fault) :
    n.SettledBy outcome := by
  unfold SettledBy
  by_cases holds : p
  · rw [value, h, if_pos holds, if_pos holds]
  · rw [value, h, if_neg holds, if_neg holds]
    exact ⟨r, rfl, refuses⟩

end Numeral

/-! ## Integers and times of day -/

/-- A run of digits starts with a digit, whatever comes behind it. -/
theorem DigitRun.startsWithDigit (r : DigitRun) (rest : List Char) :
    startsWithDigit (r.chars ++ rest) = true := by
  obtain ⟨c, cs, first, digit⟩ := r.spells.exists_cons
  rw [first]
  exact digit

/-- Digits are the integer that they stand for, if there is one so large. -/
theorem integerOf_eq (n : DigitRun) (rest : List Char) :
    integerOf n.chars rest =
      if n.value ≤ Nat.pow 2 63 - 1 then .ok ⟨.integer n.value, n.chars, rest⟩
      else .error ⟨.invalidNumber (String.ofList n.chars), n.chars⟩ := by
  have bound : integerBound = Nat.pow 2 63 - 1 := rfl
  rw [← bound]
  unfold integerOf
  by_cases small : n.value ≤ integerBound
  · rw [if_pos small, n.spells.valueUpTo? _ small]
  · rw [if_neg small]
    split
    · next k read =>
      obtain ⟨-, within, -⟩ := valueUpTo?_eq_some_iff.mp read
      exact absurd within small
    · rfl

/-- Digits with nothing behind them are an integer. -/
theorem Numeral.settledBy_integer (n : DigitRun) :
    (Numeral.integer n).SettledBy (scanNumber (Numeral.integer n).text) := by
  have taken := n.spells.takeWhile_append [] rfl
  have left := n.spells.dropWhile_append [] rfl
  rw [List.append_nil] at taken left
  have scanned : scanNumber n.chars = integerOf n.chars [] := by
    unfold scanNumber
    rw [taken, left]
  exact .of_ite rfl (scanned.trans (integerOf_eq n [])) rfl

/-- There are two digits of minutes, they stand for less than sixty, and the day does not end before. -/
theorem secondsOfDay?_eq (h m : DigitRun) :
    secondsOfDay? h.chars m.chars =
      if m.chars.length = 2 ∧ m.value ≤ 59 ∧ 3600 * h.value + 60 * m.value ≤ 24 * 3600 then
        some (3600 * h.value + 60 * m.value)
      else none := by
  unfold secondsOfDay?
  by_cases two : m.chars.length = 2
  · rw [if_neg fun other => other two]
    by_cases inRange : m.value ≤ 59 ∧ 3600 * h.value + 60 * m.value ≤ 24 * 3600
    · have readHour := h.spells.valueUpTo? count32 (by unfold count32; omega)
      have readMinute := m.spells.valueUpTo? count32 (by unfold count32; omega)
      have within : ¬(60 ≤ m.value ∨ 24 < h.value ∨ h.value = 24 ∧ m.value ≠ 0) := by omega
      rw [readHour, readMinute, if_pos ⟨two, inRange⟩]
      dsimp only
      rw [if_neg within]
      congr 1
      omega
    · rw [if_neg fun all => inRange all.2]
      split
      · next k l readHour readMinute =>
        obtain rfl : h.value = k := (valueUpTo?_eq_some_iff.mp readHour).2.2
        obtain rfl : m.value = l := (valueUpTo?_eq_some_iff.mp readMinute).2.2
        rw [if_pos (by omega)]
      · rfl
  · rw [if_pos two, if_neg fun all => two all.1]

/-- Digits, a colon and digits are a time of day. -/
theorem Numeral.settledBy_time (h m : DigitRun) :
    (Numeral.time h m).SettledBy (scanNumber (Numeral.time h m).text) := by
  have taken := h.spells.takeWhile_append (':' :: m.chars) rfl
  have left := h.spells.dropWhile_append (':' :: m.chars) rfl
  have starts := m.startsWithDigit []
  have takenMinute := m.spells.takeWhile_append [] rfl
  have leftMinute := m.spells.dropWhile_append [] rfl
  rw [List.append_nil] at starts takenMinute leftMinute
  have scanned : scanNumber (h.chars ++ ':' :: m.chars) = scanTime h.chars m.chars := by
    unfold scanNumber
    rw [taken, left]
    exact if_pos starts
  -- what is not said is refused with all of its text
  have read : scanTime h.chars m.chars =
      if m.chars.length = 2 ∧ m.value ≤ 59 ∧ 3600 * h.value + 60 * m.value ≤ 24 * 3600 then
        .ok ⟨.time (3600 * h.value + 60 * m.value), (Numeral.time h m).text, []⟩
      else badDate (Numeral.time h m).text := by
    unfold scanTime
    rw [takenMinute, leftMinute]
    dsimp only
    rw [secondsOfDay?_eq]
    by_cases valid : m.chars.length = 2 ∧ m.value ≤ 59 ∧ 3600 * h.value + 60 * m.value ≤ 24 * 3600
    · rw [if_pos valid, if_pos valid]
      rfl
    · rw [if_neg valid, if_neg valid]
      rfl
  exact .of_ite rfl (scanned.trans read) ⟨_, rfl⟩

/-! ## Dates -/

/-- Parts make a date exactly where they make a moment. A part that stands for too large a number makes
none. -/
theorem dateOf_eq {hour minute second : List Char} {h m s : Nat} (spellsHour : Spells hour h)
    (spellsMinute : Spells minute m) (spellsSecond : Spells second s) (year month day text rest : List Char) :
    dateOf year month day hour minute second text rest =
      if Calendar.DateTime.Valid ⟨value year, value month, value day, h, m, s⟩ then
        .ok ⟨.date ⟨value year, value month, value day, h, m, s⟩, text, rest⟩
      else badDate text := by
  unfold dateOf
  by_cases valid : Calendar.DateTime.Valid ⟨value year, value month, value day, h, m, s⟩
  · have hourLt : h < 24 := valid.2.2.1
    have minuteLt : m < 60 := valid.2.2.2.1
    have secondLt : s < 60 := valid.2.2.2.2
    have readHour := spellsHour.valueUpTo? count32 (by unfold count32; omega)
    have readMinute := spellsMinute.valueUpTo? count32 (by unfold count32; omega)
    have readSecond := spellsSecond.valueUpTo? count32 (by unfold count32; omega)
    rw [readHour, readMinute, readSecond, if_pos valid]
    dsimp only
    rw [Calendar.DateTime.ofParts?, if_pos valid]
  · rw [if_neg valid]
    split
    · next k l n readHour readMinute readSecond =>
      -- what has been read are the numbers that the parts stand for
      obtain rfl : h = k := spellsHour.value_eq ▸ (valueUpTo?_eq_some_iff.mp readHour).2.2
      obtain rfl : m = l := spellsMinute.value_eq ▸ (valueUpTo?_eq_some_iff.mp readMinute).2.2
      obtain rfl : s = n := spellsSecond.value_eq ▸ (valueUpTo?_eq_some_iff.mp readSecond).2.2
      rw [Calendar.DateTime.ofParts?, if_neg valid]
    · rfl

/-- A day that does not exist is refused. -/
theorem scanDate_of_noDay (year : List Char) (month day : DigitRun) (rest : List Char)
    (stops : rest.head?.any isDigit = false)
    (noDay : ¬Calendar.DateTime.Valid ⟨value year, month.value, day.value, 0, 0, 0⟩) :
    ∃ shown, scanDate year (month.chars ++ '-' :: (day.chars ++ rest)) = badDate shown := by
  have takenMonth := month.spells.takeWhile_append ('-' :: (day.chars ++ rest)) rfl
  have leftMonth := month.spells.dropWhile_append ('-' :: (day.chars ++ rest)) rfl
  have takenDay := day.spells.takeWhile_append rest stops
  have leftDay := day.spells.dropWhile_append rest stops
  unfold scanDate
  rw [takenMonth, leftMonth]
  dsimp only
  split
  · next k _ readMonth behind =>
    -- what comes behind the month is known
    obtain ⟨-, rfl⟩ := List.cons.inj behind
    rw [takenDay, leftDay]
    split
    · next l readDay =>
      obtain rfl : month.value = k := (valueUpTo?_eq_some_iff.mp readMonth).2.2
      obtain rfl : day.value = l := (valueUpTo?_eq_some_iff.mp readDay).2.2
      rw [Calendar.DateTime.ofParts?, if_neg noDay]
      exact ⟨_, rfl⟩
    · exact ⟨_, rfl⟩
  · exact ⟨_, rfl⟩

/-- Behind a date a hyphen, digits and a colon start a time of day. -/
theorem DigitRun.clockAfterDate? (hour : DigitRun) (rest : List Char) :
    clockAfterDate? ('-' :: (hour.chars ++ ':' :: rest)) = some (hour.chars, rest) := by
  obtain ⟨c, cs, first, -⟩ := hour.spells.exists_cons
  have taken := hour.spells.takeWhile_append (':' :: rest) rfl
  have left := hour.spells.dropWhile_append (':' :: rest) rfl
  rw [first] at taken left ⊢
  simp only [Lexer.clockAfterDate?, taken, left]

/-- Behind minutes a colon and digits are seconds. -/
theorem DigitRun.secondsAfterClock? (second : DigitRun) :
    secondsAfterClock? (':' :: second.chars) = some (second.chars, []) := by
  have starts := second.startsWithDigit []
  have taken := second.spells.takeWhile_append [] rfl
  have left := second.spells.dropWhile_append [] rfl
  rw [List.append_nil] at starts taken left
  simp only [Lexer.secondsAfterClock?, if_pos starts, taken, left]

/-- Behind a day that exists the time of day is read, if one is written, and makes a moment with it or not. -/
theorem scanClock_text (clock : Clock) (year month day text : List Char) :
    scanClock year month day text clock.text =
      let moment : Calendar.DateTime :=
        ⟨value year, value month, value day, clock.hour, clock.minute, clock.second⟩
      if moment.Valid then .ok ⟨.date moment, text ++ clock.text, []⟩ else badDate (text ++ clock.text) := by
  have zero : Spells ['0'] 0 := .toString 0
  cases clock with
  | nothing =>
    show dateOf year month day ['0'] ['0'] ['0'] text [] = _
    -- a date alone stands for its midnight
    rw [dateOf_eq zero zero zero, Clock.text, List.append_nil]
    rfl
  | minutes hour minute =>
    have taken := minute.spells.takeWhile_append [] rfl
    have left := minute.spells.dropWhile_append [] rfl
    rw [List.append_nil] at taken left
    have scanned : scanClock year month day text (Clock.minutes hour minute).text =
        dateOf year month day hour.chars minute.chars ['0'] (text ++ (Clock.minutes hour minute).text) [] := by
      simp only [Clock.text, scanClock, List.cons_append, List.append_assoc, hour.clockAfterDate?, taken, left]
      rfl
    exact scanned.trans (dateOf_eq hour.spells minute.spells zero _ _ _ _ _)
  | seconds hour minute second =>
    have taken := minute.spells.takeWhile_append (':' :: second.chars) rfl
    have left := minute.spells.dropWhile_append (':' :: second.chars) rfl
    have scanned : scanClock year month day text (Clock.seconds hour minute second).text =
        dateOf year month day hour.chars minute.chars second.chars
          (text ++ (Clock.seconds hour minute second).text) [] := by
      simp only [Clock.text, scanClock, List.cons_append, List.append_assoc, hour.clockAfterDate?, taken, left,
        second.secondsAfterClock?]
    exact scanned.trans (dateOf_eq hour.spells minute.spells second.spells _ _ _ _ _)

/-- No digit comes first in what is written behind a date. -/
theorem Clock.stops (clock : Clock) : clock.text.head?.any isDigit = false := by
  cases clock <;> rfl

/-- A date with four digits of the year is a moment, if there is such a one. -/
theorem Numeral.settledBy_date (y m d : DigitRun) (four : y.chars.length = 4) (clock : Clock) :
    (Numeral.date y m d four clock).SettledBy (scanNumber (Numeral.date y m d four clock).text) := by
  have written : (Numeral.date y m d four clock).text =
      y.chars ++ '-' :: (m.chars ++ '-' :: (d.chars ++ clock.text)) := by
    simp only [text, List.append_assoc, List.cons_append]
  have taken := y.spells.takeWhile_append ('-' :: (m.chars ++ '-' :: (d.chars ++ clock.text))) rfl
  have left := y.spells.dropWhile_append ('-' :: (m.chars ++ '-' :: (d.chars ++ clock.text))) rfl
  have isDate : y.chars.length = 4 ∧ startsWithDigit (m.chars ++ '-' :: (d.chars ++ clock.text)) = true :=
    ⟨four, m.startsWithDigit _⟩
  have scanned : scanNumber (y.chars ++ '-' :: (m.chars ++ '-' :: (d.chars ++ clock.text))) =
      scanDate y.chars (m.chars ++ '-' :: (d.chars ++ clock.text)) := by
    unfold scanNumber
    rw [taken, left]
    exact if_pos isDate
  by_cases day : Calendar.DateTime.Valid ⟨y.value, m.value, d.value, 0, 0, 0⟩
  · obtain ⟨monthLt, dayLt, -⟩ := lt_of_valid day
    have there : Calendar.DateTime.ofParts? (value y.chars) m.value d.value 0 0 0 =
        some ⟨y.value, m.value, d.value, 0, 0, 0⟩ := if_pos day
    have read := scanDate_append m.spells d.spells monthLt dayLt there _ clock.stops
    have whole : y.chars ++ '-' :: m.chars ++ '-' :: d.chars ++ clock.text = (date y m d four clock).text := rfl
    rw [scanClock_text, whole] at read
    rw [← written] at scanned
    exact .of_ite rfl (scanned.trans read) ⟨_, rfl⟩
  · -- no time of day makes a moment of a day that does not exist
    have noMoment : ¬Calendar.DateTime.Valid
        ⟨y.value, m.value, d.value, clock.hour, clock.minute, clock.second⟩ := fun valid =>
      day ⟨valid.1, valid.2.1, Nat.succ_pos 23, Nat.succ_pos 59, Nat.succ_pos 59⟩
    obtain ⟨shown, refused⟩ := scanDate_of_noDay y.chars m d clock.text clock.stops day
    rw [← written] at scanned
    exact .of_ite rfl ((scanned.trans refused).trans (if_neg noMoment).symm) ⟨_, rfl⟩

/-! ## Texts of one numeral -/

/-- A numeral is read as what it says, or refused. -/
theorem Numeral.settledBy_scanNumber (n : Numeral) : n.SettledBy (scanNumber n.text) := by
  cases n with
  | integer n => exact settledBy_integer n
  | time h m => exact settledBy_time h m
  | date y m d four clock => exact settledBy_date y m d four clock

/-- A digit comes first in a numeral. -/
theorem Numeral.exists_cons (n : Numeral) : ∃ c cs, n.text = c :: cs ∧ isDigit c = true := by
  have first (r : DigitRun) (rest : List Char) : ∃ c cs, r.chars ++ rest = c :: cs ∧ isDigit c = true := by
    obtain ⟨c, cs, whole, digit⟩ := r.spells.exists_cons
    exact ⟨c, cs ++ rest, by rw [whole]; rfl, digit⟩
  cases n with
  | integer n => exact n.spells.exists_cons
  | time h m => exact first h _
  | date y m d four clock =>
    simp only [text, List.append_assoc]
    exact first y _

/-- What a numeral says counts toward the limit on tokens. -/
theorem Numeral.isSignificant_of_token? {n : Numeral} {t : Token} (h : n.token? = some t) :
    t.isSignificant = true := by
  cases n with
  | integer | time | date =>
    unfold token? at h
    dsimp only at h
    split at h <;> cases h
    rfl

/-- A text that consists of a numeral has one token, which is what the numeral says; where it says nothing, the
text is refused at its first character. -/
theorem lex_numeral (countComments : Bool) (n : Numeral) :
    match n.token? with
    | some token => lex countComments n.text =
        .ok [⟨token, ⟨.start, placeBehind n.text⟩⟩, endAt (placeBehind n.text)]
    | none => ∃ failure, lex countComments n.text = .error failure ∧ n.Refuses failure.error.fault ∧
        failure.error.line = 1 ∧ failure.error.column = 1 := by
  obtain ⟨c, cs, text, digit⟩ := n.exists_cons
  have settled := n.settledBy_scanNumber
  rw [text, ← scan_of_isDigit digit] at settled
  have code := Text.Digits.isDigit_iff_toNat.mp digit
  have noBlank : Text.isBlank c = false := isBlank_eq_false (by omega) (by omega)
  have left : n.text.dropWhile Text.isBlank = c :: cs := by
    rw [text]
    exact List.dropWhile_cons_of_neg (by simp [noBlank])
  have before : n.text.takeWhile Text.isBlank = [] := by
    rw [text]
    exact List.takeWhile_cons_of_neg (by simp [noBlank])
  -- a text with a character is read in one step at least
  have steps : n.text.length = cs.length + 1 := by rw [text, List.length_cons]
  unfold lex
  rw [steps]
  unfold Numeral.SettledBy at settled
  cases value : n.token? with
  | some token =>
    rw [value] at settled
    have counts := Numeral.isSignificant_of_token? value
    have few : ¬Limits.tokenCount < 1 := by decide
    refine (lexFrom_of_ok countComments _ .start [] 0 left settled).trans ?_
    dsimp only
    simp only [before, counts, Bool.true_or, if_true, Nat.zero_add, if_neg few]
    exact lexFrom_of_blank _ _ _ _ _ rfl
  | none =>
    rw [value] at settled
    obtain ⟨r, refused, fault⟩ := settled
    refine ⟨_, lexFrom_of_error countComments _ .start [] 0 left refused, fault, ?_⟩
    rw [before]
    exact ⟨rfl, rfl⟩

end Planfile.Lexer
