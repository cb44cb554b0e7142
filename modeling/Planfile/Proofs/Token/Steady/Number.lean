import Planfile.Proofs.Token.Rendering

/-!
# Planfile — numbers and dates do not depend on what is put in behind them

A reader is steady if it splits off the same part of a text, whatever is put in behind that part, and
wherever behind it the text breaks off. Numbers are the readers that look furthest: what starts like one can
be a date, which may have a time of day, and that one may have seconds.

Main results:

* `prefix_of_spaced` — a text without blanks and slashes that is found behind a token was there before.
* `takeWhile_of_spaced` — what a reader takes of a text ends where it ended before.
* `steady_scanNumber` — numbers, times and dates are read as before when something is put in behind them.
-/

/-!
## What no reader looks for behind a token

A reader looks further than it reads: for the digit that would make a point part of a number, for the colon
that would make two digits the hours of a date, for the name that would go on behind a dot. What it looks
for never holds a blank or a slash. So where something that starts with one of them is put in, directly
behind a token or further on, what is looked for is found exactly if it was there before. Where the text
breaks off behind a token nothing is found that was not there before either.
-/

namespace Planfile

namespace Lexer

open Text.Digits (isDigit)

/-- Whether no reader looks for the character behind a token: blanks, and the slash that comments start
with. -/
def isSeparator (c : Char) : Bool := Text.isBlank c || c == '/'

/-- Whether the second text is the first one with something put in that starts with a separator, or is what
is left of it where it breaks off. -/
inductive Spaced : List Char → List Char → Prop
  | here {c : Char} (gap rest : List Char) (separates : isSeparator c = true) :
    Spaced rest (c :: (gap ++ rest))
  | off (rest : List Char) : Spaced rest []
  | later (c : Char) {rest rest' : List Char} (behind : Spaced rest rest') : Spaced (c :: rest) (c :: rest')

theorem Spaced.append (before : List Char) {rest rest' : List Char} (h : Spaced rest rest') :
    Spaced (before ++ rest) (before ++ rest') := by
  induction before with
  | nil => exact h
  | cons c before ih => exact .later c ih

/-! ## What is looked for -/

theorem isSeparator_eq_false {c : Char} (low : 33 ≤ c.toNat) (high : c.toNat ≤ 126)
    (other : c.toNat ≠ 47) : isSeparator c = false := by
  have noSlash : c ≠ '/' := by
    rintro rfl
    exact other rfl
  rw [isSeparator, isBlank_eq_false low high, Bool.false_or]
  exact beq_eq_false_iff_ne.mpr noSlash

theorem isSeparator_of_isDigit {c : Char} (h : isDigit c = true) : isSeparator c = false := by
  have code := Text.Digits.isDigit_iff_toNat.mp h
  exact isSeparator_eq_false (by omega) (by omega) (by omega)

theorem isSeparator_of_isIdStart {c : Char} (h : isIdStart c = true) : isSeparator c = false := by
  have code := toNat_of_isIdStart h
  exact isSeparator_eq_false (by omega) (by omega) (by omega)

theorem isSeparator_of_isIdContinue {c : Char} (h : isIdContinue c = true) : isSeparator c = false := by
  simp only [isIdContinue, Char.isAlphanum, Bool.or_eq_true] at h
  rcases h with (alpha | digit) | low
  · exact isSeparator_of_isIdStart (Bool.or_eq_true_iff.mpr (.inl alpha))
  · exact isSeparator_of_isDigit (Text.Digits.isDigit_iff_toNat.mpr (Char.isDigit_iff_toNat.mp digit))
  · exact isSeparator_of_isIdStart (Bool.or_eq_true_iff.mpr (.inr low))

/-- A text without separators that is found after something has been put in was there before. -/
theorem prefix_of_spaced {rest rest' found : List Char} (h : Spaced rest rest')
    (plain : ∀ c ∈ found, isSeparator c = false) (starts : found <+: rest') : found <+: rest := by
  induction h generalizing found with
  | @here d gap rest separates =>
    cases found with
    | nil => exact List.nil_prefix
    | cons c found =>
      -- the text would start with the separator
      have same : c = d := (List.cons_prefix_cons.mp starts).1
      have noSeparator := plain c List.mem_cons_self
      rw [same, separates] at noSeparator
      cases noSeparator
  | off => exact List.prefix_nil.mp starts ▸ List.nil_prefix
  | later d _ ih =>
    cases found with
    | nil => exact List.nil_prefix
    | cons c found =>
      obtain ⟨same, starts⟩ := List.cons_prefix_cons.mp starts
      have behind := ih (fun e he => plain e (List.mem_cons_of_mem _ he)) starts
      exact List.cons_prefix_cons.mpr ⟨same, behind⟩

/-- What a text starts with, if it is no separator, it has started with before. -/
theorem any_head_of_spaced {rest rest' : List Char} {p : Char → Bool} (h : Spaced rest rest')
    (plain : ∀ c, p c = true → isSeparator c = false) (starts : rest'.head?.any p = true) :
    rest.head?.any p = true := by
  cases h with
  | here _ _ separates =>
    have noSeparator := plain _ starts
    rw [separates] at noSeparator
    cases noSeparator
  | off => cases starts
  | later => exact starts

/-- What is left behind characters of a kind does not go on with another of them. -/
theorem any_head_dropWhile (p : Char → Bool) (cs : List Char) :
    (cs.dropWhile p).head?.any p = false := by
  have stops := List.head?_dropWhile_not p cs
  cases left : (cs.dropWhile p).head? with
  | none => rfl
  | some c =>
    rw [left] at stops
    exact stops

/-- Characters that are taken as long as they are of a kind are taken as before. -/
theorem takeWhile_of_spaced {p : Char → Bool} (plain : ∀ c, p c = true → isSeparator c = false)
    {cs rest' : List Char} (h : Spaced (cs.dropWhile p) rest') :
    (cs.takeWhile p ++ rest').takeWhile p = cs.takeWhile p ∧
      (cs.takeWhile p ++ rest').dropWhile p = rest' := by
  have taken : ∀ c ∈ cs.takeWhile p, p c = true := List.all_eq_true.mp List.all_takeWhile
  have stops : ¬rest'.head?.any p = true := by
    intro goesOn
    have before := any_head_of_spaced h plain goesOn
    rw [any_head_dropWhile] at before
    cases before
  have nothing : rest'.takeWhile p = [] ∧ rest'.dropWhile p = rest' := by
    cases rest' with
    | nil => exact ⟨rfl, rfl⟩
    | cons c rest' => exact ⟨List.takeWhile_cons_of_neg stops, List.dropWhile_cons_of_neg stops⟩
  rw [List.takeWhile_append_of_pos taken, List.dropWhile_append_of_pos taken, nothing.1, nothing.2]
  exact ⟨List.append_nil _, rfl⟩

end Lexer

end Planfile

namespace Planfile

namespace Lexer

open Text.Digits (isDigit)

/-! ## Readers -/

/-- Whether a reader splits off a part of its text, and the same part when something is put in behind it. -/
def Steady (read : List Char → Outcome) : Prop :=
  ∀ {cs : List Char} {s : Scanned}, read cs = .ok s →
    ∃ used, cs = used ++ s.rest ∧
      ∀ {rest'}, Spaced s.rest rest' → read (used ++ rest') = .ok { s with rest := rest' }

theorem integerOf_of_ok {digits rest : List Char} {s : Scanned} (h : integerOf digits rest = .ok s) :
    s.rest = rest ∧ ∀ rest', integerOf digits rest' = .ok { s with rest := rest' } := by
  unfold integerOf at h ⊢
  split at h
  · cases h
    exact ⟨rfl, fun _ => rfl⟩
  · cases h

theorem dateOf_of_ok {year month day hour minute second text rest : List Char} {s : Scanned}
    (h : dateOf year month day hour minute second text rest = .ok s) :
    s.rest = rest ∧
      ∀ rest', dateOf year month day hour minute second text rest' = .ok { s with rest := rest' } := by
  unfold dateOf at h ⊢
  split at h
  · split at h
    · cases h
      exact ⟨rfl, fun _ => by simp only [*]⟩
    · cases h
  · cases h

/-- The digits that a text starts with start a text. -/
theorem startsWithDigit_append {cs : List Char} (starts : startsWithDigit cs = true) (rest : List Char) :
    startsWithDigit (cs.takeWhile isDigit ++ rest) = true := by
  cases cs with
  | nil => cases starts
  | cons c cs =>
    have first : isDigit c = true := starts
    rw [List.takeWhile_cons_of_pos first]
    exact first

theorem scanTime_of_ok {hours cs : List Char} {s : Scanned} (h : scanTime hours cs = .ok s) :
    s.rest = cs.dropWhile isDigit ∧ ∀ {rest'}, Spaced s.rest rest' →
      scanTime hours (cs.takeWhile isDigit ++ rest') = .ok { s with rest := rest' } := by
  unfold scanTime at h ⊢
  dsimp only at h ⊢
  split at h
  · next seconds value =>
    cases h
    refine ⟨rfl, fun {rest'} spaced => ?_⟩
    obtain ⟨taken, left⟩ := takeWhile_of_spaced (fun _ => isSeparator_of_isDigit) spaced
    rw [taken, left, value]
  · cases h

/-! ## Dates -/

/-- Where hours, a colon and more follow a date, it has a time of day. -/
theorem clockAfterDate?_append {hours : List Char} (digits : ∀ c ∈ hours, isDigit c = true)
    (some : hours ≠ []) (after : List Char) :
    clockAfterDate? ('-' :: (hours ++ ':' :: after)) = .some (hours, after) := by
  have noDigit : ¬isDigit ':' = true := by decide
  have taken : (hours ++ ':' :: after).takeWhile isDigit = hours := by
    rw [List.takeWhile_append_of_pos digits, List.takeWhile_cons_of_neg noDigit, List.append_nil]
  have left : (hours ++ ':' :: after).dropWhile isDigit = ':' :: after := by
    rw [List.dropWhile_append_of_pos digits, List.dropWhile_cons_of_neg noDigit]
  unfold clockAfterDate?
  simp only [taken, left]


/-- A date that has a time of day has hours. -/
theorem hours_of_clockAfterDate? {rest hours after : List Char}
    (h : clockAfterDate? rest = some (hours, after)) :
    (∀ c ∈ hours, isDigit c = true) ∧ hours ≠ [] := by
  unfold clockAfterDate? at h
  split at h
  · next cs =>
    have digits : ∀ c ∈ cs.takeWhile isDigit, isDigit c = true :=
      List.all_eq_true.mp List.all_takeWhile
    split at h
    · cases h
    · next some =>
      cases h
      exact ⟨digits, some⟩
    · cases h
  · cases h

/-- No date gets a time of day by what is put in behind it. -/
theorem clockAfterDate?_of_spaced {rest rest' : List Char} (h : Spaced rest rest')
    (none : clockAfterDate? rest = none) : clockAfterDate? rest' = .none := by
  cases found : clockAfterDate? rest' with
  | none => rfl
  | some clock =>
    obtain ⟨hours, after⟩ := clock
    obtain ⟨digits, some⟩ := hours_of_clockAfterDate? found
    have plain : ∀ c ∈ '-' :: (hours ++ [':']), isSeparator c = false := by
      intro c hc
      simp only [List.mem_cons, List.mem_append, List.not_mem_nil, or_false] at hc
      rcases hc with rfl | digit | rfl
      · rfl
      · exact isSeparator_of_isDigit (digits c digit)
      · rfl
    have starts : '-' :: (hours ++ [':']) <+: rest' := by
      rw [eq_of_clockAfterDate? found]
      exact ⟨after, by simp⟩
    -- hyphen, hours and colon were there before
    obtain ⟨behind, rfl⟩ := prefix_of_spaced h plain starts
    have clock := clockAfterDate?_append digits some behind
    simp only [List.cons_append, List.append_assoc, List.nil_append] at none
    rw [clock] at none
    cases none

/-- No time of day gets seconds by what is put in behind it. -/
theorem secondsAfterClock?_of_spaced {rest rest' : List Char} (h : Spaced rest rest')
    (none : secondsAfterClock? rest = none) : secondsAfterClock? rest' = .none := by
  -- what is put in starts no seconds itself, and further on it adds no digit behind a colon
  cases h with
  | @here c gap _ separates =>
    have noColon : c ≠ ':' := by
      rintro rfl
      cases separates
    unfold secondsAfterClock?
    split
    · next same => exact absurd (List.cons.inj same).1 noColon
    · rfl
  | off => rfl
  | @later c rest rest' behind =>
    unfold secondsAfterClock? at none ⊢
    split at none
    · next cs same =>
      cases same
      have noDigit : ¬startsWithDigit rest' = true := by
        intro digit
        have before : startsWithDigit rest = true :=
          any_head_of_spaced behind (fun _ => isSeparator_of_isDigit) digit
        rw [if_pos before] at none
        cases none
      exact if_neg noDigit
    · next other =>
      split
      · next same =>
        cases same
        exact absurd rfl (other rest)
      · rfl

/-- Seconds are read as before. -/
theorem secondsAfterClock?_append {rest seconds behind rest' : List Char}
    (h : secondsAfterClock? rest = some (seconds, behind)) (spaced : Spaced behind rest') :
    secondsAfterClock? (':' :: (seconds ++ rest')) = some (seconds, rest') := by
  unfold secondsAfterClock? at h
  split at h
  · next cs =>
    split at h
    · next starts =>
      cases h
      obtain ⟨taken, left⟩ := takeWhile_of_spaced (fun _ => isSeparator_of_isDigit) spaced
      have startsToo := startsWithDigit_append starts rest'
      simp only [secondsAfterClock?, if_pos startsToo, taken, left]
    · cases h
  · cases h

theorem steady_scanClock (year month day text : List Char) : Steady (scanClock year month day text) := by
  intro cs s h
  unfold scanClock at h
  split at h
  · next noClock =>
    -- the date ends here, and nothing of the text is taken
    obtain ⟨rfl, read⟩ := dateOf_of_ok h
    refine ⟨[], rfl, fun spaced => ?_⟩
    unfold scanClock
    rw [List.nil_append, clockAfterDate?_of_spaced spaced noClock]
    exact read _
  · next hours after clock =>
    obtain ⟨digits, some⟩ := hours_of_clockAfterDate? clock
    obtain rfl := eq_of_clockAfterDate? clock
    have minutes : after.takeWhile isDigit ++ after.dropWhile isDigit = after :=
      List.takeWhile_append_dropWhile
    dsimp only at h
    split at h
    · next noSeconds =>
      obtain ⟨left, read⟩ := dateOf_of_ok h
      refine ⟨'-' :: (hours ++ ':' :: after.takeWhile isDigit), by simp [left], fun {rest'} spaced => ?_⟩
      rw [left] at spaced
      obtain ⟨taken, behind⟩ := takeWhile_of_spaced (fun _ => isSeparator_of_isDigit) spaced
      unfold scanClock
      simp only [List.cons_append, List.append_assoc, clockAfterDate?_append digits some, taken, behind,
        secondsAfterClock?_of_spaced spaced noSeconds]
      simpa using read rest'
    · next seconds behind found =>
      obtain ⟨rfl, read⟩ := dateOf_of_ok h
      have parts := eq_of_secondsAfterClock? found
      refine ⟨'-' :: (hours ++ ':' :: (after.takeWhile isDigit ++ ':' :: seconds)), ?_,
        fun {rest'} spaced => ?_⟩
      · calc '-' :: hours ++ ':' :: after
            = '-' :: hours ++ ':' :: (after.takeWhile isDigit ++ after.dropWhile isDigit) := by rw [minutes]
          _ = _ := by rw [parts]; simp
      · have further : Spaced (after.dropWhile isDigit) (':' :: (seconds ++ rest')) := by
          rw [parts]
          exact .later ':' (spaced.append seconds)
        obtain ⟨taken, left⟩ := takeWhile_of_spaced (fun _ => isSeparator_of_isDigit) further
        unfold scanClock
        simp only [List.cons_append, List.append_assoc, clockAfterDate?_append digits some, taken, left,
          secondsAfterClock?_append found spaced]
        simpa using read rest'

/-- A date takes something behind its year, and the same when something is put in behind it. -/
theorem exists_of_scanDate {year cs : List Char} {s : Scanned} (h : scanDate year cs = .ok s) :
    ∃ used, used ≠ [] ∧ cs = used ++ s.rest ∧
      ∀ {rest'}, Spaced s.rest rest' → scanDate year (used ++ rest') = .ok { s with rest := rest' } := by
  have month : cs.takeWhile isDigit ++ cs.dropWhile isDigit = cs := List.takeWhile_append_dropWhile
  unfold scanDate at h
  dsimp only at h
  split at h
  · next m rest value behind =>
    have day : rest.takeWhile isDigit ++ rest.dropWhile isDigit = rest := List.takeWhile_append_dropWhile
    split at h
    · next d days =>
      split at h
      · next date made =>
        obtain ⟨used, whole, read⟩ := steady_scanClock _ _ _ _ h
        refine ⟨cs.takeWhile isDigit ++ '-' :: (rest.takeWhile isDigit ++ used), by simp, ?_,
          fun {rest'} spaced => ?_⟩
        · rw [List.append_assoc, List.cons_append, List.append_assoc, ← whole, day, ← behind, month]
        · -- the digits of the day, and before them those of the month, end where they ended
          have furtherDay : Spaced (rest.dropWhile isDigit) (used ++ rest') := whole ▸ spaced.append used
          obtain ⟨takenDay, leftDay⟩ :=
            takeWhile_of_spaced (fun _ => isSeparator_of_isDigit) furtherDay
          have further : Spaced (cs.dropWhile isDigit) ('-' :: (rest.takeWhile isDigit ++ (used ++ rest'))) := by
            rw [behind]
            refine .later '-' ?_
            have whole := furtherDay.append (rest.takeWhile isDigit)
            rwa [day] at whole
          obtain ⟨taken, left⟩ := takeWhile_of_spaced (fun _ => isSeparator_of_isDigit) further
          unfold scanDate
          simp only [List.cons_append, List.append_assoc, taken, left, value, takenDay, leftDay, days, made]
          simpa using read spaced
      · cases h
    · cases h
  · cases h

/-- Whether digits go on to be a date, a time of day or a number with a point. -/
def goesOn (digits : List Char) : List Char → Bool
  | '-' :: rest => digits.length == 4 && startsWithDigit rest
  | ':' :: rest => startsWithDigit rest
  | '.' :: rest => startsWithDigit rest
  | _ => false

/-- Digits that do not go on are an integer. -/
theorem scanNumber_of_goesOn {cs digits behind : List Char} (taken : cs.takeWhile isDigit = digits)
    (left : cs.dropWhile isDigit = behind) (ends : goesOn digits behind = false) :
    scanNumber cs = integerOf digits behind := by
  unfold scanNumber
  simp only [taken, left]
  split
  · next rest =>
    have noDate : ¬(digits.length = 4 ∧ startsWithDigit rest = true) := by
      simpa [goesOn] using ends
    exact if_neg noDate
  · exact if_neg (Bool.eq_false_iff.mp ends)
  · exact if_neg (Bool.eq_false_iff.mp ends)
  · rfl

/-- Digits do not go on because of what is put in behind them. -/
theorem goesOn_of_spaced {digits behind behind' : List Char} (spaced : Spaced behind behind')
    (h : goesOn digits behind' = true) : goesOn digits behind = true := by
  -- a separator is none of the characters that go on, and behind one of them it is no digit
  cases spaced with
  | here _ _ separates =>
    unfold goesOn at h
    split at h
    · next same => cases same; cases separates
    · next same => cases same; cases separates
    · next same => cases same; cases separates
    · cases h
  | off => cases h
  | @later c rest rest' further =>
    have before : startsWithDigit rest' = true → startsWithDigit rest = true :=
      any_head_of_spaced further fun _ => isSeparator_of_isDigit
    unfold goesOn at h
    split at h
    · next same =>
      cases same
      obtain ⟨year, digit⟩ := Bool.and_eq_true_iff.mp h
      exact Bool.and_eq_true_iff.mpr ⟨year, before digit⟩
    · next same => cases same; exact before h
    · next same => cases same; exact before h
    · cases h

/-- Digits end in front of the character behind them, also with something put in further on. -/
theorem digits_of_spaced {cs used rest rest' : List Char} {c : Char}
    (behind : cs.dropWhile isDigit = c :: (used ++ rest)) (spaced : Spaced rest rest') :
    (cs.takeWhile isDigit ++ c :: used ++ rest').takeWhile isDigit = cs.takeWhile isDigit ∧
      (cs.takeWhile isDigit ++ c :: used ++ rest').dropWhile isDigit = c :: (used ++ rest') := by
  have further : Spaced (cs.dropWhile isDigit) (c :: (used ++ rest')) :=
    behind ▸ .later c (spaced.append used)
  rw [List.append_assoc, List.cons_append]
  exact takeWhile_of_spaced (fun _ => isSeparator_of_isDigit) further

section
variable {cs rest : List Char} {s : Scanned}

/-- Digits, the character behind them and what is used of the rest are the text in front of what is left. -/
theorem eq_append_of_digits {used left : List Char} {c : Char}
    (behind : cs.dropWhile isDigit = c :: (used ++ left)) :
    cs = cs.takeWhile isDigit ++ c :: used ++ left := by
  have whole : cs.takeWhile isDigit ++ cs.dropWhile isDigit = cs := List.takeWhile_append_dropWhile
  rw [List.append_assoc, List.cons_append, ← behind, whole]

/-- A date is read as before. -/
theorem exists_of_date (behind : cs.dropWhile isDigit = '-' :: rest)
    (isDate : (cs.takeWhile isDigit).length = 4 ∧ startsWithDigit rest = true)
    (h : scanDate (cs.takeWhile isDigit) rest = .ok s) :
    ∃ used, cs = used ++ s.rest ∧
      ∀ {rest'}, Spaced s.rest rest' → scanNumber (used ++ rest') = .ok { s with rest := rest' } := by
  obtain ⟨used, some, parts, read⟩ := exists_of_scanDate h
  rw [parts] at behind
  refine ⟨_, eq_append_of_digits behind, fun {rest'} spaced => ?_⟩
  obtain ⟨taken, left⟩ := digits_of_spaced behind spaced
  have startsToo : startsWithDigit (used ++ rest') = true := by
    have digit := isDate.2
    rw [parts] at digit
    cases used with
    | nil => exact absurd rfl some
    | cons c used => exact digit
  unfold scanNumber
  simp only [taken, left, if_pos (And.intro isDate.1 startsToo)]
  exact read spaced

/-- A time of day is read as before. -/
theorem exists_of_time (behind : cs.dropWhile isDigit = ':' :: rest) (starts : startsWithDigit rest = true)
    (h : scanTime (cs.takeWhile isDigit) rest = .ok s) :
    ∃ used, cs = used ++ s.rest ∧
      ∀ {rest'}, Spaced s.rest rest' → scanNumber (used ++ rest') = .ok { s with rest := rest' } := by
  obtain ⟨parts, read⟩ := scanTime_of_ok h
  have minutes : cs.dropWhile isDigit = ':' :: (rest.takeWhile isDigit ++ s.rest) := by
    rw [behind, parts, List.takeWhile_append_dropWhile]
  refine ⟨_, eq_append_of_digits minutes, fun {rest'} spaced => ?_⟩
  obtain ⟨taken, left⟩ := digits_of_spaced minutes spaced
  unfold scanNumber
  simp only [taken, left, if_pos (startsWithDigit_append starts rest')]
  exact read spaced

/-- A number with a point is read as before. -/
theorem exists_of_float (behind : cs.dropWhile isDigit = '.' :: rest) (starts : startsWithDigit rest = true) :
    ∀ {rest'}, Spaced (rest.dropWhile isDigit) rest' →
      scanNumber (cs.takeWhile isDigit ++ '.' :: rest.takeWhile isDigit ++ rest') =
        .ok ⟨.float (floatOf (cs.takeWhile isDigit) (rest.takeWhile isDigit)),
          cs.takeWhile isDigit ++ '.' :: rest.takeWhile isDigit, rest'⟩ := by
  intro rest' spaced
  have fraction : cs.dropWhile isDigit = '.' :: (rest.takeWhile isDigit ++ rest.dropWhile isDigit) := by
    rw [behind, List.takeWhile_append_dropWhile]
  obtain ⟨taken, left⟩ := digits_of_spaced fraction spaced
  obtain ⟨takenToo, leftToo⟩ := takeWhile_of_spaced (fun _ => isSeparator_of_isDigit) spaced
  unfold scanNumber
  simp only [taken, left, if_pos (startsWithDigit_append starts rest'), takenToo, leftToo]

/-- An integer is read as before: what is put in behind it does not make it go on. -/
theorem exists_of_integer (ends : goesOn (cs.takeWhile isDigit) (cs.dropWhile isDigit) = false)
    (h : integerOf (cs.takeWhile isDigit) (cs.dropWhile isDigit) = .ok s) :
    ∃ used, cs = used ++ s.rest ∧
      ∀ {rest'}, Spaced s.rest rest' → scanNumber (used ++ rest') = .ok { s with rest := rest' } := by
  obtain ⟨left, read⟩ := integerOf_of_ok h
  refine ⟨cs.takeWhile isDigit, by rw [left, List.takeWhile_append_dropWhile], fun {rest'} spaced => ?_⟩
  rw [left] at spaced
  have endsToo : goesOn (cs.takeWhile isDigit) rest' = false := by
    cases goes : goesOn (cs.takeWhile isDigit) rest' with
    | false => rfl
    | true => exact absurd (goesOn_of_spaced spaced goes) (by simp [ends])
  obtain ⟨taken, left⟩ := takeWhile_of_spaced (fun _ => isSeparator_of_isDigit) spaced
  rw [scanNumber_of_goesOn taken left endsToo]
  exact read rest'

end

theorem steady_scanNumber : Steady scanNumber := by
  intro cs s h
  cases ends : goesOn (cs.takeWhile isDigit) (cs.dropWhile isDigit) with
  | false =>
    rw [scanNumber_of_goesOn rfl rfl ends] at h
    exact exists_of_integer ends h
  | true =>
    unfold goesOn at ends
    unfold scanNumber at h
    dsimp only at h
    -- by the character behind the digits
    split at ends
    · next rest behind =>
      have isDate : (cs.takeWhile isDigit).length = 4 ∧ startsWithDigit rest = true := by
        simpa using ends
      simp only [behind, if_pos isDate] at h
      exact exists_of_date behind isDate h
    · next rest behind =>
      simp only [behind, if_pos ends] at h
      exact exists_of_time behind ends h
    · next rest behind =>
      simp only [behind, if_pos ends] at h
      cases h
      have parts : cs.dropWhile isDigit = '.' :: (rest.takeWhile isDigit ++ rest.dropWhile isDigit) := by
        rw [behind, List.takeWhile_append_dropWhile]
      exact ⟨_, eq_append_of_digits parts, exists_of_float behind ends⟩
    · cases ends

end Lexer

end Planfile
