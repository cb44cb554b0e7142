import Planfile.Parse.Matcher

/-!
# Planfile — reading single tokens

A symbol that is no reference to a rule reads the next token if the token fits, and ends the parse
otherwise. Whether it fits is said by the terminal of the symbol.

Main results:

* `Matcher.run_matchSymbol_of_accepts` — a token that fits is read, and nothing else happens.
* `Matcher.run_matchSymbol_of_not_accepts` — one that does not fit is a fault, and is not read.
-/

namespace Planfile

/-- What a terminal makes of a token that it accepts. -/
def Terminal.matched : Terminal → Token → MatchedValue
  | .literal text, _ => .literal text
  | .tokenClass _, token => .token token

/-- The state in which the next token has been read. -/
def Context.next (env : Surroundings) (c : Context) : Context :=
  { c with
    tokens := c.tokens.read.settled
    journal := Narration.advanced env.preferences.parser.logIncludes c.tokens c.journal }

/-- A fault that says which token is not expected. -/
def ParseFault.IsUnfit : ParseFault → Prop
  | .unexpectedToken _ _ | .unknownAttribute _ _ | .tokenMismatch _ _ => True
  | _ => False

/-- What a terminal accepts is not the end of the text. -/
theorem Terminal.isEof_of_accepts {a : Terminal} {token : Token} (h : a.accepts token = true) :
    token.isEof = false := by
  cases token with
  | eof => cases a <;> cases h
  | _ => rfl

namespace Matcher

/-- The end of the text is behind the last token, so any other next token can be read. -/
theorem advance_of_isEof {s : TokenSource} (h : s.peek.isEof = false) :
    ∃ token, token.token = s.peek ∧ s.advance = some (token, s.read.settled) := by
  unfold TokenSource.peek at h ⊢
  cases hs : s.peekSpanned with
  | none => simp [hs, Token.isEof] at h
  | some token =>
    simp only [hs, Option.map_some, Option.getD_some] at h ⊢
    exact ⟨token, rfl, by simp [TokenSource.advance, hs, h]⟩

/-- What a computation gives is passed on in the state that it leaves. -/
theorem run_map (f : α → β) (m : Matcher α) (env : Surroundings) (c : Context) :
    (f <$> m) env c =
      match m env c with
      | (.ok a, c) => (.ok (f a), c)
      | (.error e, c) => (.error e, c) := by
  rw [← bind_pure_comp, run_bind]
  rfl

/-- What has come to its end has gone through all its parts. -/
theorem exists_of_run_bind {m : Matcher α} {f : α → Matcher β} {env : Surroundings} {c d : Context}
    {b : β} (h : (m >>= f) env c = (.ok b, d)) :
    ∃ a e, m env c = (.ok a, e) ∧ f a env e = (.ok b, d) := by
  rw [run_bind] at h
  cases hr : m env c with
  | mk outcome e =>
    rw [hr] at h
    cases outcome with
    | error stop => cases h
    | ok a => exact ⟨a, e, rfl, h⟩

/-- What is passed on changed has been given. -/
theorem exists_of_run_map {f : α → β} {m : Matcher α} {env : Surroundings} {c d : Context} {b : β}
    (h : (f <$> m) env c = (.ok b, d)) : ∃ a, m env c = (.ok a, d) ∧ f a = b := by
  rw [← bind_pure_comp] at h
  obtain ⟨a, e, hr, hf⟩ := exists_of_run_bind h
  cases hf
  exact ⟨a, hr, rfl⟩

/-- What gives something that passes a check has come to its end. -/
theorem exists_of_any {m : Matcher α} {env : Surroundings} {c : Context} {check : α → Bool}
    (h : (m env c).1.toOption.any check = true) : ∃ a d, m env c = (.ok a, d) ∧ check a = true := by
  cases hr : m env c with
  | mk outcome d =>
    rw [hr] at h
    cases outcome with
    | error stop => cases h
    | ok a => exact ⟨a, d, rfl, h⟩

/-- What is found not to go wrong has come to its end. -/
theorem exists_of_isOk {m : Matcher α} {env : Surroundings} {c : Context} (h : (m env c).1.isOk = true) :
    ∃ a d, m env c = (.ok a, d) := by
  cases hr : m env c with
  | mk outcome d =>
    rw [hr] at h
    cases outcome with
    | error stop => cases h
    | ok a => exact ⟨a, d, rfl⟩

/-- Reading gives the next token. -/
theorem run_consume (env : Surroundings) {c : Context} (h : c.tokens.peek.isEof = false) :
    consume env c = (.ok c.tokens.peek, c.next env) := by
  obtain ⟨token, same, ha⟩ := advance_of_isEof h
  simp [consume, run_bind, run_map, ha, same, Context.next]

/-- Where something else is expected nothing is read. -/
theorem run_unfit (fault : ParseFault) (h : fault.IsUnfit) (env : Surroundings) (c : Context) :
    ∃ found : ParseFault, found.IsUnfit ∧
      (unfit fault : Matcher α) env c = (.error (.error ⟨found, c.tokens.location⟩), c) := by
  refine ⟨(unknownAttribute? env.grammar c).getD fault, ?_, by simp [unfit, run_bind]⟩
  cases hu : unknownAttribute? env.grammar c with
  | none => exact h
  | some unknown =>
    unfold unknownAttribute? at hu
    split at hu
    · split at hu
      · cases hu
        trivial
      · cases hu
    · cases hu

variable (matchRule : RuleId → Matcher (Option Value))

/-- A token that fits a symbol is read, and nothing else happens. -/
theorem run_matchSymbol_of_accepts {s : Symbol} {a : Terminal} (hs : s.terminal? = some a)
    (env : Surroundings) {c : Context} (h : a.accepts c.tokens.peek = true) :
    matchSymbol matchRule s env c = (.ok (a.matched c.tokens.peek), c.next env) := by
  have read := run_consume env (Terminal.isEof_of_accepts h)
  cases s with
  | literal text =>
    cases hs
    have fits : c.tokens.peek.matchesLiteral text = true := h
    simp [matchSymbol, run_bind, run_map, fits, read, Terminal.matched]
  | tokenClass k =>
    cases hs
    have fits : c.tokens.peek.class? = some k := by simpa [Terminal.accepts] using h
    simp [matchSymbol, run_bind, run_map, fits, read, Terminal.matched]
  | rule id => cases hs

/-- A token that does not fit a symbol is a fault, and is not read. -/
theorem run_matchSymbol_of_not_accepts {s : Symbol} {a : Terminal} (hs : s.terminal? = some a)
    (env : Surroundings) {c : Context} (h : a.accepts c.tokens.peek = false) :
    ∃ fault : ParseFault, fault.IsUnfit ∧
      matchSymbol matchRule s env c = (.error (.error ⟨fault, c.tokens.location⟩), c) := by
  cases s with
  | literal text =>
    cases hs
    have unfits : c.tokens.peek.matchesLiteral text = false := h
    obtain ⟨fault, kind, run⟩ := run_unfit (α := PUnit)
      (.unexpectedToken s!"'{text}'" c.tokens.peek.text) trivial env c
    exact ⟨fault, kind, by simp [matchSymbol, run_bind, unfits, expected, run]⟩
  | tokenClass k =>
    cases hs
    have unfits : c.tokens.peek.class? ≠ some k := by simpa [Terminal.accepts] using h
    obtain ⟨fault, kind, run⟩ := run_unfit (α := PUnit)
      (.tokenMismatch k c.tokens.peek.text) trivial env c
    exact ⟨fault, kind, by simp [matchSymbol, run_bind, unfits, run]⟩
  | rule id => cases hs

/-- Where a symbol has been matched by a token, the token fits and has been read. -/
theorem eq_of_run_terminal {s : Symbol} {a : Terminal} (hs : s.terminal? = some a)
    {env : Surroundings} {c d : Context} {item : MatchedValue}
    (h : matchSymbol matchRule s env c = (.ok item, d)) :
    a.accepts c.tokens.peek = true ∧ item = a.matched c.tokens.peek ∧ d = c.next env := by
  cases fits : a.accepts c.tokens.peek with
  | true =>
    rw [run_matchSymbol_of_accepts matchRule hs env fits] at h
    cases h
    exact ⟨rfl, rfl, rfl⟩
  | false =>
    obtain ⟨fault, -, refused⟩ := run_matchSymbol_of_not_accepts matchRule hs env fits
    rw [refused] at h
    cases h

/-- A file that is included takes the place of nothing but the tokens ahead and the journal. -/
theorem eq_of_run_includeFile {path : String} {env : Surroundings} {c d : Context}
    (run : includeFile path env c = (.ok (), d)) :
    ∃ tokens journal, d = { c with tokens, journal } ∧
      c.tokens.pushInclude? env.preferences env.files path = .ok tokens := by
  rw [includeFile, run_bind, run_read] at run
  dsimp only at run
  rw [run_bind, run_get] at run
  dsimp only at run
  rw [run_bind, run_modify] at run
  dsimp only at run
  cases opened : c.tokens.pushInclude? env.preferences env.files path with
  | error e =>
    rw [opened] at run
    cases run
  | ok tokens =>
    rw [opened] at run
    cases run
    exact ⟨tokens, _, rfl, rfl⟩

end Matcher

end Planfile
