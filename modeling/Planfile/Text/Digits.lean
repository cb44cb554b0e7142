import Planfile.Text.Blank

/-!
# Planfile — digit strings

Numerals are read from runs of ASCII digits. A run has a value whatever its length; what is
bounded is the range of the number it stands for, so a reader of numerals takes the largest value
it accepts.

Main results:

* `value_append` — the value of a run followed by another.
* `valueUpTo?_eq_some_iff` — a run is read exactly when it is not empty and within the bound.
-/

namespace Planfile.Text.Digits

/-- Whether a character is one of the ten ASCII digits. -/
def isDigit (c : Char) : Bool := '0' ≤ c && c ≤ '9'

/-- The number a digit stands for. -/
def digitValue (c : Char) : Nat := c.toNat - '0'.toNat

/-- The number a run of digits stands for; the empty run stands for zero. -/
def value (cs : List Char) : Nat := cs.foldl (fun n c => n * 10 + digitValue c) 0

/-- A run goes on from the value of what stands before it. -/
theorem value_append (xs ys : List Char) :
    value (xs ++ ys) = ys.foldl (fun n c => n * 10 + digitValue c) (value xs) := by
  simp [value, List.foldl_append]

/-- The value of a run, or one more than `bound` if it is greater, without large numbers on the
way. -/
def cappedValue (bound : Nat) (cs : List Char) : Nat :=
  cs.foldl (fun n c => min (n * 10 + digitValue c) (bound + 1)) 0

/-- The capped value is the value, or the cap if that is less. -/
theorem cappedValue_eq_min (bound : Nat) (cs : List Char) :
    cappedValue bound cs = min (value cs) (bound + 1) := by
  have step : ∀ n m : Nat, m = min n (bound + 1) →
      cs.foldl (fun n c => min (n * 10 + digitValue c) (bound + 1)) m =
        min (cs.foldl (fun n c => n * 10 + digitValue c) n) (bound + 1) := by
    induction cs with
    | nil => exact fun n m h => h
    | cons c rest ih =>
      intro n m h
      refine ih (n * 10 + digitValue c) (min (m * 10 + digitValue c) (bound + 1)) ?_
      omega
  exact step 0 0 (by omega)

/-- The value of a run that is not empty and at most `bound`. -/
def valueUpTo? (bound : Nat) (cs : List Char) : Option Nat :=
  if cs ≠ [] ∧ cappedValue bound cs ≤ bound then some (cappedValue bound cs) else none

/-- A run is read exactly when it is not empty and within the bound. -/
theorem valueUpTo?_eq_some_iff {bound n : Nat} {cs : List Char} :
    valueUpTo? bound cs = some n ↔ cs ≠ [] ∧ value cs ≤ bound ∧ value cs = n := by
  have capped := cappedValue_eq_min bound cs
  unfold valueUpTo?
  split
  · next h =>
    simp only [Option.some.injEq]
    constructor
    · rintro rfl
      exact ⟨h.1, by omega, by omega⟩
    · rintro ⟨_, hb, rfl⟩
      omega
  · next h =>
    constructor
    · intro h'
      cases h'
    · rintro ⟨hc, hb, _⟩
      exact absurd ⟨hc, by omega⟩ h

/-- The largest natural number of 32 bits, the bound of counts and of parts of a date. -/
def count32 : Nat := 4294967295

/-- The largest integer of the language, 2 ^ 63 - 1. -/
def integerBound : Nat := 9223372036854775807

/-- A count written inside a string: blanks around it are ignored and one `+` may stand before
its digits. -/
def count? (s : String) : Option Nat :=
  let digits := match trimBlank s.toList with
    | '+' :: rest => rest
    | rest => rest
  if digits.all isDigit then valueUpTo? count32 digits else none

/-- A number in decimal, with zeros before it up to `width` digits. -/
def padded (width n : Nat) : String :=
  let digits := toString n
  String.ofList (List.replicate (width - digits.length) '0') ++ digits

end Planfile.Text.Digits
