/-!
# Planfile — the exact value of a floating point number

A finite double is `± mantissa · 2 ^ exponent` with natural mantissa, so all that is written or
rounded from it can be computed without rounding. This module takes the number apart; the modules
beside it choose digits (`Shortest`) and whole numbers (`Whole`).

Main results:

* `roundDiv_near` — the result is within half a unit of the quotient.
-/

namespace Planfile.Number

/-- The magnitude `mantissa · 2 ^ exponent` of a finite double. -/
structure Magnitude where
  mantissa : Nat
  exponent : Int
  /-- Whether the next smaller double is only half as far away as the next larger one. -/
  narrowBelow : Bool
  deriving DecidableEq, Repr

/-- What the bits of a double stand for. -/
inductive Reading where
  | finite (negative : Bool) (magnitude : Magnitude)
  | infinite (negative : Bool)
  | notANumber
  deriving DecidableEq, Repr

/-- Takes apart sign (1 bit), exponent (11 bits) and fraction (52 bits). -/
def Reading.ofBits (bits : Nat) : Reading :=
  let negative := bits / Nat.pow 2 63 % 2 == 1
  let exponent : Nat := bits / Nat.pow 2 52 % Nat.pow 2 11
  let fraction : Nat := bits % Nat.pow 2 52
  if exponent = 2047 then
    if fraction = 0 then .infinite negative else .notANumber
  else if exponent = 0 then .finite negative ⟨fraction, -1074, false⟩
  else
    .finite negative
      ⟨fraction + Nat.pow 2 52, (exponent : Int) - 1075, fraction == 0 && exponent != 1⟩

/-- What a double stands for. -/
def read (x : Float) : Reading := Reading.ofBits x.toBits.toNat

/-- A natural number times a power of two, as a fraction of naturals. -/
def dyadic (mantissa : Nat) (exponent : Int) : Nat × Nat :=
  match exponent with
  | .ofNat e => (mantissa * Nat.pow 2 e, 1)
  | .negSucc e => (mantissa, Nat.pow 2 (e + 1))

/-- The magnitude as a fraction of naturals. -/
def Magnitude.fraction (m : Magnitude) : Nat × Nat := dyadic m.mantissa m.exponent

end Planfile.Number

/-!
## Rounding a quotient

A quotient of naturals is rounded to the nearest natural. Formats differ only in what they do
with a quotient that lies exactly between two naturals.
-/

namespace Planfile.Number

/-- Where a quotient goes that lies exactly between two naturals. -/
inductive Tie where
  | up
  | toEven
  deriving DecidableEq, Repr

/-- The natural number nearest to `num / den`. -/
def roundDiv (tie : Tie) (num den : Nat) : Nat :=
  if 2 * (num % den) < den then num / den
  else if den < 2 * (num % den) then num / den + 1
  else match tie with
    | .up => num / den + 1
    | .toEven => if num / den % 2 = 0 then num / den else num / den + 1

/-- The result is within half a unit of the quotient. -/
theorem roundDiv_near (tie : Tie) {num den : Nat} (h : 0 < den) :
    2 * num ≤ (2 * roundDiv tie num den + 1) * den ∧
      (2 * roundDiv tie num den) * den ≤ 2 * num + den := by
  have hd : den * (num / den) + num % den = num := Nat.div_add_mod num den
  have hm : num % den < den := Nat.mod_lt _ h
  have key : ∀ q : Nat, (q = num / den ∧ 2 * (num % den) ≤ den) ∨
      (q = num / den + 1 ∧ den ≤ 2 * (num % den)) →
      2 * num ≤ (2 * q + 1) * den ∧ (2 * q) * den ≤ 2 * num + den := by
    intro q hq
    have e1 : (2 * q + 1) * den = 2 * (den * q) + den := by
      rw [Nat.add_mul, Nat.one_mul, Nat.mul_assoc, Nat.mul_comm q den]
    have e2 : 2 * q * den = 2 * (den * q) := by rw [Nat.mul_assoc, Nat.mul_comm q den]
    rw [e1, e2]
    rcases hq with ⟨rfl, hr⟩ | ⟨rfl, hr⟩
    · omega
    · have e3 : den * (num / den + 1) = den * (num / den) + den := by rw [Nat.mul_add, Nat.mul_one]
      omega
  apply key
  unfold roundDiv
  split
  · left; omega
  · split
    · right; omega
    · cases tie with
      | up => exact .inr ⟨rfl, by omega⟩
      | toEven =>
        dsimp only
        split
        · left; omega
        · right; omega

end Planfile.Number
