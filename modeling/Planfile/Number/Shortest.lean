import Planfile.Number.Binary
import Planfile.Text.Digits

/-!
# Planfile — the fewest digits that read back

A double stands for the interval of reals that round to it: from halfway to its neighbour below
to halfway to its neighbour above, ends included exactly when its mantissa is even. A decimal reads
back to the double when it lies in that interval. The digits written for a double are the fewest
that read back, of two such decimals the nearer one, and `Tie` decides between two that are equally
near.

Main definitions:

* `RoundingInterval.ofMagnitude` — the interval a magnitude stands for.
* `shortest` — the digits, searched grid by grid in exact arithmetic.
-/

namespace Planfile.Number

/-- The decimal `digits · 10 ^ exponent`. -/
structure Decimal where
  digits : Nat
  exponent : Int
  deriving DecidableEq, Repr

/-- The reals that round to a double, over one common denominator. -/
structure RoundingInterval where
  low : Nat
  value : Nat
  high : Nat
  denominator : Nat
  /-- Whether the two ends belong to it. -/
  closed : Bool
  deriving DecidableEq, Repr

/-- A quarter of the gap above is the common unit of the value and of both halfway points. -/
def RoundingInterval.ofMagnitude (m : Magnitude) : RoundingInterval :=
  let below := if m.narrowBelow then 1 else 2
  let scale := dyadic 1 (m.exponent - 2)
  { low := (4 * m.mantissa - below) * scale.1
    value := 4 * m.mantissa * scale.1
    high := (4 * m.mantissa + 2) * scale.1
    denominator := scale.2
    closed := m.mantissa % 2 == 0 }

/-- Whether `n · unit`, with `unit` a fraction, lies in the interval. -/
def RoundingInterval.holds (i : RoundingInterval) (unit : Nat × Nat) (n : Nat) : Bool :=
  let x := n * unit.1 * i.denominator
  let low := i.low * unit.2
  let high := i.high * unit.2
  if i.closed then low ≤ x && x ≤ high else low < x && x < high

/-- A power of ten as a fraction of naturals. -/
def powerOfTen (k : Int) : Nat × Nat :=
  match k with
  | .ofNat e => (Nat.pow 10 e, 1)
  | .negSucc e => (1, Nat.pow 10 (e + 1))

/-- The number of decimal digits of a natural number, none for zero. -/
def digitCount (n : Nat) : Nat := if n = 0 then 0 else (toString n).length

/-- The least `k` such that a positive fraction is below `10 ^ k`. -/
def decimalScale (num den : Nat) : Int :=
  if den ≤ num then digitCount (num / den) else 1 - digitCount ((den - 1) / num)

/-- The decimals with unit `10 ^ k` beside the value: the nearest one that reads back. -/
def RoundingInterval.onGrid (i : RoundingInterval) (tie : Tie) (k : Int) : Option Nat :=
  let unit := powerOfTen k
  -- if any point of the grid reads back, one of the two beside the value does
  let lower := i.value * unit.2 / (unit.1 * i.denominator)
  match i.holds unit lower, i.holds unit (lower + 1) with
  | true, true => some (roundDiv tie (i.value * unit.2) (unit.1 * i.denominator))
  | true, false => some lower
  | false, true => some (lower + 1)
  | false, false => none

/-- Moves the zeros at the end of the digits into the exponent. -/
def Decimal.strip : Nat → Decimal → Decimal
  | 0, d => d
  | fuel + 1, d =>
    if d.digits ≠ 0 ∧ d.digits % 10 = 0 then strip fuel ⟨d.digits / 10, d.exponent + 1⟩ else d

/-- The fewest digits that read back to a magnitude; seventeen always do. -/
def shortest (tie : Tie) (m : Magnitude) : Decimal :=
  if m.mantissa = 0 then ⟨0, 0⟩ else
    let i := RoundingInterval.ofMagnitude m
    -- the value has `k` digits before the point, so `n` digits end at `10 ^ (k - n)`
    let k := decimalScale i.value i.denominator
    let grid (n : Nat) : Option Decimal :=
      (i.onGrid tie (k - n)).map fun digits => ⟨digits, k - n⟩
    match (List.range' 1 17).findSome? grid with
    | some d => d.strip 20
    | none => ⟨m.mantissa, m.exponent⟩

end Planfile.Number

/-!
## How a number is laid out

Where the point stands, when an exponent is written and how whole numbers look is the choice of a
format. A `Layout` records those choices, and `write` follows them.
-/

namespace Planfile.Number

/-- The choices a format makes about floating point numbers. -/
structure Layout where
  /-- Which of two equally near digit strings is written. -/
  tie : Tie
  /-- The exponents of the leading digit that are written positionally; `none` means all of them. -/
  positional : Option (Int × Int)
  /-- What follows the digits of a whole number in positional form. -/
  wholeSuffix : String
  /-- The texts of the values that have no digits. -/
  positiveInfinity : String
  negativeInfinity : String
  notANumber : String

/-- Digits with the point `point` places after the first one begins: `0.05`, `1.5`, `1500`. -/
def positionalText (wholeSuffix digits : String) (point : Int) : String :=
  let count := digits.length
  if point ≤ 0 then
    "0." ++ String.ofList (List.replicate (-point).toNat '0') ++ digits
  else if point.toNat < count then
    String.ofList (digits.toList.take point.toNat) ++ "." ++
      String.ofList (digits.toList.drop point.toNat)
  else digits ++ String.ofList (List.replicate (point.toNat - count) '0') ++ wholeSuffix

/-- One digit before the point and a signed exponent: `1.5e+16`. -/
def exponentText (digits : String) (exponent : Int) : String :=
  let fraction := digits.toList.drop 1
  String.ofList (digits.toList.take 1) ++
    (if fraction.isEmpty then "" else "." ++ String.ofList fraction) ++
    "e" ++ (if exponent < 0 then "-" else "+") ++ toString exponent.natAbs

/-- The text of a decimal without its sign. -/
def Layout.decimal (l : Layout) (d : Decimal) : String :=
  let digits := toString d.digits
  if d.digits = 0 then "0" ++ l.wholeSuffix
  else
    let point := d.exponent + digits.length
    match l.positional with
    | none => positionalText l.wholeSuffix digits point
    | some (least, greatest) =>
      if least ≤ point - 1 ∧ point - 1 ≤ greatest then positionalText l.wholeSuffix digits point
      else exponentText digits (point - 1)

/-- The text of a number; zero keeps its sign. -/
def Layout.write (l : Layout) (x : Float) : String :=
  match read x with
  | .finite negative m => (if negative then "-" else "") ++ l.decimal (shortest l.tie m)
  | .infinite negative => if negative then l.negativeInfinity else l.positiveInfinity
  | .notANumber => l.notANumber

end Planfile.Number
