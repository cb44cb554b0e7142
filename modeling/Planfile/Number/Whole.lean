import Planfile.Number.Binary
import Planfile.Text.Digits

/-!
# Planfile — whole numbers from floating point numbers

Scheduling counts are integers of 64 bits, and the lengths they come from are doubles. The steps
here are exact on the double they are given: cut toward zero or round to the nearest integer, a
half away from zero; then keep within the range of the integers, where what is no number counts
as zero.
-/

namespace Planfile.Number

/-- The least and the greatest integer of the language. -/
def leastInteger : Int := -9223372036854775808
def greatestInteger : Int := 9223372036854775807

/-- The nearest integer of the language. -/
def saturate (n : Int) : Int := max leastInteger (min greatestInteger n)

/-- The integer a double is mapped to by a rule for the magnitude. -/
def wholeBy (rule : Nat → Nat → Nat) (x : Float) : Int :=
  match read x with
  | .finite negative m =>
    let n : Int := rule m.fraction.1 m.fraction.2
    saturate (if negative then -n else n)
  | .infinite negative => if negative then leastInteger else greatestInteger
  | .notANumber => 0

/-- The integer part. -/
def truncated (x : Float) : Int := wholeBy (fun num den => num / den) x

/-- The nearest integer, a half away from zero. -/
def rounded (x : Float) : Int := wholeBy (roundDiv .up) x

end Planfile.Number

/-!
## A fixed number of decimal places

Sizes are shown with two decimal places. The exact quotient is rounded once, a half to the even
neighbour.
-/

namespace Planfile.Number

/-- A quotient with `places` digits after the point. -/
def fixedText (places num den : Nat) : String :=
  let unit := Nat.pow 10 places
  let n := roundDiv .toEven (num * unit) den
  toString (n / unit) ++ "." ++ Text.Digits.padded places (n % unit)

end Planfile.Number
