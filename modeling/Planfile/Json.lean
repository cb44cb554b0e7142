import Planfile.Number.Shortest
import Planfile.Text.Quoted

/-!
# Planfile — stored values

Projects are stored, and log lines written, as JSON. An object keeps its fields in the order in
which they are given; there is a compact form on one line and a form with one item a line.
-/

namespace Planfile

/-- A JSON value; integers and floating point numbers are kept apart. -/
inductive Json where
  | null
  | bool (value : Bool)
  | integer (value : Int)
  | real (value : Float)
  | text (value : String)
  | array (items : List Json)
  | object (fields : List (String × Json))
  deriving Inhabited

namespace Json

/-- Stored numbers always show that they are floating point numbers; those far from one have an
exponent, and what is no number is null. -/
def number : Number.Layout where
  tie := .toEven
  positional := some (-5, 15)
  wholeSuffix := ".0"
  positiveInfinity := "null"
  negativeInfinity := "null"
  notANumber := "null"

/-- An optional value; its absence is null. -/
def option (encode : α → Json) : Option α → Json
  | none => .null
  | some a => encode a

/-- A list of values. -/
def list (encode : α → Json) (items : List α) : Json := .array (items.map encode)

/-- A natural number. -/
def nat (n : Nat) : Json := .integer n

/-- A value under the name of its variant. -/
def variant (name : String) (value : Json) : Json := .object [(name, value)]

/-! ## The compact form -/

mutual

/-- Writes a value behind `out` without blanks. -/
def writeCompact (out : String) : Json → String
  | .null => out ++ "null"
  | .bool b => out ++ (if b then "true" else "false")
  | .integer n => out ++ toString n
  | .real x => out ++ number.write x
  | .text s => out ++ Text.Quoted.stored s
  | .array items => writeItems (out ++ "[") true items ++ "]"
  | .object fields => writeFields (out ++ "\x7b") true fields ++ "\x7d"

/-- Writes the items of an array, commas between them. -/
def writeItems (out : String) (first : Bool) : List Json → String
  | [] => out
  | item :: rest => writeItems (writeCompact (if first then out else out ++ ",") item) false rest

/-- Writes the fields of an object, commas between them. -/
def writeFields (out : String) (first : Bool) : List (String × Json) → String
  | [] => out
  | (name, value) :: rest =>
    let head := (if first then out else out ++ ",") ++ Text.Quoted.stored name ++ ":"
    writeFields (writeCompact head value) false rest

end

/-- The compact form of a value. -/
def compact (j : Json) : String := writeCompact "" j

/-! ## The form with one item a line -/

/-- Starts a line that is indented by two blanks a level. -/
def newline (level : Nat) (out : String) : String :=
  out ++ "\n" ++ String.ofList (List.replicate (2 * level) ' ')

mutual

/-- Writes a value behind `out`, what it holds one level deeper than itself. -/
def writePretty (level : Nat) (out : String) : Json → String
  | .array [] => out ++ "[]"
  | .object [] => out ++ "\x7b\x7d"
  | .array items => newline level (prettyItems (level + 1) (out ++ "[") true items) ++ "]"
  | .object fields =>
    newline level (prettyFields (level + 1) (out ++ "\x7b") true fields) ++ "\x7d"
  | .null => out ++ "null"
  | .bool b => out ++ (if b then "true" else "false")
  | .integer n => out ++ toString n
  | .real x => out ++ number.write x
  | .text s => out ++ Text.Quoted.stored s

/-- Writes the items of an array, each on a line of its own. -/
def prettyItems (level : Nat) (out : String) (first : Bool) : List Json → String
  | [] => out
  | item :: rest =>
    let head := newline level (if first then out else out ++ ",")
    prettyItems level (writePretty level head item) false rest

/-- Writes the fields of an object, each on a line of its own. -/
def prettyFields (level : Nat) (out : String) (first : Bool) : List (String × Json) → String
  | [] => out
  | (name, value) :: rest =>
    let head := newline level (if first then out else out ++ ",") ++ Text.Quoted.stored name ++ ": "
    prettyFields level (writePretty level head value) false rest

end

/-- The form of a value with one item a line. -/
def pretty (j : Json) : String := writePretty 0 "" j

end Json

end Planfile
