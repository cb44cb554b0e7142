import Planfile.Calendar.DateTime
import Planfile.Number.Shortest
import Planfile.Source.Position

/-!
# Planfile — tokens

The words of a plan file. Keywords are plain identifiers: which of them mean something is for the
grammar to say, and a token carries no more than its class and its value.
-/

namespace Planfile

/-- The classes of tokens that carry a value. -/
inductive TokenClass where
  | id
  | idWithColon
  | absoluteId
  | relativeId
  | string
  | integer
  | float
  | date
  | time
  deriving DecidableEq, Repr

/-- All classes. -/
def TokenClass.all : List TokenClass :=
  [.id, .idWithColon, .absoluteId, .relativeId, .string, .integer, .float, .date, .time]

/-- The name of a class in a grammar. -/
def TokenClass.name : TokenClass → String
  | .id => "ID"
  | .idWithColon => "ID_WITH_COLON"
  | .absoluteId => "ABSOLUTE_ID"
  | .relativeId => "RELATIVE_ID"
  | .string => "STRING"
  | .integer => "INTEGER"
  | .float => "FLOAT"
  | .date => "DATE"
  | .time => "TIME"

/-- The class with a given name. -/
def TokenClass.ofName? (name : String) : Option TokenClass := all.find? (·.name == name)

/-- How a message speaks of a token of the class. -/
def TokenClass.description : TokenClass → String
  | .id => "an identifier"
  | .idWithColon => "an identifier followed by ':'"
  | .absoluteId => "a dotted identifier"
  | .relativeId => "a relative identifier"
  | .string => "a string"
  | .integer => "an integer"
  | .float => "a floating point number"
  | .date => "a date"
  | .time => "a time of day"

/-- Every class is found by its name. -/
theorem TokenClass.ofName?_name (c : TokenClass) : ofName? c.name = some c := by
  cases c <;> rfl

/-- Punctuation and operators. -/
inductive Mark where
  | leftBrace
  | rightBrace
  | leftParen
  | rightParen
  | comma
  | minus
  | plus
  | tilde
  | pipe
  | ampersand
  | equals
  | greater
  | less
  | greaterOrEqual
  | lessOrEqual
  deriving DecidableEq, Repr

/-- The characters of a mark. -/
def Mark.text : Mark → String
  | .leftBrace => "\x7b"
  | .rightBrace => "\x7d"
  | .leftParen => "("
  | .rightParen => ")"
  | .comma => ","
  | .minus => "-"
  | .plus => "+"
  | .tilde => "~"
  | .pipe => "|"
  | .ampersand => "&"
  | .equals => "="
  | .greater => ">"
  | .less => "<"
  | .greaterOrEqual => ">="
  | .lessOrEqual => "<="

/-- The mark of one character. -/
def Mark.ofChar? : Char → Option Mark
  | '\x7b' => some .leftBrace
  | '\x7d' => some .rightBrace
  | '(' => some .leftParen
  | ')' => some .rightParen
  | ',' => some .comma
  | '-' => some .minus
  | '+' => some .plus
  | '~' => some .tilde
  | '|' => some .pipe
  | '&' => some .ampersand
  | '=' => some .equals
  | '>' => some .greater
  | '<' => some .less
  | _ => none

/-- A token of a plan file. -/
inductive Token where
  | id (name : String)
  /-- A name directly followed by a colon, which is not part of the value. -/
  | idWithColon (name : String)
  /-- Names joined by dots. -/
  | absoluteId (path : String)
  /-- Bangs, which are part of the value, and names joined by dots. -/
  | relativeId (path : String)
  | string (value : String)
  | integer (value : Int)
  | float (value : Float)
  | date (value : Calendar.DateTime)
  /-- A time of day in seconds after midnight; the end of the day is one. -/
  | time (seconds : Nat)
  | mark (mark : Mark)
  /-- A comment with its delimiters. -/
  | comment (text : String)
  /-- The end of the text. -/
  | eof
  deriving DecidableEq

instance : Inhabited Token := ⟨.eof⟩

/-- The class of a token that carries a value. -/
def Token.class? : Token → Option TokenClass
  | .id _ => some .id
  | .idWithColon _ => some .idWithColon
  | .absoluteId _ => some .absoluteId
  | .relativeId _ => some .relativeId
  | .string _ => some .string
  | .integer _ => some .integer
  | .float _ => some .float
  | .date _ => some .date
  | .time _ => some .time
  | .mark _ | .comment _ | .eof => none

/-- The text by which a grammar can ask for exactly this token. -/
def Token.literalText? : Token → Option String
  | .id name => some name
  | .mark m => some m.text
  | _ => none

/-- Whether a grammar asks for the token by a literal. -/
def Token.matchesLiteral (t : Token) (literal : String) : Bool := t.literalText? == some literal

/-- Whether the grammar sees the token: all but comments. -/
def Token.isSignificant : Token → Bool
  | .comment _ => false
  | _ => true

/-- Whether the token is the end of the text. -/
def Token.isEof : Token → Bool
  | .eof => true
  | _ => false

/-- Numbers in messages never have an exponent, and whole ones no point. -/
def plainNumber : Number.Layout where
  tie := .up
  positional := none
  wholeSuffix := ""
  positiveInfinity := "inf"
  negativeInfinity := "-inf"
  notANumber := "NaN"

/-- Hours and minutes of a time of day; hours have no leading zero. -/
def timeText (seconds : Nat) : String :=
  toString (seconds / 3600) ++ ":" ++ Text.Digits.padded 2 (seconds % 3600 / 60)

/-- The token as it would stand in a plan file; comments and the end are named instead. -/
def Token.text : Token → String
  | .id name => name
  | .idWithColon name => name ++ ":"
  | .absoluteId path => path
  | .relativeId path => path
  | .string value => "\"" ++ value ++ "\""
  | .integer value => toString value
  | .float value => plainNumber.write value
  | .date value => value.planText
  | .time seconds => timeText seconds
  | .mark m => m.text
  | .comment _ => "<comment>"
  | .eof => "<EOF>"

/-- A token with the span of its lexeme. -/
structure SpannedToken where
  token : Token
  span : Span
  deriving DecidableEq, Inhabited

end Planfile
