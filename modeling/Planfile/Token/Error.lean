import Planfile.Log.Code
import Planfile.Settings.Limits

/-!
# Planfile — lexical faults

What can be wrong with a text below the level of the grammar, and how a message words it.
-/

namespace Planfile

/-- Why a lexeme is no token. -/
inductive LexFault where
  | invalidCharacter (character : Char)
  | unterminatedString
  | unterminatedComment
  | invalidNumber (text : String)
  | invalidDate (text : String)
  | identifierTooLong (length : Nat)
  | stringTooLarge (size : Nat)
  | commentTooLong (length : Nat)
  | tooManyTokens (count : Nat)
  deriving DecidableEq, Repr

/-- A fault and the place where its lexeme starts. -/
structure LexError where
  fault : LexFault
  line : Nat
  column : Nat
  deriving DecidableEq, Repr

/-- The wording of a fault. -/
def LexFault.message : LexFault → String
  | .invalidCharacter c => s!"Invalid character '{c}'"
  | .unterminatedString => "Unterminated string"
  | .unterminatedComment => "Unterminated comment"
  | .invalidNumber text => s!"Invalid number '{text}'"
  | .invalidDate text => s!"Invalid date or time '{text}'"
  | .identifierTooLong length =>
    s!"Identifier too long: {length} characters (max {Limits.identifierLength})"
  | .stringTooLarge size => s!"String too large: {size} bytes (max {Limits.stringSize})"
  | .commentTooLong length =>
    s!"Comment too long: {length} characters (max {Limits.commentLength})"
  | .tooManyTokens count => s!"Too many tokens: {count} (max {Limits.tokenCount})"

/-- The code of a fault. -/
def LexFault.code : LexFault → Code
  | .invalidCharacter _ => .invalidCharacter
  | .unterminatedString => .unterminatedString
  | .unterminatedComment => .unterminatedComment
  | .invalidNumber _ => .invalidNumber
  | .invalidDate _ => .invalidDate
  | .identifierTooLong _ => .identifierTooLong
  | .stringTooLarge _ => .stringTooLarge
  | .commentTooLong _ => .commentTooLong
  | .tooManyTokens _ => .tooManyTokens

/-- The wording of a lexical error. -/
def LexError.message (e : LexError) : String := e.fault.message

/-- The code of a lexical error. -/
def LexError.code (e : LexError) : Code := e.fault.code

end Planfile
