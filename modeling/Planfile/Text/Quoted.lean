import Planfile.Text.Unprintable

/-!
# Planfile — quoted text

Two ways to put a text between double quotes: the one of stored projects and structured logs, which
escapes quotes, backslashes and control characters, and the one in which a message shows a file
extension.
-/

namespace Planfile.Text.Quoted

/-- The lower-case hexadecimal digits of a number, at least `width` of them. -/
def hex (width n : Nat) : List Char :=
  let digits := Nat.toDigits 16 n
  List.replicate (width - digits.length) '0' ++ digits

/-- The escape of a character in stored text. -/
def escapeStored (c : Char) : List Char :=
  if c = '"' then ['\\', '"']
  else if c = '\\' then ['\\', '\\']
  else if c = '\n' then ['\\', 'n']
  else if c = '\r' then ['\\', 'r']
  else if c = '\t' then ['\\', 't']
  else if c.toNat = 8 then ['\\', 'b']
  else if c.toNat = 12 then ['\\', 'f']
  else if c.toNat < 32 then ['\\', 'u'] ++ hex 4 c.toNat
  else [c]

/-- A text as it is stored. -/
def stored (s : String) : String :=
  s.foldl (fun out c => (escapeStored c).foldl String.push out) "\"" ++ "\""

/-- The escape of a character in a message. -/
def escapeShown (c : Char) : List Char :=
  if c = '"' then ['\\', '"']
  else if c = '\\' then ['\\', '\\']
  else if c = '\n' then ['\\', 'n']
  else if c = '\r' then ['\\', 'r']
  else if c = '\t' then ['\\', 't']
  else if c.toNat = 0 then ['\\', '0']
  else if !isPrintable c then ['\\', 'u', '\x7b'] ++ hex 1 c.toNat ++ ['\x7d']
  else [c]

/-- A text as a message shows it. -/
def shown (s : String) : String :=
  s.foldl (fun out c => (escapeShown c).foldl String.push out) "\"" ++ "\""

end Planfile.Text.Quoted
