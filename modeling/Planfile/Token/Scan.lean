import Planfile.Text.Blank
import Planfile.Token
import Planfile.Token.Error

/-!
# Planfile — the first token of a text

`scan` reads one token from a text that starts with no blank. It gives the token, the lexeme and
the text behind it; or it rejects the text and says how far it had read.

Every reader below splits its text: the lexeme it gives, followed by the rest it gives, is what it
was given. What a lexeme is depends on its first character alone, so `scan` is a choice among the
readers.
-/

namespace Planfile.Lexer

open Text.Digits (isDigit value valueUpTo? count32 integerBound)

/-- A token, the characters it was read from and the characters behind them. -/
structure Scanned where
  token : Token
  lexeme : List Char
  rest : List Char

/-- A fault and the characters read before it was certain. -/
structure Rejection where
  fault : LexFault
  consumed : List Char

/-- Reading a token or giving a reason. -/
abbrev Outcome := Except Rejection Scanned

/-! ## Comments -/

/-- Accepts a comment within the limit. -/
def commentOf (text rest : List Char) : Outcome :=
  if byteSize text ≤ Limits.commentLength then .ok ⟨.comment (String.ofList text), text, rest⟩
  else .error ⟨.commentTooLong (byteSize text), text⟩

/-- A comment that ends before the line does. -/
def scanLineComment (cs : List Char) : Outcome :=
  commentOf (cs.takeWhile (· != '\n')) (cs.dropWhile (· != '\n'))

/-- Splits a text after the first `*/`; the characters before it arrive in reverse. -/
def splitAtClose : List Char → List Char → Option (List Char × List Char)
  | seen, '*' :: '/' :: rest => some (('/' :: '*' :: seen).reverse, rest)
  | seen, c :: rest => splitAtClose (c :: seen) rest
  | _, [] => none

/-- A comment from `/*` to the next `*/`, of which `body` is all that follows the opening. -/
def scanBlockComment (body : List Char) : Outcome :=
  match splitAtClose ['*', '/'] body with
  | some (text, rest) => commentOf text rest
  | none => .error ⟨.unterminatedComment, []⟩

/-! ## Strings -/

/-- What an escaped character stands for; the backslash stays where it escapes nothing. -/
def unescape (quote c : Char) : List Char :=
  if c = 'n' then ['\n']
  else if c = 't' then ['\t']
  else if c = quote ∨ c = '\\' then [c]
  else ['\\', c]

/-- Reads up to the closing quote. `read` holds the lexeme so far and `content` the value so far,
both in reverse, and `size` is the size of the value, which may not pass the limit. -/
def scanStringBody (quote : Char) : List Char → List Char → Nat → List Char → Outcome
  | read, _, _, [] => .error ⟨.unterminatedString, read.reverse⟩
  | read, content, size, c :: rest =>
    if c = quote then
      .ok ⟨.string (String.ofList content.reverse), (c :: read).reverse, rest⟩
    else if c = '\\' then
      match rest with
      | [] => .error ⟨.unterminatedString, (c :: read).reverse⟩
      | d :: rest =>
        -- the value has the escaped character, the lexeme the backslash as well
        let piece := unescape quote d
        let size := size + byteSize piece
        if size ≤ Limits.stringSize then
          scanStringBody quote (d :: c :: read) (piece.reverse ++ content) size rest
        else .error ⟨.stringTooLarge size, (d :: c :: read).reverse⟩
    else if size + c.utf8Size ≤ Limits.stringSize then
      scanStringBody quote (c :: read) (c :: content) (size + c.utf8Size) rest
    else .error ⟨.stringTooLarge (size + c.utf8Size), (c :: read).reverse⟩

/-- A string after its opening quote. -/
def scanString (quote : Char) (body : List Char) : Outcome :=
  scanStringBody quote [quote] [] 0 body

/-! ## Numbers, dates and times -/

/-- Whether a text starts with a digit. -/
def startsWithDigit (cs : List Char) : Bool := cs.head?.any isDigit

/-- An integer within the range of the language. -/
def integerOf (digits rest : List Char) : Outcome :=
  match valueUpTo? integerBound digits with
  | some n => .ok ⟨.integer n, digits, rest⟩
  | none => .error ⟨.invalidNumber (String.ofList digits), digits⟩

/-- The number with the given digits before and after the point. -/
def floatOf (whole fraction : List Char) : Float :=
  Float.ofScientific (value (whole ++ fraction)) true fraction.length

/-- Seconds after midnight; minutes have two digits, and nothing comes after `24:00`. -/
def secondsOfDay? (hours minutes : List Char) : Option Nat :=
  if minutes.length ≠ 2 then none
  else
    match valueUpTo? count32 hours, valueUpTo? count32 minutes with
    | some h, some m =>
      if 60 ≤ m ∨ 24 < h ∨ (h = 24 ∧ m ≠ 0) then none else some (h * 3600 + m * 60)
    | _, _ => none

/-- Refuses a date or time with the text read so far. -/
def badDate (text : List Char) : Outcome := .error ⟨.invalidDate (String.ofList text), text⟩

/-- A time of day, of which `rest` is what follows the colon. -/
def scanTime (hours rest : List Char) : Outcome :=
  let minutes := rest.takeWhile isDigit
  let text := hours ++ ':' :: minutes
  match secondsOfDay? hours minutes with
  | some seconds => .ok ⟨.time seconds, text, rest.dropWhile isDigit⟩
  | none => badDate text

/-- The time of day behind a date, if `rest` goes on with `-` digits `:`; what follows the colon
comes third. -/
def clockAfterDate? (rest : List Char) : Option (List Char × List Char) :=
  match rest with
  | '-' :: cs =>
    match cs.takeWhile isDigit, cs.dropWhile isDigit with
    | [], _ => none
    | hours, ':' :: after => some (hours, after)
    | _, _ => none
  | _ => none

/-- The seconds behind hours and minutes, if a colon and a digit follow. -/
def secondsAfterClock? (rest : List Char) : Option (List Char × List Char) :=
  match rest with
  | ':' :: cs =>
    if startsWithDigit cs then some (cs.takeWhile isDigit, cs.dropWhile isDigit) else none
  | _ => none

/-- The date token of a text, if all components are in range. -/
def dateOf (year : List Char) (month day hour minute second : List Char) (text rest : List Char) :
    Outcome :=
  match valueUpTo? count32 hour, valueUpTo? count32 minute, valueUpTo? count32 second with
  | some h, some m, some s =>
    match Calendar.DateTime.ofParts? (value year) (value month) (value day) h m s with
    | some d => .ok ⟨.date d, text, rest⟩
    | none => badDate text
  | _, _, _ => badDate text

/-- A date behind year, month and day, with the time of day that may follow. A hyphen that starts
no time of day is left for the grammar. -/
def scanClock (year month day text rest : List Char) : Outcome :=
  match clockAfterDate? rest with
  | none => dateOf year month day ['0'] ['0'] ['0'] text rest
  | some (hours, rest) =>
    let minutes := rest.takeWhile isDigit
    let rest := rest.dropWhile isDigit
    let text := text ++ '-' :: hours ++ ':' :: minutes
    match secondsAfterClock? rest with
    | none => dateOf year month day hours minutes ['0'] text rest
    | some (seconds, rest) =>
      dateOf year month day hours minutes seconds (text ++ ':' :: seconds) rest

/-- A date after its year and the hyphen behind it. -/
def scanDate (year rest : List Char) : Outcome :=
  let month := rest.takeWhile isDigit
  let rest := rest.dropWhile isDigit
  let text := year ++ '-' :: month
  match valueUpTo? count32 month, rest with
  | some m, '-' :: rest =>
    let day := rest.takeWhile isDigit
    let rest := rest.dropWhile isDigit
    let text := text ++ '-' :: day
    match valueUpTo? count32 day with
    | some d =>
      -- a day that does not exist is refused before a time of day is looked for
      match Calendar.DateTime.ofParts? (value year) m d 0 0 0 with
      | some _ => scanClock year month day text rest
      | none => badDate text
    | none => badDate text
  | _, _ => badDate text

/-- What a text that starts with a digit holds: what follows the digits decides. -/
def scanNumber (cs : List Char) : Outcome :=
  let digits := cs.takeWhile isDigit
  match cs.dropWhile isDigit with
  | '-' :: rest =>
    if digits.length = 4 ∧ startsWithDigit rest then scanDate digits rest
    else integerOf digits ('-' :: rest)
  | ':' :: rest =>
    if startsWithDigit rest then scanTime digits rest else integerOf digits (':' :: rest)
  | '.' :: rest =>
    if startsWithDigit rest then
      let fraction := rest.takeWhile isDigit
      -- only a digit makes the point part of the number
      .ok ⟨.float (floatOf digits fraction), digits ++ '.' :: fraction, rest.dropWhile isDigit⟩
    else integerOf digits ('.' :: rest)
  | rest => integerOf digits rest

/-! ## Identifiers -/

/-- Whether an identifier can start with the character. -/
def isIdStart (c : Char) : Bool := c.isAlpha || c == '_'

/-- Whether an identifier can go on with the character. -/
def isIdContinue (c : Char) : Bool := c.isAlphanum || c == '_'

/-- Whether an identifier starts here. -/
def startsId (cs : List Char) : Bool := cs.head?.any isIdStart

/-- The longest start of a text made of identifier characters and of dots before an identifier.
The first list is what has been read, in reverse. -/
def splitDotted : List Char → List Char → List Char × List Char
  | seen, [] => (seen.reverse, [])
  | seen, c :: rest =>
    if isIdContinue c || (c == '.' && startsId rest) then splitDotted (c :: seen) rest
    else (seen.reverse, c :: rest)

/-- Refuses an identifier above the limit. -/
def withinIdLimit (text : List Char) (otherwise : Outcome) : Outcome :=
  if Limits.identifierLength < byteSize text then
    .error ⟨.identifierTooLong (byteSize text), text⟩
  else otherwise

/-- An identifier, a dotted path or a label; only a single name takes the colon behind it. -/
def scanIdentifier (cs : List Char) : Outcome :=
  let (text, rest) := splitDotted [] cs
  let name := String.ofList text
  withinIdLimit text <|
    -- the colon behind a path is left for the grammar
    if text.contains '.' then .ok ⟨.absoluteId name, text, rest⟩
    else match rest with
      | ':' :: rest => .ok ⟨.idWithColon name, text ++ [':'], rest⟩
      | rest => .ok ⟨.id name, text, rest⟩

/-- Bangs and the path behind them. -/
def scanRelative (cs : List Char) : Outcome :=
  let bangs := cs.takeWhile (· == '!')
  let rest := cs.dropWhile (· == '!')
  if startsId rest then
    let (path, rest) := splitDotted [] rest
    let text := bangs ++ path
    withinIdLimit text (.ok ⟨.relativeId (String.ofList text), text, rest⟩)
  else .error ⟨.invalidCharacter '!', bangs⟩

/-! ## The first token -/

/-- A mark: `>` and `<` take an equals sign behind them. -/
def scanMark (c : Char) (rest : List Char) : Outcome :=
  match c, rest with
  | '>', '=' :: rest => .ok ⟨.mark .greaterOrEqual, ['>', '='], rest⟩
  | '<', '=' :: rest => .ok ⟨.mark .lessOrEqual, ['<', '='], rest⟩
  | c, rest =>
    match Mark.ofChar? c with
    | some m => .ok ⟨.mark m, [c], rest⟩
    | none => .error ⟨.invalidCharacter c, []⟩

/-- The first token of the text `c :: rest`, chosen by its first character. -/
def scan (c : Char) (rest : List Char) : Outcome :=
  if c = '#' then scanLineComment (c :: rest)
  else if c = '/' then
    match rest with
    | '/' :: _ => scanLineComment (c :: rest)
    | '*' :: body => scanBlockComment body
    | _ => .error ⟨.invalidCharacter c, []⟩
  else if c = '"' ∨ c = '\'' then scanString c rest
  else if isDigit c then scanNumber (c :: rest)
  else if c = '!' then scanRelative (c :: rest)
  else if isIdStart c then scanIdentifier (c :: rest)
  else scanMark c rest

end Planfile.Lexer
