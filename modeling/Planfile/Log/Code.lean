/-!
# Planfile — codes of messages

Every error, warning and report of success has a code. For errors and warnings a registry says how
grave they are and what can be done; a code outside of the registry is taken to be recoverable and
of medium severity.

Main results:

* `registry_codes_nodup` — no code is registered twice.
-/

namespace Planfile

/-- The code of a message. -/
structure Code where
  text : String
  deriving DecidableEq, Repr

namespace Code

/-! ## Errors -/

def internalError : Code := ⟨"ERR001"⟩
def initializationFailure : Code := ⟨"ERR002"⟩

def fileNotFound : Code := ⟨"E005"⟩
def invalidExtension : Code := ⟨"E006"⟩
def fileTooLarge : Code := ⟨"E007"⟩
def emptyFile : Code := ⟨"E008"⟩
def permissionDenied : Code := ⟨"E009"⟩
def invalidEncoding : Code := ⟨"E010"⟩
def ioError : Code := ⟨"E011"⟩
def invalidPath : Code := ⟨"E012"⟩

def invalidCharacter : Code := ⟨"E020"⟩
def unterminatedString : Code := ⟨"E021"⟩
def invalidNumber : Code := ⟨"E022"⟩
def identifierTooLong : Code := ⟨"E023"⟩
def stringTooLarge : Code := ⟨"E024"⟩
def invalidDate : Code := ⟨"E025"⟩
def commentTooLong : Code := ⟨"E026"⟩
def tooManyTokens : Code := ⟨"E027"⟩
def unterminatedComment : Code := ⟨"E028"⟩

def unexpectedToken : Code := ⟨"E040"⟩
def ruleExpected : Code := ⟨"E041"⟩
def tokenClassMismatch : Code := ⟨"E042"⟩
def unknownAttribute : Code := ⟨"E043"⟩
def maxParseDepth : Code := ⟨"E044"⟩
def includeFailed : Code := ⟨"E045"⟩

def semanticError : Code := ⟨"E070"⟩
def extensionError : Code := ⟨"E071"⟩

def duplicateRule : Code := ⟨"E090"⟩
def undefinedRule : Code := ⟨"E091"⟩
def ambiguousAlternatives : Code := ⟨"E092"⟩
def leftRecursion : Code := ⟨"E093"⟩
def invalidSymbol : Code := ⟨"E094"⟩
def emptyPattern : Code := ⟨"E095"⟩
def noProgress : Code := ⟨"E096"⟩
def valueMismatch : Code := ⟨"E097"⟩

/-! ## Warnings -/

def ambiguousMatch : Code := ⟨"W001"⟩
def unsupportedFunction : Code := ⟨"W002"⟩

/-! ## Success -/

def initialized : Code := ⟨"I004"⟩
def fileProcessed : Code := ⟨"I006"⟩
def tokenized : Code := ⟨"I020"⟩
def grammarBuilt : Code := ⟨"I030"⟩
def parsed : Code := ⟨"I040"⟩
def extensionApplied : Code := ⟨"I041"⟩
def includeProcessed : Code := ⟨"I042"⟩

end Code

/-! ## The registry -/

/-- How grave an error is. -/
inductive Severity where
  | critical
  | high
  | medium
  | low
  deriving DecidableEq, Repr

/-- The name of a severity. -/
def Severity.name : Severity → String
  | .critical => "Critical"
  | .high => "High"
  | .medium => "Medium"
  | .low => "Low"

/-- What is known about a code. -/
structure CodeEntry where
  code : Code
  category : String
  severity : Severity
  recoverable : Bool
  requiresHalt : Bool
  description : String
  action : String
  deriving DecidableEq, Repr

/-- An error that ends the run. -/
private def fatal (category : String) (severity : Severity) (code : Code)
    (description action : String) : CodeEntry :=
  ⟨code, category, severity, false, true, description, action⟩

/-- An entry after which the run goes on. -/
private def harmless (category : String) (code : Code) (description action : String) : CodeEntry :=
  ⟨code, category, .low, true, false, description, action⟩

/-- A defect of a grammar, which only its author can mend. -/
private def defect (code : Code) (description : String) : CodeEntry :=
  fatal "Grammar" .critical code description "Fix the rule declarations in the registration list"

/-- All errors and warnings. -/
def codeRegistry : List CodeEntry := [
  fatal "System" .critical .internalError "Critical internal system error"
    "File a bug report with the input that triggered it",
  fatal "System" .critical .initializationFailure "System initialization failure"
    "Check logging and configuration setup",
  fatal "FileProcessing" .medium .fileNotFound "File not found at specified path"
    "Check file path and ensure file exists",
  harmless "FileProcessing" .invalidExtension "File does not have a .tjp or .tji extension"
    "Rename the file or disable the extension requirement",
  fatal "FileProcessing" .medium .fileTooLarge "File exceeds maximum size limit"
    "Split the project into included files or raise the limit",
  fatal "FileProcessing" .medium .emptyFile "File is empty when content expected"
    "Provide a file with content or check file integrity",
  fatal "FileProcessing" .medium .permissionDenied "Permission denied accessing file"
    "Check file permissions and user access rights",
  fatal "FileProcessing" .medium .invalidEncoding "Invalid UTF-8 encoding in file"
    "Convert file to UTF-8 encoding",
  fatal "FileProcessing" .medium .ioError "I/O error during file operation"
    "Check disk space, permissions, and file system integrity",
  fatal "FileProcessing" .medium .invalidPath "Invalid file path provided"
    "Provide a valid file path",
  fatal "Lexical" .medium .invalidCharacter "Invalid character found in source text"
    "Remove the character or quote it inside a string",
  fatal "Lexical" .medium .unterminatedString "String literal not properly terminated"
    "Add the closing quote to the string literal",
  fatal "Lexical" .low .invalidNumber "Number format is invalid" "Fix the number format",
  fatal "Lexical" .low .identifierTooLong "Identifier exceeds maximum allowed length"
    "Shorten the identifier",
  fatal "Lexical" .medium .stringTooLarge "String literal exceeds maximum size limit"
    "Reduce string size or raise the limit",
  fatal "Lexical" .medium .invalidDate "Date or time literal is not a valid calendar value"
    "Use YYYY-MM-DD[-HH:MM[:SS]] with a real calendar date",
  fatal "Lexical" .medium .commentTooLong "Comment exceeds maximum allowed length"
    "Reduce comment length or break into multiple comments",
  fatal "Lexical" .high .tooManyTokens "File contains too many tokens"
    "Split the project into included files or raise the limit",
  fatal "Lexical" .medium .unterminatedComment "Block comment not terminated"
    "Close the comment with */",
  fatal "Syntax" .medium .unexpectedToken "Unexpected token during parsing"
    "Check the token sequence against the TJP syntax",
  fatal "Syntax" .medium .ruleExpected "A required rule found no matching alternative"
    "Insert the missing construct named in the message",
  fatal "Syntax" .medium .tokenClassMismatch "Token of the wrong class"
    "Provide a value of the expected kind",
  fatal "Syntax" .medium .unknownAttribute "Attribute keyword not known in this context"
    "Check spelling or declare the attribute with 'extend' first",
  fatal "Syntax" .high .maxParseDepth "Maximum parse depth exceeded"
    "Reduce nesting depth or simplify structure",
  fatal "Syntax" .high .includeFailed "Included file could not be processed"
    "Check the include path, nesting depth and recursion",
  fatal "Semantic" .medium .semanticError "Semantic check in a rule action failed"
    "Fix the value reported in the message",
  fatal "Semantic" .medium .extensionError "User-defined attribute could not be declared"
    "Pick an unused capitalised attribute ID",
  defect .duplicateRule "Rule declared more than once",
  defect .undefinedRule "Rule reference names an undeclared rule",
  defect .ambiguousAlternatives "Alternatives of a rule share a first symbol",
  defect .leftRecursion "Rule is left recursive",
  defect .invalidSymbol "Symbol specification is malformed",
  defect .emptyPattern "Pattern has no symbols",
  defect .noProgress "Repeatable rule matched without consuming input",
  defect .valueMismatch "Rule action received a value of the wrong shape",
  harmless "Warning" .ambiguousMatch
    "Several alternatives accept the next token; first declared one used"
    "Make the alternatives start with distinct symbols",
  harmless "Warning" .unsupportedFunction "Function call operand is accepted but has no effect"
    "Replace the function call with a flag or attribute operand"]

/-- A code is registered once. -/
theorem registry_codes_nodup : (codeRegistry.map (·.code)).Nodup := by decide

namespace Code

/-- What the registry says about a code. -/
def entry? (c : Code) : Option CodeEntry := codeRegistry.find? (·.code == c)

/-- The codes of lexical errors. -/
def lexical : List Code := [
  invalidCharacter, unterminatedString, invalidNumber, identifierTooLong, stringTooLarge,
  invalidDate, commentTooLong, tooManyTokens, unterminatedComment]

/-- Whether a code is registered. -/
def isKnown (c : Code) : Bool := c.entry?.isSome

/-- The registry knows every code of the lexer. -/
theorem all_isKnown_lexical : lexical.all isKnown = true := by decide

/-- The severity of a code. -/
def severity (c : Code) : Severity := (c.entry?.map (·.severity)).getD .medium

/-- Whether a run can go on. -/
def recoverable (c : Code) : Bool := (c.entry?.map (·.recoverable)).getD true

/-- Whether a run has to stop. -/
def requiresHalt (c : Code) : Bool := (c.entry?.map (·.requiresHalt)).getD false

/-- What a code means. -/
def description (c : Code) : String := (c.entry?.map (·.description)).getD "Unknown error"

/-- What can be done. -/
def action (c : Code) : String := (c.entry?.map (·.action)).getD "No specific action available"

/-- The part of the work that a code belongs to. -/
def category (c : Code) : String := (c.entry?.map (·.category)).getD "Unknown"

end Code

end Planfile
