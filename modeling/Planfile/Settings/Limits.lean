/-!
# Planfile — limits

Bounds on what is read and kept. They hold for every run and are no matter of preference.

Main results:

* `Limits.leaveRoomForLog_eq_true` — the log has room enough.
-/

namespace Planfile.Limits

/-- The profile that the limits belong to. -/
def profile : String := "development"

/-- The directory of the profile. -/
def directory : String := "config"

/-- Where the limits come from. -/
def origin : String := s!"Generated from {directory}/{profile}.toml"

/-- The size of a file in bytes. -/
def fileSize : Nat := 104857600

/-- The size above which a file counts as large. -/
def largeFile : Nat := 10485760

/-- The number of lines of a file. -/
def lineCount : Nat := 2000000

/-- The size of a string's value in bytes. -/
def stringSize : Nat := 1048576

/-- The length of an identifier in bytes. -/
def identifierLength : Nat := 256

/-- The length of a comment in bytes, delimiters included. -/
def commentLength : Nat := 1048576

/-- The number of tokens of a file. -/
def tokenCount : Nat := 5000000

/-- How deeply rules nest while a plan is matched. -/
def parseDepth : Nat := 1000

/-- How many included files are open at once. -/
def includeDepth : Nat := 64

/-- How many rule references are followed to find out how a rule starts. -/
def firstSetDepth : Nat := 64

/-- The number of log events kept in memory. -/
def logBuffer : Nat := 10000

/-- The length of a log message in bytes. -/
def logMessageLength : Nat := 4096

/-- All limits: those of files, texts, the grammar and the log. -/
def all : List Nat := [
  fileSize, largeFile, lineCount,
  stringSize, identifierLength, commentLength, tokenCount,
  parseDepth, includeDepth, firstSetDepth,
  logBuffer, logMessageLength]

/-- Whether the log has room enough to be of use. -/
def leaveRoomForLog : Bool := 100 ≤ logBuffer && 80 ≤ logMessageLength

/-- The log has room enough. -/
theorem leaveRoomForLog_eq_true : leaveRoomForLog = true := by decide

end Planfile.Limits
