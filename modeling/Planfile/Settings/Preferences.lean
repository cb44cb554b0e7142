import Planfile.Log.Event

/-!
# Planfile — preferences

What a user can choose about a run. Each choice has a default and can be set by a variable of the
environment; a variable with a value that cannot be read keeps the default.

Main results:

* `Preferences.ofEnvironment_congr` — no variable counts besides those that are listed.
-/

namespace Planfile.Settings

/-- The variables that are set. -/
abbrev Environment := List (String × String)

/-- A truth value is written `true` or `false`, and in no other way. -/
def flag (env : Environment) (name : String) (default : Bool) : Bool :=
  match env.lookup name with
  | some "true" => true
  | some "false" => false
  | _ => default

/-- How files are read. -/
structure FilePreferences where
  /-- Whether a file must be named as a plan file. -/
  requireExtension : Bool
  /-- Whether size and number of characters of each file are reported. -/
  performanceLogging : Bool
  deriving DecidableEq, Repr

/-- How texts are split into tokens. -/
structure LexicalPreferences where
  /-- Whether tokens are counted by class. -/
  detailedMetrics : Bool
  /-- Whether comments count toward the limit on tokens. -/
  countComments : Bool
  deriving DecidableEq, Repr

/-- What is reported while a plan is matched. -/
structure ParserPreferences where
  warnOnAmbiguity : Bool
  logExtensions : Bool
  logIncludes : Bool
  deriving DecidableEq, Repr

/-- What is logged and how. -/
structure LoggingPreferences where
  structured : Bool
  console : Bool
  level : Log.Level
  /-- Whether events are told the file that is being worked on. -/
  fileContext : Bool
  deriving DecidableEq, Repr

/-- All choices. -/
structure Preferences where
  files : FilePreferences
  lexical : LexicalPreferences
  parser : ParserPreferences
  logging : LoggingPreferences
  deriving DecidableEq, Repr

/-- The preferences that an environment asks for. -/
def Preferences.ofEnvironment (env : Environment) : Preferences where
  files := {
    requireExtension := flag env "TJP_REQUIRE_TJP_EXTENSION" false
    performanceLogging := flag env "TJP_ENABLE_PERFORMANCE_LOGGING" true }
  lexical := {
    detailedMetrics := flag env "TJP_LEXICAL_DETAILED_METRICS" true
    countComments := flag env "TJP_LEXICAL_INCLUDE_COMMENTS" false }
  parser := {
    warnOnAmbiguity := flag env "TJP_PARSER_WARN_ON_AMBIGUITY" true
    logExtensions := flag env "TJP_PARSER_LOG_EXTENSIONS" true
    logIncludes := flag env "TJP_PARSER_LOG_INCLUDES" true }
  logging := {
    structured := flag env "TJP_LOGGING_USE_STRUCTURED" false
    console := flag env "TJP_LOGGING_ENABLE_CONSOLE" false
    level := ((env.lookup "TJP_LOGGING_MIN_LEVEL").bind Log.Level.ofWord?).getD .info
    fileContext := flag env "TJP_LOGGING_INCLUDE_FILE_CONTEXT" true }

/-- The names of the variables that count. -/
def variableNames : List String := [
  "TJP_REQUIRE_TJP_EXTENSION", "TJP_ENABLE_PERFORMANCE_LOGGING",
  "TJP_LEXICAL_DETAILED_METRICS", "TJP_LEXICAL_INCLUDE_COMMENTS",
  "TJP_PARSER_WARN_ON_AMBIGUITY", "TJP_PARSER_LOG_EXTENSIONS", "TJP_PARSER_LOG_INCLUDES",
  "TJP_LOGGING_USE_STRUCTURED", "TJP_LOGGING_ENABLE_CONSOLE", "TJP_LOGGING_MIN_LEVEL",
  "TJP_LOGGING_INCLUDE_FILE_CONTEXT"]

/-- No variable counts besides those that are listed. -/
theorem Preferences.ofEnvironment_congr {env other : Environment}
    (h : ∀ name ∈ variableNames, env.lookup name = other.lookup name) :
    Preferences.ofEnvironment env = Preferences.ofEnvironment other := by
  simp only [variableNames, List.forall_mem_cons] at h
  simp [Preferences.ofEnvironment, flag, h]

/-- The preferences of an empty environment. -/
def Preferences.default : Preferences := .ofEnvironment []

/-- The stored and shown name of a level. -/
def levelName : Log.Level → String
  | .error => "Error"
  | .warning => "Warning"
  | .info => "Info"
  | .debug => "Debug"

/-- What is logged and how, as a stored value. -/
def LoggingPreferences.stored (p : LoggingPreferences) : Json := .object [
  ("use_structured_logging", .bool p.structured),
  ("enable_console_logging", .bool p.console),
  ("min_log_level", .text (levelName p.level)),
  ("include_file_context", .bool p.fileContext)]

/-- The console at its most talkative. -/
def LoggingPreferences.development : LoggingPreferences := ⟨false, true, .debug, true⟩

/-- The preferences as a stored value. -/
def Preferences.stored (p : Preferences) : Json := .object [
  ("file_processor", .object [
    ("require_tjp_extension", .bool p.files.requireExtension),
    ("enable_performance_logging", .bool p.files.performanceLogging)]),
  ("lexical", .object [
    ("collect_detailed_metrics", .bool p.lexical.detailedMetrics),
    ("include_comments_in_counts", .bool p.lexical.countComments)]),
  ("parser", .object [
    ("warn_on_ambiguity", .bool p.parser.warnOnAmbiguity),
    ("log_extensions", .bool p.parser.logExtensions),
    ("log_includes", .bool p.parser.logIncludes)]),
  ("logging", p.logging.stored)]

/-- A summary of what is logged and how. -/
def LoggingPreferences.summary (p : LoggingPreferences) : String :=
  let truth (b : Bool) : String := if b then "true" else "false"
  String.intercalate "\n" [
    "Logging Configuration:",
    s!"- Log buffer size: {Limits.logBuffer}",
    s!"- Max message length: {Limits.logMessageLength}",
    s!"- Min log level: {levelName p.level}",
    s!"- Structured logging: {truth p.structured}",
    s!"- Console logging: {truth p.console}",
    s!"- Include file context: {truth p.fileContext}"]

end Planfile.Settings
