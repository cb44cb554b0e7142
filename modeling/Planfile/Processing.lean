import Planfile.Language
import Planfile.Number.Whole
import Planfile.Parse.Matcher

/-!
# Planfile — processing plans

A plan goes through four stages: its file is read, its text is split into tokens, the grammar is
made, and the tokens are matched. The first stage that fails ends the processing. A session
processes plans one after the other and keeps the journal of what is reported.

Main results:

* `ProcessError.location?_parse` — only errors of the last stage have a place.
* `Session.file_within` — a session goes back to the file it was at.
-/

namespace Planfile

open Log (Event Journal FileContext)

/-! ## Errors -/

/-- Why a plan is not processed. -/
inductive ProcessError where
  | file (error : File.FileError)
  | lexical (error : LexError)
  | source (error : SourceError)
  | grammar (error : GrammarError)
  | parse (error : ParseError)
  | «internal» (message : String)
  /-- A plan whose includes never end. -/
  | endless
  deriving DecidableEq, Repr

namespace ProcessError

/-- The wording of an error. -/
def message : ProcessError → String
  | .file e => s!"File processing failed: {e.message}"
  | .lexical e => s!"Lexical analysis failed: {e.message}"
  | .source e => s!"Token source failed: {e.message}"
  | .grammar e => s!"Grammar construction failed: {e.message}"
  | .parse e => e.text
  | .internal message => s!"Pipeline error: {message}"
  | .endless => "Pipeline error: the plan does not end"

/-- The code of an error. -/
def code : ProcessError → Code
  | .file e => e.code
  | .lexical e => e.code
  | .source e => e.code
  | .grammar e => e.code
  | .parse e => e.code
  | .internal _ | .endless => .internalError

/-- The place of an error in a plan. -/
def location? : ProcessError → Option Location
  | .parse e => some e.location
  | _ => none

/-- Only errors of the last stage have a place. -/
theorem location?_parse {e : ProcessError} {l : Location} :
    e.location? = some l ↔ ∃ p, e = .parse p ∧ p.location = l := by
  cases e <;> simp [location?]

end ProcessError

/-! ## Results -/

/-- A processed plan. -/
structure Processed where
  project : Plan.Project
  /-- What is known about the file; a text that comes from no file has none. -/
  file : Option File.Metadata
  metrics : LexicalMetrics
  /-- The number of tokens that were read, over all files. -/
  tokenCount : Nat
  /-- The canonical paths of the included files, in order. -/
  included : List String

/-- What is reported when a plan has been processed; `elapsed` is the time it took, in
nanoseconds. -/
def Processed.event (p : Processed) (name : String) (elapsed : Nat) : Event :=
  (Event.success .parsed "TJP project parsed").detailed
    [("file", name), ("project", p.project.id),
      ("tasks", toString p.project.tasks.length),
      ("resources", toString p.project.resources.length),
      ("reports", toString p.project.reports.length),
      ("includes", toString p.included.length),
      ("duration_ms", Number.fixedText 2 elapsed 1000000),
      ("processing_rate_tokens_per_sec",
        toString (Number.roundDiv .toEven (p.tokenCount * 1000000000) (max elapsed 1)))]

/-! ## Stages -/

/-- Matches the tokens of a plan. -/
def matchPlan (grammar : GrammarTable) (files : File.System) (preferences : Settings.Preferences)
    (tokens : TokenSource) (journal : Journal) :
    Except ProcessError (Plan.Project × TokenSource) × Journal :=
  let (outcome, after) :=
    Matcher.plan ⟨grammar, files, preferences⟩ (.initial tokens journal)
  let result := match outcome with
    | .ok project => .ok (project, after.tokens)
    | .error (.error e) => .error (.parse e)
    | .error .outOfFuel => .error .endless
  (result, after.journal)

/-- What is reported while the grammar of plans is made. -/
def grammarEvents : List Event :=
  let areas := Language.areas.map fun (area, _) =>
    (Event.debug "Declaring rules").detail "area" area
  let outcome := match Language.grammar with
    | .ok table =>
      let patterns := table.rules.foldl (fun n r => n + r.patterns.length) 0
      (Event.success .grammarBuilt "Grammar table built").detailed
        [("rules", toString table.rules.size), ("patterns", toString patterns)]
    | .error e => (Event.error e.code "Grammar validation failed").detail "error" e.message
  areas ++ [outcome]

/-! ## Sessions -/

/-- What a session works with and what it has reported. -/
structure Session where
  preferences : Settings.Preferences
  files : File.System
  /-- Whether the grammar has been made; it is made once. -/
  grammarReady : Bool
  journal : Journal

namespace Session

/-- A session in which nothing has happened. -/
def start (preferences : Settings.Preferences) (files : File.System) (journal : Journal) :
    Session :=
  ⟨preferences, files, false, journal⟩

/-- The session with an event reported. -/
def record (s : Session) (e : Event) : Session := { s with journal := s.journal.record e }

/-- The session with events reported. -/
def recordAll (s : Session) (es : List Event) : Session :=
  { s with journal := s.journal.recordAll es }

/-- Works at a file, and goes back to the file of before. -/
def within (s : Session) (path : String) (work : Session → α × Session) : α × Session :=
  let r := work { s with journal := s.journal.enter ⟨path, 0⟩ }
  (r.1, { r.2 with journal := r.2.journal.backTo s.journal })

/-- Afterwards the session is at the file of before. -/
theorem file_within (s : Session) (path : String) (work : Session → α × Session) :
    (s.within path work).2.journal.file = s.journal.file := rfl

/-- The session with the grammar made. -/
def withGrammar (s : Session) : Session :=
  if s.grammarReady then s else { s.recordAll grammarEvents with grammarReady := true }

/-- Splits the text of the file `name` into tokens. -/
def lex (s : Session) (name content : String) : Except ProcessError (List SpannedToken) × Session :=
  let outcome := Lexer.lex s.preferences.lexical.countComments content.toList
  (outcome.mapError fun failure => .lexical failure.error,
    s.recordAll (Narration.lexEvents name content outcome))

/-- Goes on with a text whose tokens are known, if there is a grammar. -/
def finishWith (s : Session) (made : Except GrammarError GrammarTable) (tokens : List SpannedToken)
    (source : TokenSource) (file : Option File.Metadata) : Except ProcessError Processed × Session :=
  match made with
  | .error e => (.error (.grammar e), s)
  | .ok grammar =>
    let (outcome, journal) := matchPlan grammar s.files s.preferences source s.journal
    -- the metrics are those of the main file, the tokens those of all files
    let result := outcome.map fun (project, after) =>
      ⟨project, file, .ofTokens s.preferences.lexical.detailedMetrics tokens, after.consumed,
        after.included⟩
    (result, { s with journal })

/-- Goes on with a text whose tokens are known. -/
def finish (s : Session) (tokens : List SpannedToken) (source : TokenSource)
    (file : Option File.Metadata) : Except ProcessError Processed × Session :=
  s.withGrammar.finishWith Language.grammar tokens source file

/-- Processes a text that comes from no file. -/
def processText (s : Session) (name content : String) : Except ProcessError Processed × Session :=
  s.within name fun s =>
    match s.lex name content with
    | (.error e, s) => (.error e, s)
    | (.ok tokens, s) =>
      s.finish tokens (.ofStream (.ofTokens tokens (some ⟨name, content⟩)) name none) none

/-- Processes the main file of a plan. -/
def processFile (s : Session) (path : String) : Except ProcessError Processed × Session :=
  s.within path fun s =>
    let s := s.record ((Event.info "Starting TJP processing pipeline").detail "file" path)
    let reader := File.Reader.forProject s.preferences.files
    let outcome := File.read reader s.files path
    let s := s.recordAll (File.readEvents reader s.files path outcome)
    match outcome with
    | .error e => (.error (.file e), s)
    | .ok file =>
      let canonical := file.metadata.path
      match s.lex canonical file.content with
      | (.error e, s) => (.error e, s)
      | (.ok tokens, s) =>
        let stream := TokenStream.ofTokens tokens (some ⟨canonical, file.content⟩)
        -- messages name the file as the user does
        s.finish tokens (.ofStream stream path (some canonical)) (some file.metadata)

end Session

end Planfile
