import Planfile.File.System
import Planfile.Number.Whole
import Planfile.Settings.Preferences
import Planfile.Text.Blank
import Planfile.Text.LowerCase

/-!
# Planfile — reading files

A file is read only if its path leads to a file of bearable size, which holds text of bearable
length. Faults are looked for in one order: a missing file comes before a path that is no file, then
size, emptiness, extension, encoding and number of lines.

Main results:

* `read_ok_size` — what is read is within the limit on size.
-/

namespace Planfile.File

/-! ## What is known about a file -/

/-- What is known about a file besides its text. -/
structure Metadata where
  /-- The canonical path. -/
  path : String
  size : Nat
  /-- The extension in lower case. -/
  extension : Option String
  lineCount : Nat
  deriving DecidableEq, Repr

namespace Metadata

/-- Whether the file is named as a plan file or a part of one. -/
def isPlanFile (m : Metadata) : Bool := m.extension == some "tjp" || m.extension == some "tji"

/-- Whether the file counts as large. -/
def isLarge (m : Metadata) : Bool := Limits.largeFile < m.size

/-- The units of sizes above the byte. -/
def sizeUnits : List String := ["KB", "MB", "GB"]

/-- A size with two decimal places in the largest unit of which it holds one, bytes as they are. -/
def sizeText (m : Metadata) : String :=
  match Number.read (Float.ofNat m.size) with
  | .finite _ magnitude =>
    let (num, den) := magnitude.fraction
    let steps := ((List.range' 1 3).filter fun k => den * Nat.pow 1024 k ≤ num).length
    match steps, sizeUnits[steps - 1]? with
    | k + 1, some unit => s!"{Number.fixedText 2 num (den * Nat.pow 1024 (k + 1))} {unit}"
    | _, _ => s!"{m.size} B"
  | _ => s!"{m.size} B"

end Metadata

/-- The text of a file and what else is known about it. -/
structure SourceFile where
  content : String
  metadata : Metadata
  deriving DecidableEq

namespace SourceFile

/-- The number of characters. -/
def charCount (f : SourceFile) : Nat := f.content.length

/-- Whether there is nothing but blanks. -/
def isBlank (f : SourceFile) : Bool := f.content.all Text.isBlank

end SourceFile

/-- The number of lines of a text; a line feed at the end starts no further line. -/
def countLines (content : String) : Nat :=
  let (feeds, last) :=
    content.toList.foldl (fun (n, _) c => (if c = '\n' then n + 1 else n, c)) (0, '\n')
  if last = '\n' then feeds else feeds + 1

/-! ## Reading -/

/-- How a file is read. -/
structure Reader where
  requireExtension : Bool
  performanceLogging : Bool
  /-- Whether a file without content is read; parts of a plan may be empty. -/
  allowEmpty : Bool
  deriving DecidableEq, Repr

/-- How the main file of a plan is read. -/
def Reader.forProject (p : Settings.FilePreferences) : Reader :=
  ⟨p.requireExtension, p.performanceLogging, false⟩

/-- How an included file is read. -/
def Reader.forInclude (p : Settings.FilePreferences) : Reader :=
  { Reader.forProject p with allowEmpty := true }

/-- The fault of a file for which something is refused. -/
def Refusal.fault (r : Refusal) (canonical attempt : String) : FileError :=
  if r.denied then .permissionDenied canonical else .io s!"{attempt} '{canonical}': {r.message}"

/-- The file that a path leads to: its canonical path, its size and its content, if it is given. -/
def find (fs : System) (path : String) :
    Except FileError (String × Nat × Except Refusal ByteArray) :=
  if path = "" then .error (.invalidPath path)
  else match fs.lookup path with
    | none => .error (.notFound path)
    | some ⟨_, .directory⟩ => .error (.invalidPath path)
    | some ⟨canonical, .file content⟩ => .ok (canonical, content.size, .ok content)
    | some ⟨canonical, .refused query r⟩ =>
      match query with
      | .path => .error (.io s!"Failed to resolve path '{path}': {r.message}")
      | .metadata => .error (r.fault canonical "Failed to read metadata for")
      | .content size => .ok (canonical, size, .error r)

/-- What is known about a file before its text is read. -/
def metadataOf (canonical : String) (size : Nat) : Metadata :=
  ⟨canonical, size, (Path.extension? canonical).map Text.lowerCase, 0⟩

/-- Reads the file that a path leads to. -/
def read (r : Reader) (fs : System) (path : String) : Except FileError SourceFile := do
  let (canonical, size, given) ← find fs path
  let metadata := metadataOf canonical size
  -- a file that is too large is not looked into
  if Limits.fileSize < metadata.size then throw (.tooLarge metadata.size Limits.fileSize)
  if metadata.size = 0 ∧ ¬r.allowEmpty then throw (.empty path)
  if r.requireExtension ∧ ¬metadata.isPlanFile then throw (.invalidExtension metadata.extension)
  match given with
  | .error r => throw (r.fault canonical "Failed to read file")
  | .ok content =>
    match String.fromUTF8? content with
    | none => throw (.invalidEncoding canonical)
    | some text =>
      let lines := countLines text
      if Limits.lineCount < lines then throw (.tooManyLines lines Limits.lineCount)
      return ⟨text, { metadata with lineCount := lines }⟩

/-- What is read is within the limit on size. -/
theorem read_ok_size {r : Reader} {fs : System} {path : String} {f : SourceFile}
    (h : read r fs path = .ok f) : f.metadata.size ≤ Limits.fileSize := by
  unfold read at h
  cases hf : find fs path with
  | error e => simp [hf, bind, Except.bind] at h
  | ok found =>
    obtain ⟨canonical, size, given⟩ := found
    simp only [hf, bind, Except.bind] at h
    split at h
    · simp [throw, throwThe, MonadExceptOf.throw] at h
    · next hs =>
      simp only [pure, Except.pure] at h
      split at h
      · simp [throw, throwThe, MonadExceptOf.throw] at h
      · split at h
        · simp [throw, throwThe, MonadExceptOf.throw] at h
        · split at h
          · simp [throw, throwThe, MonadExceptOf.throw] at h
          · split at h
            · simp [throw, throwThe, MonadExceptOf.throw] at h
            · split at h
              · simp [throw, throwThe, MonadExceptOf.throw] at h
              · cases h
                simpa using hs

/-! ## Reporting -/

/-- The heading under which it is reported that a file is not given, and the values that go with it. -/
def unreadEvent (fs : System) (path : String) (code : Code) : Log.Event :=
  match fs.refusal? path with
  | some (_, .path, r) =>
    (Log.Event.error code "Failed to canonicalize path").detailed
      [("path", path), ("io_error", r.message)]
  | some (canonical, .metadata, r) =>
    (Log.Event.error code "Failed to read file metadata").detailed
      [("path", canonical), ("io_error", r.message)]
  | some (_, .content _, r) =>
    (Log.Event.error code "Failed to read file").detailed
      [("file", path), ("io_error", r.message)]
  | none =>
    (Log.Event.error code "Failed to read file").detailed
      [("file", path), ("io_error", "stream did not contain valid UTF-8")]

/-- The heading under which a fault is reported, and the values that go with it. -/
def FileError.event (fs : System) (path : String) : FileError → Log.Event
  | .notFound p => (Log.Event.error .fileNotFound "File not found").detail "path" p
  | .invalidPath p =>
    if p = "" then Log.Event.error .invalidPath "Empty file path provided"
    else (Log.Event.error .invalidPath "Path is not a file").detail "path" p
  | .tooLarge size limit =>
    (Log.Event.error .fileTooLarge "File exceeds compile-time maximum size limit").detailed
      [("file", path), ("size_bytes", toString size), ("limit_bytes", toString limit)]
  | .empty _ => (Log.Event.error .emptyFile "File is empty").detail "file" path
  | .invalidExtension found =>
    (Log.Event.error .invalidExtension "File does not have a .tjp or .tji extension").detailed
      [("file", path), ("extension", found.getD "none")]
  | .tooManyLines lines limit =>
    (Log.Event.error .fileTooLarge "File exceeds maximum line count").detailed
      [("file", path), ("lines", toString lines), ("max_lines", toString limit)]
  | e => unreadEvent fs path e.code

/-- The truth value of a report. -/
private def truthText (b : Bool) : String := if b then "true" else "false"

/-- What is reported about a file that was read. No clock is looked at, so no time has passed. -/
def SourceFile.event (r : Reader) (path : String) (f : SourceFile) : Log.Event :=
  if r.performanceLogging then
    (Log.Event.success .fileProcessed
      "File processed successfully with performance metrics").detailed
      [("file", path), ("size_human", f.metadata.sizeText),
        ("lines", toString f.metadata.lineCount), ("chars", toString f.charCount),
        ("duration_ms", "0.00"), ("is_large_file", truthText f.metadata.isLarge)]
  else
    (Log.Event.success .fileProcessed "File processed successfully").detailed
      [("file", path), ("lines", toString f.metadata.lineCount)]

/-- All that is reported while a file is read. -/
def readEvents (r : Reader) (fs : System) (path : String)
    (outcome : Except FileError SourceFile) : List Log.Event :=
  [(Log.Event.debug "Starting file processing").detail "file" path,
    match outcome with
    | .ok f => f.event r path
    | .error e => e.event fs path]

end Planfile.File
