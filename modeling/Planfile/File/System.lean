import Planfile.Log.Code
import Planfile.Text.Quoted

/-!
# Planfile — file systems

A run sees files through a file system that answers one question: what does a path lead to? It
stays as it is while the run goes on, so two looks at one path see the same file.

Main results:

* `join_absolute` — joining to a directory leaves an absolute path alone.
-/

/-!
## Paths

Paths are texts with slashes between names. A path that starts with a slash is absolute; any other
is meant relative to some directory.
-/

namespace Planfile.File.Path

/-- Whether a path starts at the root. -/
def isAbsolute (path : String) : Bool := path.toList.head? == some '/'

/-- A path relative to a directory. -/
def join (directory path : String) : String :=
  if isAbsolute path then path
  else if directory.toList.getLast? == some '/' then directory ++ path
  else directory ++ "/" ++ path

/-- An absolute path stays as it is. -/
theorem join_absolute {directory path : String} (h : isAbsolute path = true) :
    join directory path = path := by
  simp [join, h]

/-- The directory of a path in canonical form; the root lies in none. -/
def parent? (path : String) : Option String :=
  let back := path.toList.reverse
  match back.dropWhile (· != '/') with
  | [] => if path = "" then none else some ""
  | _ :: before =>
    if path = "/" then none
    else if before.isEmpty then some "/"
    else some (String.ofList before.reverse)

/-- What comes behind the last slash. -/
def fileName (path : String) : List Char :=
  (path.toList.reverse.takeWhile (· != '/')).reverse

/-- What comes behind the last dot of the file name, unless the name starts with that dot. -/
def extension? (path : String) : Option String :=
  let name := fileName path
  match name.reverse.dropWhile (· != '.') with
  | _ :: _ :: _ =>
    if name = ['.', '.'] then none
    else some (String.ofList (name.reverse.takeWhile (· != '.')).reverse)
  | _ => none

end Planfile.File.Path

/-!
## Faults of files

What can be wrong with a file before its text is looked at.
-/

namespace Planfile.File

/-- Why a file is not read. -/
inductive FileError where
  | notFound (path : String)
  | invalidExtension (found : Option String)
  | tooLarge (size limit : Nat)
  | empty (path : String)
  | permissionDenied (path : String)
  | invalidEncoding (path : String)
  | io (message : String)
  | invalidPath (path : String)
  | tooManyLines (lines limit : Nat)
  deriving DecidableEq, Repr

namespace FileError

/-- An extension in quotes, or the word for none. -/
def shownExtension : Option String → String
  | some extension => s!"Some({Text.Quoted.shown extension})"
  | none => "None"

/-- The wording of a fault. -/
def message : FileError → String
  | .notFound path => s!"File not found: {path}"
  | .invalidExtension found =>
    s!"Invalid file extension: expected .tjp or .tji, found {shownExtension found}"
  | .tooLarge size limit => s!"File too large: {size} bytes (max: {limit})"
  | .empty path => s!"File is empty: {path}"
  | .permissionDenied path => s!"Permission denied: {path}"
  | .invalidEncoding path => s!"Invalid UTF-8 encoding in file: {path}"
  | .io message => s!"I/O error reading file: {message}"
  | .invalidPath path => s!"Invalid file path: {path}"
  | .tooManyLines lines limit => s!"File exceeds maximum line count: {lines} (max: {limit})"

/-- The code of a fault. -/
def code : FileError → Code
  | .notFound _ => .fileNotFound
  | .invalidExtension _ => .invalidExtension
  | .tooLarge _ _ | .tooManyLines _ _ => .fileTooLarge
  | .empty _ => .emptyFile
  | .permissionDenied _ => .permissionDenied
  | .invalidEncoding _ => .invalidEncoding
  | .io _ => .ioError
  | .invalidPath _ => .invalidPath

end FileError

end Planfile.File

/-! ## What a path leads to -/

namespace Planfile.File

/-- What the system says where it does not give what it is asked for. -/
structure Refusal where
  /-- Whether a right is missing. -/
  denied : Bool
  message : String
  deriving DecidableEq, Repr

/-- What a file is asked for, one after the other. -/
inductive FileQuery where
  /-- Its canonical path. -/
  | path
  | metadata
  /-- Its content, when its size is known. -/
  | content (size : Nat)
  deriving DecidableEq, Repr

/-- What a path leads to. -/
inductive Node where
  | directory
  | file (content : ByteArray)
  /-- A file that is there, but something of which is not given. -/
  | refused (query : FileQuery) (refusal : Refusal)

/-- A path in canonical form and what it leads to. -/
structure Entry where
  /-- The one path of the file that is absolute and free of detours. -/
  canonical : String
  node : Node

/-- What every path leads to, if anything. -/
structure System where
  lookup : String → Option Entry

/-- A file system without files. -/
def System.empty : System := ⟨fun _ => none⟩

/-- What is refused where a path leads to, if anything. -/
def System.refusal? (fs : System) (path : String) : Option (String × FileQuery × Refusal) :=
  match fs.lookup path with
  | some ⟨canonical, .refused query refusal⟩ => some (canonical, query, refusal)
  | _ => none

end Planfile.File
