import Planfile.File.System

/-!
# Planfile — file trees

A tree of files below one directory, as a file system. Paths are walked name by name: every name
but the last must lead to a directory, `.` stays, `..` goes up, and a slash at the end asks for a
directory. The tree knows nothing about what lies outside of it, except that the directories above
it exist.

Main results:

* `Walk.step_here` — a dot stays where it is.
-/

namespace Planfile.File

/-- A directory of files and directories. -/
structure Tree where
  /-- The path of the directory in canonical form. -/
  root : String
  /-- Files by their path below the directory, names without detours. -/
  files : List (List String × ByteArray)
  /-- Directories by their path below the directory. -/
  directories : List (List String)

namespace Tree

/-- The names of a path. -/
def names (path : String) : List String := (path.splitOn "/").filter (· ≠ "")

/-- A tree without files. -/
def bare (root : String) : Tree := ⟨root, [], [[]]⟩

/-- All starts of a path. -/
def starts (path : List String) : List (List String) :=
  (List.range (path.length + 1)).map path.take

/-- Adds a directory and those above it. -/
def addDirectory (t : Tree) (path : String) : Tree :=
  { t with directories := t.directories ++ starts (names path) }

/-- Adds a file and the directories above it. -/
def addFile (t : Tree) (path : String) (content : ByteArray) : Tree :=
  { t with
    files := t.files ++ [(names path, content)]
    directories := t.directories ++ starts (names path).dropLast }

/-- The content of a file. -/
def file? (t : Tree) (path : List String) : Option ByteArray := t.files.lookup path

/-- Whether a directory is in the tree. -/
def hasDirectory (t : Tree) (path : List String) : Bool := t.directories.contains path

end Tree

/-- Where a walk along a path has come to. -/
inductive Walk where
  /-- At a directory or a file of the tree, by its names in reverse. -/
  | inside (back : List String)
  /-- At a directory above the tree. -/
  | above
  deriving DecidableEq, Repr

/-- One step of a walk. -/
def Walk.step (t : Tree) (w : Walk) (name : String) : Option Walk :=
  match w with
  | .above => if name = "." ∨ name = ".." ∨ name = "" then some .above else none
  | .inside back =>
    if ¬t.hasDirectory back.reverse then none
    -- an empty name is what a slash at the end leaves
    else if name = "." ∨ name = "" then some w
    else if name = ".." then
      match back with
      | [] => some .above
      | _ :: back => some (.inside back)
    else
      let next := name :: back
      if t.hasDirectory next.reverse || (t.file? next.reverse).isSome then some (.inside next)
      else none

/-- A dot stays where it is. -/
theorem Walk.step_here {t : Tree} {back : List String} (h : t.hasDirectory back.reverse = true) :
    Walk.step t (.inside back) "." = some (.inside back) := by
  simp [Walk.step, h]

/-- The canonical path of a place in the tree. -/
def Tree.pathTo (t : Tree) (names : List String) : String :=
  names.foldl (fun path name => path ++ "/" ++ name) t.root

/-- What a path leads to. A path from the root of the file system leads into the tree only if it
starts with the path of the tree. -/
def Tree.lookup (t : Tree) (path : String) : Option Entry :=
  let below : Option (List String) :=
    if path = "" then none
    else if path = t.root then some []
    else if (t.root ++ "/").toList.isPrefixOf path.toList then
      some ((String.ofList (path.toList.drop (t.root.length + 1))).splitOn "/")
    else if Path.isAbsolute path then
      if Tree.names path = [] then some [".."] else none
    else some (path.splitOn "/")
  match below.bind fun names => names.foldlM (Walk.step t) (.inside []) with
  | none => none
  | some .above => some ⟨"/", .directory⟩
  | some (.inside back) =>
    match t.file? back.reverse with
    | some content => some ⟨t.pathTo back.reverse, .file content⟩
    | none => some ⟨t.pathTo back.reverse, .directory⟩

/-- The tree as a file system. -/
def Tree.system (t : Tree) : System := ⟨t.lookup⟩

end Planfile.File
