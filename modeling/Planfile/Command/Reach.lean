import Planfile.Token.Source

/-!
# Planfile — the files a plan reaches

A run looks at files that do not change while it goes on, so they are read before it starts. Which
files these are is told by the tokens: a file is included by the word for it and a string behind
that word. The path in the string is relative to the directory of some file that is open at that
point, so all directories are tried with all paths. Some files may be looked at that the run never
asks for, but none is missed.

Main results:

* `mem_includedPaths` — a path behind the word is found wherever it stands.
* `Reach.lookup_isSome_of_next?` — when nothing is left to look at, every candidate is known.
-/

namespace Planfile.Command

/-- The strings behind the word that includes a file. -/
def includedPaths : List Token → List String
  | .id "include" :: .string path :: rest => path :: includedPaths rest
  | _ :: rest => includedPaths rest
  | [] => []

/-- A path behind the word is found wherever it stands. -/
theorem mem_includedPaths (before behind : List Token) (path : String) :
    path ∈ includedPaths (before ++ .id "include" :: .string path :: behind) := by
  induction before using includedPaths.induct with
  | case1 found rest ih => simp [includedPaths, ih]
  | case2 t rest other ih =>
    cases rest with
    | nil => cases t <;> simp [includedPaths]
    | cons next rest =>
      rw [List.cons_append, includedPaths]
      · exact ih
      · rintro found tail rfl h
        cases h
        exact other found rest rfl rfl
  | case3 => simp [includedPaths]

/-- The paths that a file names to include others. -/
def pathsNamedBy (p : Settings.LexicalPreferences) (content : ByteArray) : List String :=
  if Limits.fileSize < content.size then []
  else match (String.fromUTF8? content).map fun text => Lexer.lex p.countComments text.toList with
    | some (.ok tokens) =>
      includedPaths ((tokens.map (·.token)).filter (·.isSignificant))
    | _ => []

/-- What is known about files before a run. -/
structure Reach where
  /-- The plans that the run is about. -/
  plans : List String
  /-- What the paths lead to that have been looked at. -/
  known : List (String × Option File.Entry)
  /-- The directories of the files found so far. -/
  directories : List String
  /-- The paths that those files name. -/
  named : List String

namespace Reach

/-- Nothing is known about some plans. -/
def start (plans : List String) : Reach := ⟨plans, [], [], []⟩

/-- All paths that the run may look at, as far as that is known. -/
def candidates (r : Reach) : List String :=
  r.plans ++ r.directories.flatMap fun d => r.named.map (File.Path.join d)

/-- A path that has not been looked at. -/
def next? (r : Reach) : Option String :=
  r.candidates.find? fun path => (r.known.lookup path).isNone

/-- When nothing is left to look at, every candidate is known. -/
theorem lookup_isSome_of_next? {r : Reach} (h : r.next? = none) {path : String}
    (hp : path ∈ r.candidates) : (r.known.lookup path).isSome = true := by
  have := List.find?_eq_none.mp h path hp
  simpa using this

/-- What is known when a path has been looked at. -/
def add (p : Settings.LexicalPreferences) (r : Reach) (path : String)
    (entry : Option File.Entry) : Reach :=
  let r := { r with known := (path, entry) :: r.known }
  match entry with
  | some ⟨canonical, .file content⟩ =>
    { r with
      directories := (File.Path.parent? canonical).toList ++ r.directories
      named := pathsNamedBy p content ++ r.named }
  | _ => r

/-- The files as the run sees them. -/
def system (r : Reach) : File.System := ⟨fun path => (r.known.lookup path).join⟩

end Reach

end Planfile.Command
