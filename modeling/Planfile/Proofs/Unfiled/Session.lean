import Planfile.Proofs.Error.Language
import Planfile.Proofs.Layout.Session
import Planfile.Proofs.Parallel.Matching
import Planfile.Proofs.Source.OwnFile
import Planfile.Proofs.Statement.Language

/-!
# Planfile — a file and its text

A session can be given a file, or the text of it under the same name. It finds the same project or the same
error, with the same place, as long as the text includes no other file: only then would it matter where it
comes from.

Main results:

* `RunRelation.inStep_unfiled` — one text is read in step, from a file or not.
* `RunRelation.takes_unfiled` — include statements do not start, and other alternatives are matched alike.
* `Language.isStatement_of_includes` — in the language only include statements include files.
* `Session.readAlike_of_read` — a file and its text are processed alike.
-/

/-!
## Matching does not look at where a text comes from

A text that is read from a file knows its canonical path, and one that is given as such does not. The path
is looked at where another file is included, and nowhere else. So as long as no file is included, the two
texts are read in step, token by token and place by place.
-/

namespace Planfile

namespace TokenSource

/-- Whether two sources have the same tokens of one text ahead, at the same places, and no file has been
included, nor will be. -/
structure SameText (s t : TokenSource) : Prop where
  ahead : t.top.stream.ahead = s.top.stream.ahead
  file : t.top.file = s.top.file
  alone : s.below = [] ∧ t.below = []
  consumed : t.consumed = s.consumed
  last : t.lastLocation = s.lastLocation
  none : s.included = [] ∧ t.included = []
  noInclude : ∀ t ∈ s.top.stream.ahead, t.token ≠ .id "include"

namespace SameText

variable {s t : TokenSource} (same : s.SameText t)

include same

theorem peekSpanned : t.peekSpanned = s.peekSpanned := congrArg List.head? same.ahead

theorem peek : t.peek = s.peek := by
  rw [TokenSource.peek, same.peekSpanned, TokenSource.peek]

theorem location : t.location = s.location := by
  rw [TokenSource.location, same.peekSpanned, same.file, same.last, TokenSource.location]

/-- The next token is read alike. -/
theorem read : s.read.settled.SameText t.read.settled := by
  have stays {u : TokenSource} (alone : u.below = []) : u.read.settled = u.read := by
    have below : u.read.below = [] := alone
    rw [settled, below, settle]
    exact congrArg (fun below => { u.read with below }) below.symm
  rw [stays same.alone.1, stays same.alone.2]
  refine ⟨?_, same.file, same.alone, congrArg (· + 1) same.consumed, same.location, same.none, ?_⟩
  · show t.top.stream.advance.ahead = s.top.stream.advance.ahead
    rw [TokenStream.ahead_advance, TokenStream.ahead_advance, same.ahead]
  · intro token mem
    have mem : token ∈ s.top.stream.advance.ahead := mem
    rw [TokenStream.ahead_advance] at mem
    exact same.noInclude token (List.mem_of_mem_tail mem)

/-- The same token is read, or both sources are at their end. -/
theorem advance :
    Option.Rel (fun a b => b.1.token = a.1.token ∧ SameText a.2 b.2) s.advance t.advance := by
  unfold TokenSource.advance
  rw [same.peekSpanned]
  split
  · split
    · exact .none
    · exact .some ⟨rfl, same.read⟩
  · exact .none

/-- No include statement starts here. -/
theorem matchesLiteral_include : s.peek.matchesLiteral "include" = false := by
  have next : s.peek ≠ .id "include" := by
    unfold TokenSource.peek
    cases first : s.peekSpanned with
    | none => exact Token.noConfusion
    | some token => exact same.noInclude token (List.mem_of_head? first)
  unfold Token.matchesLiteral Token.literalText?
  split
  · next name peek =>
    rw [peek] at next
    refine beq_eq_false_iff_ne.mpr fun literal => next ?_
    rw [Option.some.inj literal]
  · next m _ => cases m <;> decide
  · rfl

end SameText

end TokenSource

namespace RunRelation

open Matcher

/-- Two runs over one text, of which one knows the file that the text is from. No file is included. -/
def unfiled : RunRelation where
  surroundings env env' := env' = env ∧
    ∀ id, ∀ p ∈ (env.grammar.rule id).patterns, p = includeStatement ∨ ∀ a ∈ p.action, a.isStatement = true
  grammar h := congrArg Surroundings.grammar h.1
  reading s stop t stop' := s.SameText t ∧ stop' = stop
  view := id
  allows a := a.isStatement = true
  stores _ _ _ := rfl

theorem Alike.sameText {c d : Context} (alike : unfiled.Alike c d) : c.tokens.SameText d.tokens :=
  alike.reading.1

/-- One text is read in step, from a file or not. -/
theorem inStep_unfiled : unfiled.InStep where
  same h := h.1
  stop h := h.2
  peek h := h.1.peek
  consumed h := h.1.consumed
  advance {s _ t _} h := by
    have next := h.1.advance
    generalize s.advance = a at next ⊢
    generalize t.advance = b at next ⊢
    cases next with
    | none => exact .none
    | some read => exact .some ⟨read.1, read.2, h.2⟩
  mark h _ := ⟨h.1, rfl⟩
  place h operation := by rw [h.1.location]

/-- Where an include statement is tried, both runs end at its keyword. -/
theorem parallel_includeStatement {matchRule : RuleId → Matcher (Option Value)} :
    unfiled.Parallel (Value.Same unfiled.view) (matchPattern matchRule includeStatement)
      (matchPattern matchRule includeStatement) := by
  have keyword : unfiled.Parallel (fun _ _ => False) (matchSymbol matchRule (.literal "include"))
      (matchSymbol matchRule (.literal "include")) := by
    refine parallel_get fun c d alike => ?_
    have next : (!c.tokens.peek.matchesLiteral "include") = true := by
      rw [alike.sameText.matchesLiteral_include]
      rfl
    rw [alike.sameText.peek, if_pos next]
    exact Parallel.bind (R := fun _ _ => False) (parallel_expected inStep_unfiled _) fun _ _ none => none.elim
  have symbols : unfiled.Parallel (fun _ _ => False) (matchSymbols matchRule includeStatement.symbols)
      (matchSymbols matchRule includeStatement.symbols) :=
    keyword.bind fun _ _ none => none.elim
  exact parallel_get fun c d alike => symbols.bind fun _ _ none => none.elim

/-- Include statements do not start, and other alternatives are matched alike. -/
theorem takes_unfiled :
    unfiled.Takes fun p => p = includeStatement ∨ ∀ a ∈ p.action, a.isStatement = true where
  declared he id p hp := he.2 id p hp
  added h := .inr h
  matched {matchRule} alike p kind := by
    rcases kind with rfl | statement
    · exact parallel_includeStatement
    · exact parallel_matchPattern inStep_unfiled alike fun a action _ _ same =>
        a.parallel_perform same (statement a action) matchRule matchRule

end RunRelation

end Planfile

/-! ## Sessions -/

namespace Planfile

/-- In the language only include statements include files. -/
theorem Language.isStatement_of_includes {table : GrammarTable} (made : Language.grammar = .ok table) :
    ∀ id, ∀ p ∈ (table.rule id).patterns,
      p = Matcher.includeStatement ∨ ∀ a ∈ p.action, a.isStatement = true := by
  intro id p mem
  by_cases including : p = Matcher.includeStatement
  · exact .inl including
  refine .inr fun a action => ?_
  rcases Language.isPlaceless made id p mem a action with statement | ⟨i, rfl⟩
  · exact statement
  · -- a rule that includes files is for nothing else
    have admits := (Language.formed made).admits id p mem
    have action : p.action = some (.includeFile i) := action
    cases clause : Language.clausesIn table id <;> rw [clause] at admits
    case plain => cases admits.2 _ action
    case inclusion => exact absurd admits including
    case report =>
      obtain ⟨type, rfl, -⟩ := admits
      cases action
    case statement =>
      obtain ⟨header, body, rfl, -⟩ := admits
      cases action
    case header kind =>
      cases admits
      cases action

/-- A project that nothing is left out of is seen as it is. -/
theorem project_through_id (p : Plan.Project) : p.through id = p := by
  have element (r : Plan.Report) : r.through id = r := by
    simp only [Plan.Report.through, Plan.ReportElement.through, Option.map_id, id_eq]
  simp only [Plan.Project.through, element, List.map_id']

/-- One text makes one source, from a file or not, but for the name of the text. -/
theorem TokenSource.sameText_ofStream {tokens : List SpannedToken}
    (noInclude : ∀ t ∈ tokens, t.token ≠ .id "include") (source source' : Option SourceText) (name : String)
    (path path' : Option String) :
    (TokenSource.ofStream (.ofTokens tokens source) name path).SameText
      (.ofStream (.ofTokens tokens source') name path') where
  ahead := rfl
  file := rfl
  alone := ⟨rfl, rfl⟩
  consumed := rfl
  last := rfl
  none := ⟨rfl, rfl⟩
  noInclude t mem := noInclude t (List.mem_of_mem_filter mem)

/-- Whether the same comes of a file and of its text: a project, read from as many tokens that are counted
alike, and from no other file; or else an error. -/
inductive ReadAlike : Except ProcessError Processed → Except ProcessError Processed → Prop
  | processed {r q : Processed} (project : q.project = r.project) (tokenCount : q.tokenCount = r.tokenCount)
    (metrics : q.metrics = r.metrics) (alone : r.included = [] ∧ q.included = []) : ReadAlike (.ok r) (.ok q)
  | refused (e : ProcessError) : ReadAlike (.error e) (.error e)

open Matcher in
/-- The same comes of matching one text, from a file or not. -/
theorem readAlike_of_sameText {table : GrammarTable} (made : Language.grammar = .ok table)
    (files : File.System) (preferences : Settings.Preferences) {s t : TokenSource} (same : s.SameText t)
    (journal journal' : Log.Journal) (file file' : Option File.Metadata) (metrics : LexicalMetrics) :
    ReadAlike
      ((matchPlan table files preferences s journal).1.map fun r =>
        ⟨r.1, file, metrics, r.2.consumed, r.2.included⟩)
      ((matchPlan table files preferences t journal').1.map fun r =>
        ⟨r.1, file', metrics, r.2.consumed, r.2.included⟩) := by
  -- at the start nothing has been built and nothing has been added
  have start : RunRelation.unfiled.Alike (.initial s journal) (.initial t journal') :=
    ⟨⟨same, rfl⟩, fun _ nothing => absurd nothing List.not_mem_nil, rfl⟩
  obtain ⟨ends, alike⟩ := RunRelation.parallel_plan RunRelation.inStep_unfiled RunRelation.takes_unfiled
    ⟨table, files, preferences⟩ _ _ _ ⟨rfl, Language.isStatement_of_includes made⟩ start
  have known : Language.grammar = .ok (Surroundings.mk table files preferences).grammar := made
  have place {tokens : TokenSource} {journal : Log.Journal} {e : ParseError} {c : Context}
      (run : plan ⟨table, files, preferences⟩ (.initial tokens journal) = (.error (.error e), c)) :
      e.location = e.fault.placeIn c.tokens := Language.placeIn_of_plan known run
  rw [matchPlan, matchPlan]
  rcases run : plan ⟨table, files, preferences⟩ (.initial s journal) with ⟨outcome, c⟩
  rcases run' : plan ⟨table, files, preferences⟩ (.initial t journal') with ⟨outcome', d⟩
  rw [run, run'] at ends alike
  have last := alike.sameText
  dsimp only at ends last
  cases ends with
  | @given p q project =>
    have same : q = p := by
      have seen : q.through id = p.through id := project
      rwa [project_through_id, project_through_id] at seen
    exact .processed same last.consumed rfl last.none
  | fault fault location location' =>
    -- the tokens ahead and the last one are at the same places, and so is the fault
    have there : location = fault.placeIn c.tokens := place run
    have there' : location' = fault.placeIn d.tokens := place run'
    have same : fault.placeIn d.tokens = fault.placeIn c.tokens := by
      cases fault <;> first | exact last.location | exact last.last
    rw [there, there', same]
    exact .refused _
  | outOfFuel => exact .refused _

namespace Session

/-- A file that can be read and whose text includes no other file is processed as its text is, when it is
given under the same name. -/
theorem readAlike_of_read {s : Session} {path : String} {file : File.SourceFile}
    (read : File.read (.forProject s.preferences.files) s.files path = .ok file)
    (noInclude : ∀ tokens, Lexer.lex s.preferences.lexical.countComments file.content.toList = .ok tokens →
      ∀ t ∈ tokens, t.token ≠ .id "include") :
    ReadAlike (s.process (.file path)).1 (s.process (.text path file.content)).1 := by
  cases lexed : Lexer.lex s.preferences.lexical.countComments file.content.toList with
  | error failure =>
    have ofFile : (s.process (.file path)).1 = .error (.lexical failure.error) := by
      simp only [process, processFile, within, record, recordAll, read, lex, lexed]
      rfl
    have ofText : (s.process (.text path file.content)).1 = .error (.lexical failure.error) := by
      simp only [process, processText, within, lex, lexed]
      rfl
    rw [ofFile, ofText]
    exact .refused _
  | ok tokens =>
    obtain ⟨table, made⟩ := Language.exists_grammar
    have same := TokenSource.sameText_ofStream (noInclude tokens lexed)
      (some ⟨file.metadata.path, file.content⟩) (some ⟨path, file.content⟩) path (some file.metadata.path) none
    show ReadAlike (s.processFile path).1 (s.processText path file.content).1
    rw [fst_processText made lexed, fst_processFile_of_lexed read lexed, fst_finish made]
    exact readAlike_of_sameText made s.files s.preferences same _ _ _ _ _

/-- A session in which every path leads to the file of a plan in which a keyword is misspelt. -/
def filed : Session :=
  .start .default (TokenSource.oneFile "/plans/main.tjp" misspeltPlan) .silent

/-- The file is read, and there is no include statement in its text. -/
theorem exists_read_filed :
    ∃ file, File.read (.forProject filed.preferences.files) filed.files "main.tjp" = .ok file ∧
      file.content = misspeltPlan ∧
      ∀ tokens, Lexer.lex filed.preferences.lexical.countComments misspeltPlan.toList = .ok tokens →
        ∀ t ∈ tokens, t.token ≠ .id "include" := by
  have check : (File.read (.forProject filed.preferences.files) filed.files "main.tjp").toOption.any
      (fun file => file.content == misspeltPlan) = true ∧
      (Lexer.lex filed.preferences.lexical.countComments misspeltPlan.toList).toOption.all
        (·.all (·.token != .id "include")) = true := by
    decide +kernel
  obtain ⟨readable, plain⟩ := check
  obtain ⟨file, read, content⟩ := (Option.any_eq_true _ _).mp readable
  refine ⟨file, ?_, beq_iff_eq.mp content, fun tokens lexed t mem => ?_⟩
  · cases outcome : File.read (.forProject filed.preferences.files) filed.files "main.tjp" with
    | error e =>
      rw [outcome] at read
      cases read
    | ok other =>
      rw [outcome] at read
      exact congrArg Except.ok (Option.some.inj read)
  · rw [lexed] at plain
    exact bne_iff_ne.mp (List.all_eq_true.mp plain t mem)

/-- So the file is refused with the error that its text is refused with, at the misspelt keyword. -/
theorem readAlike_of_read_filed :
    ∃ file, File.read (.forProject filed.preferences.files) filed.files "main.tjp" = .ok file ∧
      ReadAlike (filed.process (.file "main.tjp")).1 (filed.process (.text "main.tjp" file.content)).1 ∧
      (filed.process (.file "main.tjp")).1 = .error (.parse misspeltError) := by
  obtain ⟨file, read, content, noInclude⟩ := exists_read_filed
  have alike := readAlike_of_read read (content ▸ noInclude)
  refine ⟨file, read, alike, ?_⟩
  let check (outcome : Except ProcessError Processed) : Bool :=
    decide (outcome.map (fun _ => ()) = .error (.parse misspeltError))
  obtain ⟨r, s', run, found⟩ := Language.exists_process_of_check filed "main.tjp" misspeltPlan check
    (by decide +kernel)
  rw [content, run] at alike
  cases r with
  | ok r => cases found
  | error e =>
    have same := Except.error.inj (of_decide_eq_true found)
    generalize (filed.process (.file "main.tjp")).1 = outcome at alike ⊢
    cases alike
    rw [same]

end Session

end Planfile
