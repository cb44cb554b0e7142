import Planfile.Processing

/-!
# Planfile — what comes of processing

A session is given a text or a file. Either way, what comes of it is what comes of matching the tokens of
the main text, if there are any: the stages before that only report, and make the grammar.

Main results:

* `Session.fst_processText` — a text with tokens is processed by matching them.
* `Session.exists_plan_of_process` — an error in a plan is one that matching has ended with.
* `Session.exists_plan_of_process_ok` — a plan that has been processed is one that matching has made.
-/

namespace Planfile

/-- What a session is given to process: a text with its name, or the path of a file. -/
inductive PlanInput where
  | text (name content : String)
  | file (path : String)

namespace Session

/-- A session in which nothing is reported and no files can be read. -/
def quiet : Session := .start .default .empty .silent

/-- The session with the grammar made has the same files and preferences. -/
@[simp] theorem files_withGrammar (s : Session) : s.withGrammar.files = s.files := by
  unfold withGrammar
  split <;> rfl

@[simp] theorem preferences_withGrammar (s : Session) : s.withGrammar.preferences = s.preferences := by
  unfold withGrammar
  split <;> rfl

/-- The journal with which the tokens of a text are matched. -/
def journalOf (s : Session) (name content : String) : Log.Journal :=
  (lex { s with journal := s.journal.enter ⟨name, 0⟩ } name content).2.withGrammar.journal

/-- What comes of matching is what comes of tokens. -/
theorem fst_finish {grammar : GrammarTable} (made : Language.grammar = .ok grammar) (s : Session)
    (tokens : List SpannedToken) (source : TokenSource) (file : Option File.Metadata) :
    (s.finish tokens source file).1 =
      (matchPlan grammar s.files s.preferences source s.withGrammar.journal).1.map fun r =>
        ⟨r.1, file, .ofTokens s.preferences.lexical.detailedMetrics tokens, r.2.consumed,
          r.2.included⟩ := by
  rw [finish, made, finishWith, files_withGrammar, preferences_withGrammar]

/-- Without a grammar no plan is processed, and none is refused. -/
theorem finish_of_grammar_error {e : GrammarError} (made : Language.grammar = .error e) (s : Session)
    (tokens : List SpannedToken) (source : TokenSource) (file : Option File.Metadata) :
    s.finish tokens source file = (.error (.grammar e), s.withGrammar) := by
  rw [finish, made, finishWith]

/-- Going back to the file of before changes nothing in what comes of the work. -/
theorem fst_within (s : Session) (path : String) (work : Session → α × Session) :
    (s.within path work).1 = (work { s with journal := s.journal.enter ⟨path, 0⟩ }).1 := rfl

/-- A text that can be split into tokens is gone on with. -/
theorem fst_processText_of_lexed {s : Session} {name content : String} {tokens : List SpannedToken}
    (lexed : Lexer.lex s.preferences.lexical.countComments content.toList = .ok tokens) :
    (s.processText name content).1 =
      (finish (lex { s with journal := s.journal.enter ⟨name, 0⟩ } name content).2 tokens
        (.ofStream (.ofTokens tokens (some ⟨name, content⟩)) name none) none).1 := by
  have outcome : (lex { s with journal := s.journal.enter ⟨name, 0⟩ } name content).1 = .ok tokens := by
    rw [lex, lexed]
    rfl
  rw [processText, fst_within]
  -- of the two ways on, the one for texts that cannot be split is not taken
  split
  · next e _ same =>
    rw [same] at outcome
    cases outcome
  · next other _ same =>
    rw [same] at outcome ⊢
    cases outcome
    rfl

/-- A text that can be split into tokens is processed by matching them. -/
theorem fst_processText {grammar : GrammarTable} (made : Language.grammar = .ok grammar) {s : Session}
    {name content : String} {tokens : List SpannedToken}
    (lexed : Lexer.lex s.preferences.lexical.countComments content.toList = .ok tokens) :
    (s.processText name content).1 =
      (matchPlan grammar s.files s.preferences (.ofStream (.ofTokens tokens (some ⟨name, content⟩)) name none)
        (s.journalOf name content)).1.map fun r =>
          ⟨r.1, none, .ofTokens s.preferences.lexical.detailedMetrics tokens, r.2.consumed,
            r.2.included⟩ := by
  rw [fst_processText_of_lexed lexed, fst_finish made]
  rfl

/-- The session with a file opened: what is reported before its text is split into tokens. -/
def opened (s : Session) (path : String) (outcome : Except File.FileError File.SourceFile) : Session :=
  (record { s with journal := s.journal.enter ⟨path, 0⟩ }
    ((Log.Event.info "Starting TJP processing pipeline").detail "file" path)).recordAll
      (File.readEvents (.forProject s.preferences.files) s.files path outcome)

/-- A file whose text can be split into tokens is gone on with. -/
theorem fst_processFile_of_lexed {s : Session} {path : String} {file : File.SourceFile}
    {tokens : List SpannedToken}
    (read : File.read (.forProject s.preferences.files) s.files path = .ok file)
    (lexed : Lexer.lex s.preferences.lexical.countComments file.content.toList = .ok tokens) :
    (s.processFile path).1 =
      (finish (lex (s.opened path (.ok file)) file.metadata.path file.content).2 tokens
        (.ofStream (.ofTokens tokens (some ⟨file.metadata.path, file.content⟩)) path
          (some file.metadata.path)) (some file.metadata)).1 := by
  have outcome : (lex (s.opened path (.ok file)) file.metadata.path file.content).1 = .ok tokens := by
    have same : (s.opened path (.ok file)).preferences = s.preferences := rfl
    rw [lex, same, lexed]
    rfl
  let started := record { s with journal := s.journal.enter ⟨path, 0⟩ }
    ((Log.Event.info "Starting TJP processing pipeline").detail "file" path)
  have known : File.read (.forProject started.preferences.files) started.files path = .ok file := read
  rw [processFile, fst_within]
  dsimp only
  rw [known]
  dsimp only
  split
  · next e after same =>
    have same : lex (s.opened path (.ok file)) file.metadata.path file.content = (.error e, after) := same
    rw [same] at outcome
    cases outcome
  · next other after same =>
    have same : lex (s.opened path (.ok file)) file.metadata.path file.content = (.ok other, after) := same
    rw [same] at outcome ⊢
    cases outcome
    rfl

/-- Processes what is given. -/
def process (s : Session) : PlanInput → Except ProcessError Processed × Session
  | .text name content => s.processText name content
  | .file path => s.processFile path

/-- The tokens that processing starts with. -/
def source (s : Session) : PlanInput → Except SourceError TokenSource
  | .text name content => TokenSource.ofText s.preferences.lexical name content
  | .file path => TokenSource.ofFile s.preferences s.files path

/-- The text that a session is given, if there is one. -/
def text? (s : Session) : PlanInput → Option String
  | .text _ content => some content
  | .file path => (File.read (.forProject s.preferences.files) s.files path).toOption.map (·.content)

/-- A session that is given something either cannot read it as a text, or cannot split the text into
tokens, or goes on with the tokens. -/
theorem cases_process (s : Session) (input : PlanInput) :
    (∃ e, (s.process input).1 = .error (.file e)) ∨ (∃ e, (s.process input).1 = .error (.lexical e)) ∨
      ∃ content tokens source name path file after, s.text? input = some content ∧
        Lexer.lex s.preferences.lexical.countComments content.toList = .ok tokens ∧
        s.source input = .ok (.ofStream (.ofTokens tokens source) name path) ∧
        after.preferences = s.preferences ∧ after.files = s.files ∧
        (s.process input).1 = (finish after tokens (.ofStream (.ofTokens tokens source) name path) file).1 := by
  cases input with
  | text name content =>
    cases lexed : Lexer.lex s.preferences.lexical.countComments content.toList with
    | error failure =>
      refine .inr (.inl ⟨failure.error, ?_⟩)
      simp only [process, processText, within, lex, lexed]
      rfl
    | ok tokens =>
      refine .inr (.inr ⟨content, tokens, some ⟨name, content⟩, name, none, none, ?_⟩)
      refine ⟨(lex { s with journal := s.journal.enter ⟨name, 0⟩ } name content).2, rfl, lexed, ?_, rfl,
        rfl, ?_⟩
      · rw [source, TokenSource.ofText, lexed]
      · rw [process, fst_processText_of_lexed lexed]
  | file path =>
    cases read : File.read (.forProject s.preferences.files) s.files path with
    | error failure =>
      refine .inl ⟨failure, ?_⟩
      simp only [process, processFile, within, record, recordAll, read]
    | ok file =>
      have content : s.text? (.file path) = some file.content := by
        rw [text?, read]
        rfl
      cases lexed : Lexer.lex s.preferences.lexical.countComments file.content.toList with
      | error failure =>
        refine .inr (.inl ⟨failure.error, ?_⟩)
        simp only [process, processFile, within, record, recordAll, read, lex, lexed]
        rfl
      | ok tokens =>
        refine .inr (.inr ⟨file.content, tokens, some ⟨file.metadata.path, file.content⟩, path,
          some file.metadata.path, some file.metadata, ?_⟩)
        refine ⟨(lex (s.opened path (.ok file)) file.metadata.path file.content).2, content, lexed, ?_,
          rfl, rfl, ?_⟩
        · simp only [source, TokenSource.ofFile, read, lexed]
        · rw [process, fst_processFile_of_lexed read lexed]

/-- An error in a plan is one that the matching of its tokens has ended with. -/
theorem exists_plan_of_finish {s : Session} {tokens : List SpannedToken} {source : TokenSource}
    {file : Option File.Metadata} {e : ParseError}
    (h : (s.finish tokens source file).1 = .error (.parse e)) :
    ∃ grammar journal c, Language.grammar = .ok grammar ∧
      Matcher.plan ⟨grammar, s.files, s.preferences⟩ (.initial source journal) = (.error (.error e), c) := by
  cases made : Language.grammar with
  | error fault =>
    rw [finish_of_grammar_error made] at h
    cases h
  | ok grammar =>
    refine ⟨grammar, s.withGrammar.journal, ?_⟩
    rw [fst_finish made, matchPlan] at h
    rcases run : Matcher.plan ⟨grammar, s.files, s.preferences⟩ (.initial source s.withGrammar.journal) with
      ⟨(e' | _) | p, c⟩ <;> rw [run] at h <;> cases h
    exact ⟨c, rfl, rfl⟩

/-- A plan that has been processed is one that the matching of its tokens has made, and what is known
about its tokens comes from there. -/
theorem exists_plan_of_finish_ok {s : Session} {tokens : List SpannedToken} {source : TokenSource}
    {file : Option File.Metadata} {r : Processed} (h : (s.finish tokens source file).1 = .ok r) :
    ∃ grammar journal c, Language.grammar = .ok grammar ∧
      Matcher.plan ⟨grammar, s.files, s.preferences⟩ (.initial source journal) = (.ok r.project, c) ∧
      r = ⟨r.project, file, .ofTokens s.preferences.lexical.detailedMetrics tokens, c.tokens.consumed,
        c.tokens.included⟩ := by
  cases made : Language.grammar with
  | error fault =>
    rw [finish_of_grammar_error made] at h
    cases h
  | ok grammar =>
    refine ⟨grammar, s.withGrammar.journal, ?_⟩
    rw [fst_finish made, matchPlan] at h
    rcases run : Matcher.plan ⟨grammar, s.files, s.preferences⟩ (.initial source s.withGrammar.journal) with
      ⟨(e' | _) | p, c⟩ <;> rw [run] at h <;> cases h
    exact ⟨c, rfl, rfl, rfl⟩

/-- An error in a plan that a session finds is one that the matching of the tokens of the main text has
ended with. -/
theorem exists_plan_of_process {s : Session} {input : PlanInput} {e : ParseError}
    (h : (s.process input).1 = .error (.parse e)) :
    ∃ content tokens source name path grammar journal c,
      Lexer.lex s.preferences.lexical.countComments content = .ok tokens ∧
      s.source input = .ok (.ofStream (.ofTokens tokens source) name path) ∧
      Language.grammar = .ok grammar ∧
      Matcher.plan ⟨grammar, s.files, s.preferences⟩
        (.initial (.ofStream (.ofTokens tokens source) name path) journal) = (.error (.error e), c) := by
  rcases s.cases_process input with ⟨_, refused⟩ | ⟨_, refused⟩ |
    ⟨content, tokens, source, name, path, file, after, -, lexed, there, same, same', outcome⟩
  · rw [refused] at h
    cases h
  · rw [refused] at h
    cases h
  · rw [outcome] at h
    obtain ⟨grammar, journal, c, made, run⟩ := exists_plan_of_finish h
    rw [same, same'] at run
    exact ⟨content.toList, tokens, source, name, path, grammar, journal, c, lexed, there, made, run⟩

/-- A plan that a session has processed is one that the matching of the tokens of the main text has made,
and what is known about its tokens comes from there. -/
theorem exists_plan_of_process_ok {s : Session} {input : PlanInput} {r : Processed}
    (h : (s.process input).1 = .ok r) :
    ∃ content tokens source name path grammar journal c, s.text? input = some content ∧
      Lexer.lex s.preferences.lexical.countComments content.toList = .ok tokens ∧
      s.source input = .ok (.ofStream (.ofTokens tokens source) name path) ∧
      Language.grammar = .ok grammar ∧
      Matcher.plan ⟨grammar, s.files, s.preferences⟩
        (.initial (.ofStream (.ofTokens tokens source) name path) journal) = (.ok r.project, c) ∧
      r.metrics = .ofTokens s.preferences.lexical.detailedMetrics tokens ∧
      r.tokenCount = c.tokens.consumed ∧ r.included = c.tokens.included := by
  rcases s.cases_process input with ⟨_, refused⟩ | ⟨_, refused⟩ |
    ⟨content, tokens, source, name, path, file, after, given, lexed, there, same, same', outcome⟩
  · rw [refused] at h
    cases h
  · rw [refused] at h
    cases h
  · rw [outcome] at h
    obtain ⟨grammar, journal, c, made, run, parts⟩ := exists_plan_of_finish_ok h
    rw [same, same'] at run
    rw [same] at parts
    exact ⟨content, tokens, source, name, path, grammar, journal, c, given, lexed, there, made, run,
      congrArg Processed.metrics parts, congrArg Processed.tokenCount parts,
      congrArg Processed.included parts⟩

end Session

end Planfile
