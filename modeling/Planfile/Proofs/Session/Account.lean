import Planfile.Proofs.Course.Language
import Planfile.Proofs.Course.Progress
import Planfile.Proofs.Source.OwnFile
import Planfile.Proofs.Source.Stacked
import Planfile.Proofs.Token.Metrics

/-!
# Planfile — a plan that is processed has been read to its end

A source counts the tokens that it gives. What it has given and what it has left are together the tokens
of the main file and of every file that has been included, each as often as it has been: reading moves
a token from one side to the other, and going on with a file adds its tokens to those that are left.

Wherever the reading of a plan gets, its tokens are such as can be reached, and there every token is
accounted for. A plan is processed only if the end of the text comes next. Only the main file can be at
its end, so the end means that nothing is left: neither a file on the stack nor a token in it. What has
been counted is then every token that the grammar reads, each exactly once.

Main results:

* `TokenSource.accounts_of_reaches` — wherever a parse gets, every token is accounted for.
* `TokenSource.EndsInMain.remaining_of_isEof` — where the end of the text is next, none is left.
* `Session.readsAll_of_process` — a plan that is processed has been read to its end, token by token.
-/

namespace Planfile

/-! ## Every token is accounted for -/

/-- A file that has been included: its canonical path and the tokens of its text. -/
structure IncludedFile where
  path : String
  tokens : List SpannedToken

/-- Whether these are the tokens of the file, as it is read under one of its names. -/
def IncludedFile.IsRead (p : Settings.Preferences) (fs : File.System) (f : IncludedFile) : Prop :=
  ∃ name file, File.read (.forInclude p.files) fs name = .ok file ∧ file.metadata.path = f.path ∧
    Lexer.lex p.lexical.countComments file.content.toList = .ok f.tokens

namespace TokenSource

/-- Whether what has been given and what is left are the tokens of a main file and those of the files
that are listed as included. -/
def Accounts (p : Settings.Preferences) (fs : File.System) (main : List SpannedToken)
    (s : TokenSource) : Prop :=
  ∃ files : List IncludedFile, s.included = files.map (·.path) ∧ (∀ f ∈ files, f.IsRead p fs) ∧
    s.consumed + s.remaining.length =
      (readable main).length + (files.flatMap (readable ·.tokens)).length

variable {p : Settings.Preferences} {fs : File.System} {main : List SpannedToken} {s t : TokenSource}

/-- A token that is read is no longer left. -/
theorem Accounts.advance {token : SpannedToken} (h : Accounts p fs main s)
    (ha : s.advance = some (token, t)) : Accounts p fs main t := by
  obtain ⟨files, listed, read, balance⟩ := h
  have left := congrArg List.length (remaining_of_advance ha)
  obtain ⟨-, -, rfl⟩ := eq_of_advance ha
  refine ⟨files, listed, read, ?_⟩
  have given : s.read.settled.consumed = s.consumed + 1 := rfl
  rw [List.length_cons] at left
  rw [← balance, given, left]
  omega

/-- The tokens of a file that is gone on with are left. -/
theorem Accounts.goOn {path : String} (h : Accounts p fs main s)
    (hi : s.pushInclude? p fs path = .ok t) : Accounts p fs main t := by
  obtain ⟨files, listed, read, balance⟩ := h
  obtain ⟨file, tokens, found, lexed, left, given⟩ := remaining_of_pushInclude? hi
  obtain ⟨other, again, grown⟩ := exists_read_of_pushInclude? hi
  -- both facts are about one reading of the file
  obtain rfl : file = other := Except.ok.inj (found.symm.trans again)
  refine ⟨files ++ [⟨file.metadata.path, tokens⟩], ?_, ?_, ?_⟩
  · rw [grown, listed, List.map_append, List.map_singleton]
  · intro f hf
    rcases List.mem_append.mp hf with before | new
    · exact read f before
    · obtain rfl := List.mem_singleton.mp new
      exact ⟨s.resolve path, file, found, rfl, lexed⟩
  · have added : t.remaining.length = (readable tokens).length + s.remaining.length := by
      rw [left, List.length_append, List.length_map]
      rfl
    rw [given, added, List.flatMap_append, List.length_append, List.flatMap_singleton]
    show _ = _ + (_ + (readable tokens).length)
    omega

/-- Wherever a parse gets, every token is accounted for. -/
theorem accounts_of_reaches {start : TokenSource} (hs : Accounts p fs main start)
    (h : Reaches p fs start s) : Accounts p fs main s := by
  induction h with
  | start => exact hs
  | advance _ ha ih => exact ih.advance ha
  | goOn _ hi ih => exact ih.goOn hi

/-- Before the first token is read, all tokens of the main file are left. -/
theorem accounts_ofStream (lexed : Lexer.lex p.lexical.countComments cs = .ok main)
    (source : Option SourceText) (file : String) (path : Option String) :
    Accounts p fs main (ofStream (.ofTokens main source) file path) := by
  refine ⟨[], rfl, fun f hf => absurd hf List.not_mem_nil, ?_⟩
  have left : (ofStream (.ofTokens main source) file path).remaining.length =
      (readable main).length := by
    rw [remaining, frames]
    show ([_].flatMap _).length = _
    rw [List.flatMap_singleton, Frame.remaining, List.length_map]
    exact congrArg List.length (TokenStream.remaining_ofTokens lexed source)
  rw [left]
  exact Nat.zero_add _

/-- Wherever a parse gets from a single stream, only the main file can be on top at its end. -/
theorem endsInMain_of_reaches {start : TokenSource} (hs : start.EndsInMain)
    (h : Reaches p fs start s) : s.EndsInMain := by
  induction h with
  | start => exact hs
  | advance _ ha =>
    obtain ⟨-, -, rfl⟩ := eq_of_advance ha
    exact endsInMain_settled _
  | goOn _ hi =>
    obtain ⟨f, -, rfl⟩ := eq_of_pushInclude? hi
    exact endsInMain_settled _

/-- Where the end of the text is next, no token is left. -/
theorem EndsInMain.remaining_of_isEof (h : s.EndsInMain) (eof : s.peek.isEof = true) :
    s.remaining = [] := by
  refine h.peek_eq_eof_iff.mp ?_
  cases peek : s.peek with
  | eof => rfl
  | _ =>
    rw [peek] at eof
    cases eof

/-- Where the end of the text is next, no included file is left on the stack. -/
theorem EndsInMain.below_of_isEof (h : s.EndsInMain) (eof : s.peek.isEof = true) : s.below = [] :=
  h (h.remaining_eq_nil_iff.mp (h.remaining_of_isEof eof))

end TokenSource

open Matcher

/-! ## Plans that are processed -/

/-- Whether a plan has been read once and to its end, where its main text has the tokens `main` and its
reading has come to the tokens `last`. -/
structure Processed.ReadsAll (s : Session) (main : List SpannedToken) (last : TokenSource)
    (r : Processed) : Prop where
  /-- What has been counted are the tokens of the main text and those of each included file, as often as
  it is listed. -/
  counted : ∃ files : List IncludedFile, r.included = files.map (·.path) ∧
    (∀ f ∈ files, f.IsRead s.preferences s.files) ∧
    r.tokenCount = (readable main).length + (files.flatMap (readable ·.tokens)).length
  /-- No included file is left on the stack, and nothing is left of the main one. -/
  ended : last.below = [] ∧ last.remaining = []
  /-- The count is that of the tokens that have been read. -/
  given : r.tokenCount = last.consumed
  /-- A plan that includes nothing has read all tokens of its text but the comments. -/
  alone : r.included = [] → r.tokenCount = r.metrics.totalTokens - r.metrics.commentCount

/-- A plan that a session processes has been read once and to its end. -/
theorem Session.readsAll_of_process {s s' : Session} {input : PlanInput} {r : Processed}
    (h : s.process input = (.ok r, s')) :
    ∃ content main start grammar journal c, s.text? input = some content ∧
      Lexer.lex s.preferences.lexical.countComments content.toList = .ok main ∧
      s.source input = .ok start ∧ start.top.stream.all = main ∧ Language.grammar = .ok grammar ∧
      plan ⟨grammar, s.files, s.preferences⟩ (.initial start journal) = (.ok r.project, c) ∧
      r.ReadsAll s main c.tokens := by
  obtain ⟨content, main, source, name, path, grammar, journal, c, given, lexed, there, made, run,
    metrics, tokenCount, included⟩ := exists_plan_of_process_ok (congrArg Prod.fst h)
  let start := TokenSource.ofStream (.ofTokens main source) name path
  refine ⟨content, main, start, grammar, journal, c, given, lexed, there, rfl, made, run, ?_⟩
  -- the rule for projects has been matched, and behind it the text ends
  obtain ⟨charted, id, known, starts⟩ := Language.exists_charted made
  obtain ⟨v, d, parsed, eof, -, rfl⟩ := exists_of_run_plan known run
  have reached : start.Reaches s.preferences s.files d.tokens :=
    (stateInvariant_reaches _ _ ⟨grammar, s.files, s.preferences⟩ start).of_run charted
      (Language.grounded_initial grammar _ start journal) starts (fun _ => rfl) parsed .start
  have ends : d.tokens.EndsInMain := TokenSource.endsInMain_of_reaches (fun _ => rfl) reached
  have below : d.tokens.below = [] := ends.below_of_isEof eof
  have nothing : d.tokens.remaining = [] := ends.remaining_of_isEof eof
  -- so nothing is left of the tokens that are accounted for
  obtain ⟨files, listed, read, balance⟩ :=
    TokenSource.accounts_of_reaches (TokenSource.accounts_ofStream lexed source name path) reached
  have count : r.tokenCount = (readable main).length + (files.flatMap (readable ·.tokens)).length := by
    rw [nothing] at balance
    rw [tokenCount, ← balance]
    rfl
  refine ⟨⟨files, included.trans listed, read, count⟩, ⟨below, nothing⟩, tokenCount, fun none => ?_⟩
  have total := LexicalMetrics.totalTokens_ofTokens s.preferences.lexical.detailedMetrics main
  rw [included, listed, List.map_eq_nil_iff] at none
  rw [none, List.flatMap_nil, List.length_nil] at count
  rw [metrics]
  omega

namespace Session

/-- The text of a plan with a comment, in which the first of two tasks is in a file. -/
def dividedPlan : String :=
  "project p \"P\" \"1\" 2024-01-01 - 2025-01-01\ninclude \"part.tji\" # the first task\ntask b \"B\""

/-- A session in which every path leads to the file with the first task. -/
def dividing : Session :=
  .start .default (TokenSource.oneFile "/plans/part.tji" "task a \"A\" /* all of it */") .silent

/-- It is processed: 12 tokens of its own and 3 of the file are read. -/
theorem exists_process_dividedPlan :
    ∃ r s', dividing.process (.text "main.tjp" dividedPlan) = (.ok r, s') ∧ r.tokenCount = 15 ∧
      r.included = ["/plans/part.tji"] := by
  let check (outcome : Except ProcessError Processed) : Bool :=
    outcome.toOption.any fun r => r.tokenCount == 15 && r.included == ["/plans/part.tji"]
  obtain ⟨outcome, s', run, passed⟩ := Language.exists_process_of_check dividing "main.tjp"
    dividedPlan check (by decide +kernel)
  cases outcome with
  | error e => cases passed
  | ok r =>
    obtain ⟨count, included⟩ := Bool.and_eq_true_iff.mp passed
    exact ⟨r, s', run, beq_iff_eq.mp count, beq_iff_eq.mp included⟩

/-- The plan in two files has been read once and to its end. -/
theorem readsAll_of_process_dividedPlan :
    ∃ r s' main last, dividing.process (.text "main.tjp" dividedPlan) = (.ok r, s') ∧
      r.tokenCount = 15 ∧ r.included = ["/plans/part.tji"] ∧ r.ReadsAll dividing main last := by
  obtain ⟨r, s', run, count, included⟩ := exists_process_dividedPlan
  obtain ⟨-, main, -, -, -, c, -, -, -, -, -, -, all⟩ := readsAll_of_process run
  exact ⟨r, s', main, c.tokens, run, count, included, all⟩

end Session

end Planfile
