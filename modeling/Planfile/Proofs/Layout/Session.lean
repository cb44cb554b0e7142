import Planfile.Proofs.Course.Language
import Planfile.Proofs.Layout.Matching
import Planfile.Proofs.Session.Outcome
import Planfile.Proofs.Token.Spacing

/-!
# Planfile — the layout of a plan does not matter

Comments, white space and line breaks are for readers. Of two texts with the same words, either both are
processed, and the same comes of them but for the lines of expressions, or both are refused, and it is said
of both that the same is wrong with them, though perhaps at another place.

Main results:

* `Language.isPlaceless` — no action of the language looks at the place of its pattern.
* `Session.sameOutcome_of_words` — the same comes of two texts with the same words.
* `Lexer.words_of_spacing` — a text with spacing put in has the same words.
-/

namespace Planfile

/-! ## The language does not look at places -/

theorem Action.isPlaceless_of_gives? {a : Action} {shapes : List Shape} {s : Shape}
    (h : a.gives? shapes = some s) : a.IsPlaceless := by
  cases a with
  | includeFile i => exact .inr ⟨i, rfl⟩
  | value | collect | pair | nothing | project | scenario | property | extend | report | logical
  | calendar => exact .inl rfl
  | _ => cases h

/-- The grammar of plans has no action that looks at the place of its pattern. -/
theorem Language.isPlaceless {table : GrammarTable} (made : Language.grammar = .ok table) :
    table.IsPlaceless := by
  obtain ⟨other, made', typed, -⟩ := Language.exists_typed
  obtain rfl : other = table := Except.ok.inj (made'.symm.trans made)
  intro id p mem a action
  obtain ⟨s, gives, -⟩ := typed.patterns id p mem
  rw [Pattern.gives?, Option.mem_def.mp action] at gives
  exact Action.isPlaceless_of_gives? gives

/-! ## Outcomes -/

/-- A project without the lines of its expressions. -/
def Plan.Project.lineless (p : Project) : Project := p.through .lineless

/-- An error without its place. -/
def ProcessError.placeless : ProcessError → ProcessError
  | .parse e => .parse { e with location := .startOf "" }
  | e => e

/-- The wording of an error without its place. -/
def ProcessError.wording : ProcessError → String
  | .parse e => e.message
  | e => e.message

/-- Whether the same comes of two texts. -/
inductive SameOutcome : Except ProcessError Processed → Except ProcessError Processed → Prop
  /-- As many tokens are read, from the same files, and the projects are the same but for the lines of
  expressions. -/
  | processed {r q : Processed} (tokenCount : q.tokenCount = r.tokenCount)
    (included : q.included = r.included) (project : q.project.lineless = r.project.lineless) :
    SameOutcome (.ok r) (.ok q)
  /-- The errors are the same but for their place: they are of one kind, with one code and one wording. -/
  | refused {e f : ProcessError} (placeless : f.placeless = e.placeless) (code : f.code = e.code)
    (wording : f.wording = e.wording) : SameOutcome (.error e) (.error f)

/-- The words of a text: its tokens without the comments, and without their places. -/
def wordsOf (tokens : List SpannedToken) : List Token :=
  (tokens.filter (·.token.isSignificant)).map (·.token)

/-- What is read from two texts of one name with the same words has the same words. -/
theorem TokenSource.sameWords_ofStream {ts us : List SpannedToken} (same : wordsOf us = wordsOf ts)
    (source source' : Option SourceText) (name : String) :
    (TokenSource.ofStream (.ofTokens ts source) name none).SameWords
      (.ofStream (.ofTokens us source') name none) where
  top := congrArg (Words.mk name none) same
  below := rfl
  consumed := rfl
  included := rfl
  file := rfl

open Matcher in
/-- The same comes of matching the same words. -/
theorem sameOutcome_of_sameWords {table : GrammarTable} (placeless : table.IsPlaceless)
    (files : File.System) (preferences : Settings.Preferences) {s t : TokenSource} (same : s.SameWords t)
    (journal journal' : Log.Journal) (metrics metrics' : LexicalMetrics) :
    SameOutcome
      ((matchPlan table files preferences s journal).1.map fun r =>
        ⟨r.1, none, metrics, r.2.consumed, r.2.included⟩)
      ((matchPlan table files preferences t journal').1.map fun r =>
        ⟨r.1, none, metrics', r.2.consumed, r.2.included⟩) := by
  -- at the start nothing has been built and nothing has been added
  have start : RunRelation.layout.Alike (.initial s journal) (.initial t journal') :=
    ⟨⟨same, rfl⟩, fun _ nothing => absurd nothing List.not_mem_nil, rfl⟩
  obtain ⟨ends, alike⟩ := RunRelation.parallel_plan RunRelation.inStep_layout RunRelation.takes_layout
    ⟨table, files, preferences⟩ _ _ _ ⟨rfl, placeless⟩ start
  rw [matchPlan, matchPlan]
  generalize plan ⟨table, files, preferences⟩ (.initial s journal) = r at ends alike ⊢
  generalize plan ⟨table, files, preferences⟩ (.initial t journal') = r' at ends alike ⊢
  obtain ⟨outcome, c⟩ := r
  obtain ⟨outcome', d⟩ := r'
  dsimp only at ends alike
  cases ends with
  | given project => exact .processed alike.words.consumed alike.words.included project
  | fault fault location location' => exact .refused rfl rfl rfl
  | outOfFuel => exact .refused rfl rfl rfl

namespace Session

/-- The same comes of two texts with the same words, whatever the layout, if the same files are there to be
included. -/
theorem sameOutcome_of_words {s s' : Session} (preferences : s'.preferences = s.preferences)
    (files : s'.files = s.files) {name first second : String} {ts us : List SpannedToken}
    (lexed : Lexer.lex s.preferences.lexical.countComments first.toList = .ok ts)
    (lexed' : Lexer.lex s.preferences.lexical.countComments second.toList = .ok us)
    (same : wordsOf us = wordsOf ts) :
    SameOutcome (s.processText name first).1 (s'.processText name second).1 := by
  obtain ⟨table, made⟩ := Language.exists_grammar
  rw [← preferences] at lexed'
  rw [fst_processText made lexed, fst_processText made lexed', files, preferences]
  exact sameOutcome_of_sameWords (Language.isPlaceless made) s.files s.preferences
    (TokenSource.sameWords_ofStream same _ _ name) _ _ _ _

/-- A plan with a report in which flagged tasks are hidden. -/
def narrowPlan : String :=
  "project p \"P\" \"1\" 2024-01-01 - 2025-01-01\nflags hot\nhtmltaskreport \"R\" \x7b hidetask hot \x7d"

/-- The same plan over more lines, with comments. -/
def widePlan : String :=
  "project p \"P\" \"1\"\n  2024-01-01 - 2025-01-01 # a year\nflags hot /* as\nis */\n" ++
    "htmltaskreport \"R\" \x7b\n  hidetask\n\thot\n\x7d\n"

/-- The wide plan has the words of the narrow one. -/
theorem exists_words_narrowPlan :
    ∃ ts us, Lexer.lex quiet.preferences.lexical.countComments narrowPlan.toList = .ok ts ∧
      Lexer.lex quiet.preferences.lexical.countComments widePlan.toList = .ok us ∧
      wordsOf us = wordsOf ts := by
  have check : (Lexer.lex quiet.preferences.lexical.countComments narrowPlan.toList).toOption.any
      (fun ts => (Lexer.lex quiet.preferences.lexical.countComments widePlan.toList).toOption.any
        fun us => wordsOf us == wordsOf ts) = true := by
    decide +kernel
  obtain ⟨ts, lexed, rest⟩ := (Option.any_eq_true _ _).mp check
  obtain ⟨us, lexed', same⟩ := (Option.any_eq_true _ _).mp rest
  have given {x : Except LexFailure (List SpannedToken)} {ts : List SpannedToken}
      (h : x.toOption = some ts) : x = .ok ts := by
    cases x with
    | error e => cases h
    | ok other => exact congrArg Except.ok (Option.some.inj h)
  exact ⟨ts, us, given lexed, given lexed', beq_iff_eq.mp same⟩

/-- The line of the expression that hides tasks in the first report. -/
def hidingLine? (p : Plan.Project) : Option Nat :=
  p.reports.head?.bind fun r => r.element.hideTask.map (·.line)

/-- The narrow plan is processed: 15 tokens are read, and the expression stands in the third line. -/
theorem exists_process_narrowPlan :
    ∃ r, (quiet.processText "main.tjp" narrowPlan).1 = .ok r ∧ r.tokenCount = 15 ∧
      hidingLine? r.project = some 3 := by
  let check (outcome : Except ProcessError Processed) : Bool :=
    outcome.toOption.any fun r => r.tokenCount == 15 && hidingLine? r.project == some 3
  obtain ⟨outcome, s', run, passed⟩ := Language.exists_process_of_check quiet "main.tjp" narrowPlan
    check (by decide +kernel)
  cases outcome with
  | error e => cases passed
  | ok r =>
    obtain ⟨count, line⟩ := Bool.and_eq_true_iff.mp passed
    exact ⟨r, congrArg Prod.fst run, beq_iff_eq.mp count, beq_iff_eq.mp line⟩

/-- So the wide plan is processed as well, and the same comes of it, but for the line. -/
theorem sameOutcome_of_words_narrowPlan :
    ∃ r q, (quiet.processText "main.tjp" narrowPlan).1 = .ok r ∧
      (quiet.processText "main.tjp" widePlan).1 = .ok q ∧ hidingLine? r.project = some 3 ∧
      q.tokenCount = 15 ∧ q.project.lineless = r.project.lineless := by
  obtain ⟨ts, us, lexed, lexed', same⟩ := exists_words_narrowPlan
  obtain ⟨r, run, count, line⟩ := exists_process_narrowPlan
  have outcome : SameOutcome (quiet.processText "main.tjp" narrowPlan).1
      (quiet.processText "main.tjp" widePlan).1 := sameOutcome_of_words rfl rfl lexed lexed' same
  rw [run] at outcome
  generalize (quiet.processText "main.tjp" widePlan).1 = wide at outcome
  cases outcome with
  | @processed _ q tokenCount _ project =>
    exact ⟨r, q, run, rfl, line, tokenCount.trans count, project⟩

end Session

end Planfile

/-!
## Spacing does not change the words of a text

White space can be put in wherever a token starts or stops, and so can a block comment, except directly
behind a line comment. The text that comes of it has the same words, and the same comes of processing it.
-/

namespace Planfile

theorem countOf_append (countComments : Bool) (first second : List Token) :
    countOf countComments (first ++ second) = countOf countComments first + countOf countComments second := by
  unfold countOf
  rw [List.filter_append, List.length_append]

/-- The words of a text are its tokens without the comments. -/
theorem wordsOf_eq_filter (tokens : List SpannedToken) :
    wordsOf tokens = (valuesOf tokens).filter (·.isSignificant) := by
  unfold wordsOf valuesOf
  rw [List.filter_map]
  rfl

/-- Tokens that the grammar does not see are no words. -/
theorem wordsOf_eq_of_unseen {tokens tokens' : List SpannedToken} {first extra second : List Token}
    (unseen : ∀ t ∈ extra, t.isSignificant = false) (values : valuesOf tokens = first ++ second)
    (same : valuesOf tokens' = first ++ extra ++ second) : wordsOf tokens' = wordsOf tokens := by
  have nothing : extra.filter (·.isSignificant) = [] := by
    refine List.filter_eq_nil_iff.mpr fun t ht seen => ?_
    rw [unseen t ht] at seen
    cases seen
  rw [wordsOf_eq_filter, wordsOf_eq_filter, values, same, List.filter_append, List.filter_append, nothing,
    List.append_nil, ← List.filter_append]

namespace Lexer

/-- A text that is read is read with spacing put in where a token starts or stops, but for the end of a line
comment, and it has the same words. -/
theorem words_of_spacing {countComments : Bool} {before after gap : List Char} {tokens : List SpannedToken}
    (lexed : lex countComments (before ++ after) = .ok tokens)
    (boundary : IsBoundary tokens (placeBehind before))
    (line : ¬EndsLineComment tokens (placeBehind before))
    (spacing : Spacing countComments (countOf countComments (valuesOf tokens)) gap) :
    ∃ tokens', lex countComments (before ++ gap ++ after) = .ok tokens' ∧
      wordsOf tokens' = wordsOf tokens := by
  by_cases some : gap = []
  · rw [some, List.append_nil]
    exact ⟨tokens, lexed, rfl⟩
  have fromStart : lexFrom countComments (before ++ after).length (placeBehind []) (before ++ after) [] 0 =
    .ok tokens := lexed
  obtain ⟨_, rfl, tiles⟩ := exists_tiles_of_lexFrom (Nat.le_refl _) fromStart
  obtain ⟨extra, reads⟩ := spacing.exists_reads
  obtain ⟨tokens', first, second, tiled, values, same⟩ :=
    tiles.insert reads (spacing.spaced some) rfl boundary line
  -- what was read keeps within the limit, and there is room for the spacing
  have room : 0 + countOf countComments (valuesOf tokens') ≤ Limits.tokenCount := by
    have fits := reads.fits (countOf_le_of_lex lexed)
    rw [values, countOf_append] at fits
    rw [same, countOf_append, countOf_append]
    omega
  exact ⟨tokens', lexFrom_of_tiles tiled [] (Nat.le_refl _) room,
    wordsOf_eq_of_unseen reads.unseen values same⟩

/-- A comment with digits and a colon in it, put in behind a date, does not make a time of day of what
follows the date. -/
theorem words_of_spacing_behind_date :
    let before := ['a', ' ', '2', '0', '2', '4', '-', '0', '1', '-', '0', '1']
    let after := ['-', '5', ' ', '#', 'c']
    let gap := ['/', '*', '4', ':', '*', '/']
    ∃ tokens tokens', lex true (before ++ after) = .ok tokens ∧ IsBoundary tokens (placeBehind before) ∧
      ¬EndsLineComment tokens (placeBehind before) ∧
      Spacing true (countOf true (valuesOf tokens)) gap ∧
      lex true (before ++ gap ++ after) = .ok tokens' ∧ wordsOf tokens' = wordsOf tokens := by
  intro before after gap
  let tokens : List SpannedToken :=
    [⟨.id "a", ⟨⟨0, 1, 1⟩, ⟨1, 1, 2⟩⟩⟩, ⟨.date ⟨2024, 1, 1, 0, 0, 0⟩, ⟨⟨2, 1, 3⟩, ⟨12, 1, 13⟩⟩⟩,
      ⟨.mark .minus, ⟨⟨12, 1, 13⟩, ⟨13, 1, 14⟩⟩⟩, ⟨.integer 5, ⟨⟨13, 1, 14⟩, ⟨14, 1, 15⟩⟩⟩,
      ⟨.comment "#c", ⟨⟨15, 1, 16⟩, ⟨17, 1, 18⟩⟩⟩, ⟨.eof, ⟨⟨17, 1, 18⟩, ⟨17, 1, 18⟩⟩⟩]
  have lexed : lex true (before ++ after) = .ok tokens := by rfl
  have boundary : IsBoundary tokens (placeBehind before) := by
    unfold IsBoundary
    decide
  have line : ¬EndsLineComment tokens (placeBehind before) := by
    unfold EndsLineComment
    decide
  have spacing : Spacing true (countOf true (valuesOf tokens)) gap :=
    @Spacing.comment true _ ['4', ':'] (by decide) (by decide) fun _ => by decide
  obtain ⟨tokens', lexed', same⟩ := words_of_spacing lexed boundary line spacing
  exact ⟨tokens, tokens', lexed, boundary, line, spacing, lexed', same⟩

end Lexer

end Planfile
