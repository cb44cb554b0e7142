import Planfile.Proofs.Pasting.Outline
import Planfile.Proofs.Pasting.Replay
import Planfile.Proofs.Typing.Language

/-!
# Planfile — where the language includes files

Whether a grammar fits an outline is found out rule by rule, without a plan. The language has its
outline: files are included in the body of a project and among its properties, and nowhere else.

Main results:

* `Matcher.pastes_including` — what an include statement among others does.
* `GrammarTable.fits_of_check` — what the check passes fits the outline.
* `Language.exists_fits` — the language fits its outline.
-/

/-!
## Include statements that are performed

An include statement among others reads its two tokens and goes on with the tokens of a file. Nothing
else comes of it: the project, and what is current in it, are as before, and it leaves nothing in the
text that a parse goes through.
-/

namespace Planfile

open TokenSource (Pastes)

/-- Only an identifier is matched by a keyword. -/
theorem Token.eq_of_matchesLiteral {token : Token} {word : String}
    (h : token.matchesLiteral word = true) (isWord : Terminal.isWord word = true) :
    token = .id word := by
  cases token with
  | id name =>
    have same : name = word := by simpa [matchesLiteral, literalText?] using h
    rw [same]
  | mark m =>
    have same : m.text = word := by simpa [matchesLiteral, literalText?] using h
    rw [← same] at isWord
    cases m <;> cases isWord
  | _ => cases h

theorem Token.exists_of_class?_string {token : Token} (h : token.class? = some .string) :
    ∃ value, token = .string value := by
  cases token with
  | string value => exact ⟨value, rfl⟩
  | _ => cases h

namespace Matcher

/-- An include statement reads its keyword and its path, and goes on with the tokens of a file. -/
theorem pastes_includeStatement {matchRule : RuleId → Matcher (Option Value)} {env : Surroundings}
    {c d : Context} {v : Option Value}
    (run : matchPattern matchRule includeStatement env c = (.ok v, d)) :
    v = none ∧ ∃ tokens journal, d = { c with tokens, journal } ∧
      Pastes env.preferences env.files c.tokens [] tokens := by
  rw [matchPattern, run_bind, run_get] at run
  -- its two symbols have been matched by the tokens ahead
  obtain ⟨items, e, symbols, run⟩ := exists_of_run_bind run
  obtain ⟨keyword, c₁, first, symbols⟩ := exists_of_run_bind symbols
  obtain ⟨isKeyword, rfl, rfl⟩ :=
    eq_of_run_terminal matchRule (a := .literal "include") rfl first
  obtain ⟨behind, c₂, symbols, last⟩ := exists_of_run_bind symbols
  cases last
  obtain ⟨name, c₃, second, last⟩ := exists_of_run_bind symbols
  obtain ⟨isName, rfl, rfl⟩ :=
    eq_of_run_terminal matchRule (a := .tokenClass .string) rfl second
  cases last
  -- these are the keyword and a string
  obtain ⟨keyword, sameKeyword, readKeyword⟩ :=
    advance_of_isEof (Terminal.isEof_of_accepts isKeyword)
  obtain ⟨name, sameName, readName⟩ := advance_of_isEof (Terminal.isEof_of_accepts isName)
  have included : c.tokens.peek = .id "include" :=
    Token.eq_of_matchesLiteral isKeyword (by decide)
  obtain ⟨path, isPath⟩ : ∃ path, (c.next env).tokens.peek = .string path :=
    Token.exists_of_class?_string (by simpa [Terminal.accepts] using isName)
  -- the action takes the string for the path
  obtain ⟨_, e, reported, run⟩ := exists_of_run_bind run
  cases reported
  obtain ⟨taken, e, given, run⟩ := exists_of_run_bind run
  rw [isPath] at given
  cases given
  obtain ⟨_, e, performed, last⟩ := exists_of_run_bind run
  obtain ⟨tokens, journal, rfl, opened⟩ := eq_of_run_includeFile performed
  cases last
  refine ⟨rfl, tokens, journal, rfl, ?_⟩
  obtain ⟨file, goesOn⟩ := TokenSource.exists_includes opened
  exact .paste readKeyword (sameKeyword.trans included) readName (sameName.trans isPath) goesOn
    (.done tokens)

theorem patterns_statement {t : GrammarTable} {o : Outline} (ho : t.Fits o) {c : Context}
    (hc : c.Sound t) :
    (LiveGrammar.mk t c.extensions).patterns o.statement = [includeStatement] := by
  rw [GrammarTable.patterns_of_isClosed hc (ho.closed o.statement ?_), ho.statementRule]
  simp [Outline.isFree]

/-- An include statement among others does what it does alone, and leaves nothing in the text. -/
theorem pastes_including {t : GrammarTable} {o : Outline} (ht : t.Extensible) (ho : t.Fits o)
    {env : Surroundings} {c d : Context} (he : env.grammar = t) (hc : c.Sound t) {fuel : Nat}
    {v : Option Value} (run : matchPattern (matchRule fuel) o.including env c = (.ok v, d)) :
    v = none ∧ patternText (matchRule fuel) (ruleText fuel) o.including env c = [] ∧
      ∃ tokens journal, d = { c with tokens, journal } ∧
        Pastes env.preferences env.files c.tokens [] tokens := by
  rw [matchPattern, run_bind, run_get] at run
  -- the only symbol is a reference to the rule for include statements
  obtain ⟨items, e, symbols, run⟩ := exists_of_run_bind run
  obtain ⟨item, c₁, first, symbols⟩ := exists_of_run_bind symbols
  obtain ⟨behind, c₂, symbols, last⟩ := exists_of_run_bind symbols
  cases last
  cases symbols
  obtain ⟨w, given, rfl⟩ := exists_of_run_map first
  obtain ⟨_, e, reported, run⟩ := exists_of_run_bind run
  cases reported
  cases run
  cases fuel with
  | zero => cases given
  | succ fuel =>
    obtain ⟨-, e, alternatives, rfl⟩ := exists_of_run_matchRule given
    have deeper : ({ c with depth := c.depth + 1 } : Context).Sound t := ⟨hc.extensions, hc.target⟩
    obtain ⟨chosen, journal, choice, one⟩ := exists_of_choose ht he deeper o.statement
    have once : (env.grammar.rule o.statement).repeatable = false := by
      rw [he, ho.statementRule]
    rw [run_matchAlternatives_of_single once, choice] at alternatives
    cases chosen with
    | none =>
      rw [he, ho.statementRule] at alternatives
      cases alternatives
    | some p =>
      -- it has one alternative, to which no plan can add another
      obtain ⟨mem, -⟩ := one p rfl
      rw [patterns_statement ho deeper, List.mem_singleton] at mem
      subst mem
      obtain ⟨rfl, tokens, journal, rfl, pastes⟩ := pastes_includeStatement alternatives
      refine ⟨rfl, ?_, tokens, _, rfl, pastes⟩
      show ruleText (fuel + 1) o.statement env c ++ [] = []
      rw [List.append_nil, ruleText, alternativesText, once, if_neg Bool.false_ne_true, choice]
      rfl

end Matcher

end Planfile

/-! ## The rules of the language -/

namespace Planfile

namespace GrammarTable

/-- Whether a rule is found to be a repetition of statements. -/
def checkStatements (t : GrammarTable) (o : Outline) (id : RuleId) : Bool :=
  let r := t.rule id
  r.optional && r.repeatable && t.startsOnly Terminal.isKeyword Limits.firstSetDepth (.rule id) &&
    r.patterns.all fun p =>
      p == o.including ||
        o.isFreePattern p && (tailRules p.symbols).all (t.endsClosed Limits.firstSetDepth)

/-- Whether a rule of the outline is found to take no attributes, and any other to have nothing to do
with including files. -/
def checkPlace (t : GrammarTable) (o : Outline) (id : RuleId) : Bool :=
  if o.isFree id then (t.rule id).patterns.all o.isFreePattern else t.isClosed id

/-- Whether a grammar is found to fit an outline. -/
def checkOutline (t : GrammarTable) (o : Outline) : Bool :=
  (t.rule o.project == ⟨"project", [⟨[.rule o.header, .rule o.body, .rule o.properties], none⟩],
      false, false⟩ &&
    t.rule o.body == ⟨"projectBody", [⟨[.literal "\x7b", .rule o.settings, .literal "\x7d"], none⟩],
      true, false⟩ &&
    t.rule o.statement == ⟨"include", [Matcher.includeStatement], false, false⟩) &&
  (o.isFree o.header && t.endsClosed Limits.firstSetDepth o.header) &&
  (t.checkStatements o o.settings && t.checkStatements o o.properties) &&
  ((List.range t.rules.size).all (fun i => t.checkPlace o ⟨i⟩) &&
    (t.ruleId? "referenceBody").all o.isFree)

/-- The rules around the places where files can be included, by their names. -/
def outline? (t : GrammarTable) : Option Outline := do
  return {
    project := ← t.ruleId? "project"
    header := ← t.ruleId? "projectHeader"
    body := ← t.ruleId? "projectBody"
    settings := ← t.ruleId? "projectBodyAttributes"
    properties := ← t.ruleId? "properties"
    statement := ← t.ruleId? "include" }

variable {t : GrammarTable} {o : Outline}

/-- The outline is that of the rule for projects. -/
theorem ruleId?_of_outline? (h : t.outline? = some o) : t.ruleId? "project" = some o.project := by
  unfold outline? at h
  -- it is the first of those that are looked up
  obtain ⟨id, known, rest⟩ := Option.bind_eq_some_iff.mp h
  simp only [Option.bind_eq_bind, Option.bind_eq_some_iff, Option.pure_def] at rest
  obtain ⟨_, -, _, -, _, -, _, -, _, -, same⟩ := rest
  cases same
  exact known

/-- What the check passes is a repetition of statements. -/
theorem repeatsStatements_of_check {id : RuleId} (h : t.checkStatements o id = true) :
    t.RepeatsStatements o id := by
  simp only [checkStatements, Bool.and_eq_true, List.all_eq_true, Bool.or_eq_true] at h
  obtain ⟨⟨⟨optional, repeatable⟩, keywords⟩, statements⟩ := h
  refine ⟨optional, repeatable, keywords, fun p hp => ?_⟩
  rcases statements p hp with including | ⟨free, closed⟩
  · exact .inl (by simpa using including)
  · exact .inr ⟨free, _, closed⟩

/-- The check of places is passed by the rules beyond the table as well. -/
theorem checkPlace_of_check (h : t.checkOutline o = true) (id : RuleId) :
    t.checkPlace o id = true := by
  simp only [checkOutline, Bool.and_eq_true, List.all_eq_true, List.mem_range] at h
  by_cases known : id.index < t.rules.size
  · exact h.2.1 id.index known
  · -- such a rule has neither alternatives nor a name
    rw [checkPlace, isClosed, rule_eq_default (Nat.le_of_not_lt known)]
    split <;> rfl

/-- What the check passes fits the outline. -/
theorem fits_of_check (named : t.outline? = some o) (h : t.checkOutline o = true) : t.Fits o := by
  have place := checkPlace_of_check h
  simp only [checkOutline, Bool.and_eq_true, beq_iff_eq] at h
  obtain ⟨⟨⟨⟨⟨project, body⟩, statement⟩, headerFree, headerEnds⟩, settings, properties⟩, -,
    reference⟩ := h
  refine ⟨ruleId?_of_outline? named, project, body, statement, ⟨headerFree, _, headerEnds⟩,
    repeatsStatements_of_check settings, repeatsStatements_of_check properties,
    fun id free p hp => ?_, fun id known => ?_, fun id bound => ?_⟩
  · have passed := place id
    rw [checkPlace, if_pos free, List.all_eq_true] at passed
    exact passed p hp
  · rw [known] at reference
    exact reference
  · have passed := place id
    rwa [checkPlace, bound, if_neg Bool.false_ne_true] at passed

end GrammarTable

namespace Language

/-- The language is found to include files where its outline says. -/
theorem check_outline :
    satisfies (fun t => t.outline?.any t.checkOutline) = true := by
  decide +kernel

/-- The language includes files where its outline says. -/
theorem exists_fits {table : GrammarTable} (h : grammar = .ok table) :
    ∃ o, table.Fits o := by
  obtain ⟨o, named, passed⟩ := (Option.any_eq_true _ _).mp (of_satisfies check_outline h)
  exact ⟨o, GrammarTable.fits_of_check named passed⟩

end Language

end Planfile
