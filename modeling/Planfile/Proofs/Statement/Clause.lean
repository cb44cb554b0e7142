import Planfile.Proofs.Course.Region
import Planfile.Proofs.Pasting.Language
import Planfile.Proofs.Statement.Action
import Planfile.Proofs.Statement.Derivation

/-!
# Planfile — rules that are for statements

A statement that adds a task or a resource has a rule of its own: a header, which makes the entry, and a
body, at the end of which the action goes back. So has an include statement and the header of a report.
No other rule refers to a header of a task or a resource, and no other action makes an entry.

The tokens that a matched part has gone through are a word of it, and the statements in this word are
those that have been recorded meanwhile. Here this is shown of what has no body: the headers of tasks and
resources, include statements, and the headers of reports.

Main results:

* `GrammarTable.formed_of_check` — where the check passes, all rules are of these forms.
* `Headed.of_course` — the header of a task or a resource enters it.
* `Told.inclusion` — an include statement leaves nothing.
* `Told.report` — the header of a report records it.
-/

namespace Planfile

open Matcher
open Plan (PropertyKind ReportKind)
open TokenSource (Pastes)

/-! ## Forms of rules -/

section
variable (clauses : RuleId → Clause)

/-- What a symbol is the header of, if it is one of a task or a resource. -/
def Symbol.head? : Symbol → Option PropertyKind
  | .rule id => match clauses id with
    | .header kind => some kind
    | _ => none
  | _ => none

/-- Whether there is no header of a task or a resource among some symbols. -/
def headless (symbols : List Symbol) : Bool := symbols.all fun s => s.head? clauses == none

namespace GrammarTable

/-- Whether a rule is for the words that start reports. -/
def namesReports (t : GrammarTable) (id : RuleId) : Bool :=
  t.isSingle id && (t.rule id).patterns.all fun p =>
    ReportKind.all.any fun kind => p == ⟨[.literal kind.word], some (.value 0)⟩

end GrammarTable

/-- How the header of a task or a resource is read. -/
def headerPattern (kind : PropertyKind) : Pattern :=
  ⟨[.literal kind.word, .tokenClass .id, .tokenClass .string], some (.property (.header kind))⟩

/-- How the header of a report is read. -/
def reportPattern (type : RuleId) : Pattern :=
  ⟨[.rule type, .tokenClass .string], some (.report .header)⟩

/-- How a statement that adds a task or a resource is read. -/
def statementPattern (header : RuleId) (body : List Symbol) : Pattern :=
  ⟨.rule header :: body, some (.property .close)⟩

/-- Whether an alternative has the form that its rule is for. -/
def Clause.Admits (t : GrammarTable) : Clause → Pattern → Prop
  | .plain, p => headless clauses p.symbols = true ∧ ∀ a, p.action = some a → a.isPlain = true
  | .inclusion, p => p = includeStatement
  | .report, p => ∃ type, p = reportPattern type ∧ t.namesReports type = true
  | .statement kind, p => ∃ header body, p = statementPattern header body ∧
    clauses header = .header kind ∧ headless clauses body = true
  | .header kind, p => p = headerPattern kind

/-- Whether all rules of a grammar have the forms that they are for, and those to which a plan can add
attributes are for nothing else. -/
structure GrammarTable.Formed (t : GrammarTable) : Prop where
  single : ∀ id, clauses id ≠ .plain → t.isSingle id = true
  admits : ∀ id, ∀ p ∈ (t.rule id).patterns, (clauses id).Admits clauses t p
  reference : ∀ id, t.ruleId? "referenceBody" = some id → clauses id = .plain

/-! ## Checking a grammar -/

/-- Whether an alternative is found to have the form that its rule is for. -/
def Clause.check (t : GrammarTable) (p : Pattern) : Clause → Bool
  | .plain => headless clauses p.symbols && p.action.all (·.isPlain)
  | .inclusion => p == includeStatement
  | .report =>
    match p.symbols with
    | .rule type :: _ => p == reportPattern type && t.namesReports type
    | _ => false
  | .statement kind =>
    match p.symbols with
    | .rule first :: body =>
      p == statementPattern first body && clauses first == .header kind && headless clauses body
    | _ => false
  | .header kind => p == headerPattern kind

/-- Whether a rule is found to have the form that it is for. -/
def GrammarTable.checkClause (t : GrammarTable) (id : RuleId) : Bool :=
  (clauses id == .plain || t.isSingle id) &&
    (t.rule id).patterns.all fun p => (clauses id).check clauses t p

/-- Whether the rules of a grammar are found to have the forms that they are for. -/
def GrammarTable.checkClauses (t : GrammarTable) : Bool :=
  (List.range t.rules.size).all (fun i => t.checkClause clauses ⟨i⟩) &&
    (t.ruleId? "referenceBody").all fun id => clauses id == .plain

end

section
variable {clauses : RuleId → Clause} {t : GrammarTable}

theorem Clause.admits_of_check {clause : Clause} {p : Pattern} (h : clause.check clauses t p = true) :
    clause.Admits clauses t p := by
  cases clause with
  | plain =>
    obtain ⟨symbols, action⟩ := Bool.and_eq_true_iff.mp h
    exact ⟨symbols, fun a ha => by rwa [ha, Option.all_some] at action⟩
  | inclusion => exact beq_iff_eq.mp h
  | report =>
    unfold check at h
    dsimp only at h
    split at h
    · next type _ _ =>
      obtain ⟨form, words⟩ := Bool.and_eq_true_iff.mp h
      exact ⟨type, beq_iff_eq.mp form, words⟩
    · cases h
  | statement kind =>
    unfold check at h
    dsimp only at h
    split at h
    · next first body _ =>
      obtain ⟨parts, rest⟩ := Bool.and_eq_true_iff.mp h
      obtain ⟨form, heads⟩ := Bool.and_eq_true_iff.mp parts
      exact ⟨first, body, beq_iff_eq.mp form, beq_iff_eq.mp heads, rest⟩
    · cases h
  | header kind => exact beq_iff_eq.mp h

/-- Where the check passes, all rules have the forms that they are for. -/
theorem GrammarTable.formed_of_check (h : t.checkClauses clauses = true) : t.Formed clauses := by
  obtain ⟨rules, reference⟩ := Bool.and_eq_true_iff.mp h
  have checked := @rule_eq_default_or_of_all t (t.checkClause clauses)
    fun i known => List.all_eq_true.mp rules i (List.mem_range.mpr known)
  refine ⟨fun id other => ?_, fun id p hp => ?_, fun id known => ?_⟩
  · rcases checked id with absent | passed
    · rw [isSingle, absent]
      decide
    · rcases Bool.or_eq_true_iff.mp (Bool.and_eq_true_iff.mp passed).1 with plain | single
      · exact absurd (beq_iff_eq.mp plain) other
      · exact single
  · rcases checked id with absent | passed
    · rw [absent] at hp
      cases hp
    · exact Clause.admits_of_check (List.all_eq_true.mp (Bool.and_eq_true_iff.mp passed).2 p hp)
  · rw [known, Option.all_some] at reference
    exact beq_iff_eq.mp reference

/-- All alternatives of a rule have the form that the rule is for, those that a plan can add included. -/
theorem GrammarTable.Formed.offers (h : t.Formed clauses) {reference : RuleId}
    (known : t.ruleId? "referenceBody" = some reference) {id : RuleId} {p : Pattern}
    (offered : t.Offers id p) : (clauses id).Admits clauses t p := by
  rcases offered with declared | ⟨extendable, e, full, resolved, action⟩
  · exact h.admits id p declared
  · have plain : clauses id = .plain := by
      by_contra other
      exact GrammarTable.not_isExtendable_of_isSingle (h.single id other) extendable
    rw [plain]
    rw [e.mapM_symbols full known] at resolved
    refine ⟨?_, fun a ha => ?_⟩
    · -- of its symbols only the body of a reference is a rule
      rw [← Except.ok.inj resolved]
      unfold AttributeExtension.tailSymbols
      cases e.kind <;> simp [headless, Symbol.head?, h.reference reference known]
    · cases action.symm.trans ha
      rfl

end

theorem Token.exists_of_class?_id {token : Token} (h : token.class? = some .id) :
    ∃ name, token = .id name := by
  cases token with
  | id name => exact ⟨name, rfl⟩
  | _ => cases h

section
variable {ofRule : RuleId → Shape} {effects : Effects} {env : Surroundings} {c d : Context}

/-! ## Terminals -/

/-- Terminals one after the other read a token each. -/
theorem Course.of_terminals {terminals : List Terminal} {symbols : List Symbol}
    (h : symbols.map (·.terminal?) = terminals.map some) {items : List MatchedValue}
    (course : Course ofRule effects env (.symbols symbols) c items d) :
    ∃ text tokens journal, List.Forall₂ (fun a token => a.accepts token = true) terminals text ∧
      items = List.zipWith Terminal.matched terminals text ∧ d = { c with tokens, journal } ∧
      c.tokens.Reads text tokens := by
  induction terminals generalizing symbols c items with
  | nil =>
    obtain rfl : symbols = [] := List.map_eq_nil_iff.mp h
    cases course
    exact ⟨[], d.tokens, d.journal, .nil, rfl, rfl, .done _⟩
  | cons a terminals ih =>
    obtain ⟨s, rest, rfl, found, others⟩ := List.map_eq_cons_iff.mp h
    cases course with
    | terminal hs fits rest =>
      obtain rfl := Option.some.inj (hs.symm.trans found)
      obtain ⟨text, tokens, journal, all, rfl, rfl, reads⟩ := ih others rest
      obtain ⟨token, same, read⟩ := advance_of_isEof (Terminal.isEof_of_accepts fits)
      exact ⟨c.tokens.peek :: text, tokens, journal, .cons fits all, rfl, rfl, same ▸ .token read reads⟩
    | reference course rest => cases found

/-- Where an alternative has been matched, its action has been performed behind its symbols. -/
theorem Course.of_acting {p : Pattern} {a : Action} (action : p.action = some a) {v : Option Value}
    (course : Course ofRule effects env (.pattern p) c v d) :
    ∃ items x journal matchRule, Course ofRule effects env (.symbols p.symbols) c items x ∧
      Prepared env.grammar ofRule effects p ⟨items, c.tokens.location⟩ { x with journal } ∧
      a.perform matchRule ⟨items, c.tokens.location⟩ env { x with journal } = (.ok v, d) := by
  cases course with
  | @pattern _ _ x _ items _ matchRule course prepared acted =>
    obtain ⟨journal, run⟩ := exists_run_performed matchRule action c.tokens.location items env x
    rw [run] at acted
    exact ⟨items, x, journal, matchRule, course, prepared.of_journal journal, acted⟩

/-- Where an alternative that consists of terminals has been matched, its action has been performed with
their tokens. -/
theorem Course.of_terminalPattern {p : Pattern} {a : Action} (action : p.action = some a)
    {terminals : List Terminal} (h : p.symbols.map (·.terminal?) = terminals.map some) {v : Option Value}
    (course : Course ofRule effects env (.pattern p) c v d) :
    ∃ text tokens journal matchRule,
      List.Forall₂ (fun a token => a.accepts token = true) terminals text ∧ c.tokens.Reads text tokens ∧
      Prepared env.grammar ofRule effects p
        ⟨List.zipWith Terminal.matched terminals text, c.tokens.location⟩ { c with tokens, journal } ∧
      a.perform matchRule ⟨List.zipWith Terminal.matched terminals text, c.tokens.location⟩ env
        { c with tokens, journal } = (.ok v, d) := by
  obtain ⟨items, _, journal, matchRule, course, prepared, acted⟩ := course.of_acting action
  obtain ⟨text, tokens, _, fits, rfl, rfl, reads⟩ := course.of_terminals h
  exact ⟨text, tokens, journal, matchRule, fits, reads, prepared, acted⟩

/-- Tokens that terminals accept are a word of them. -/
theorem LiveGrammar.Derives.of_terminals {g : LiveGrammar} {terminals : List Terminal}
    {symbols : List Symbol} (h : symbols.map (·.terminal?) = terminals.map some) {text : List Token}
    (fits : List.Forall₂ (fun a token => a.accepts token = true) terminals text) :
    g.Derives symbols text := by
  induction fits generalizing symbols with
  | nil =>
    obtain rfl : symbols = [] := List.map_eq_nil_iff.mp h
    exact .nil
  | cons fits _ ih =>
    obtain ⟨s, rest, rfl, found, others⟩ := List.map_eq_cons_iff.mp h
    exact .terminal found fits (ih others)

/-- How a heading is read: a word, an id and a name. -/
def headingPattern (word : String) (a : Action) : Pattern :=
  ⟨[.literal word, .tokenClass .id, .tokenClass .string], some a⟩

/-- Where a heading has been matched, its action has been performed with its id and its name. -/
theorem Course.of_headingPattern {word : String} (isWord : Terminal.isWord word = true) {a : Action}
    {v : Option Value} (course : Course ofRule effects env (.pattern (headingPattern word a)) c v d) :
    ∃ own name tokens journal matchRule, c.tokens.Reads [.id word, .id own, .string name] tokens ∧
      (∀ g : LiveGrammar, g.Derives (headingPattern word a).symbols [.id word, .id own, .string name]) ∧
      ∃ v', v'.string 1 = .ok own ∧ v'.string 2 = .ok name ∧
        Prepared env.grammar ofRule effects (headingPattern word a) v' { c with tokens, journal } ∧
        a.perform matchRule v' env { c with tokens, journal } = (.ok v, d) := by
  have terminals : (headingPattern word a).symbols.map (·.terminal?) =
      [Terminal.literal word, .tokenClass .id, .tokenClass .string].map some := rfl
  obtain ⟨text, tokens, journal, matchRule, fits, reads, prepared, acted⟩ :=
    course.of_terminalPattern (p := headingPattern word a) rfl terminals
  have derives (g : LiveGrammar) : g.Derives (headingPattern word a).symbols text := .of_terminals terminals fits
  rcases fits with _ | ⟨isKeyword, _ | ⟨isId, _ | ⟨isName, ⟨⟩⟩⟩⟩
  obtain rfl := Token.eq_of_matchesLiteral isKeyword isWord
  obtain ⟨own, rfl⟩ := Token.exists_of_class?_id (by simpa [Terminal.accepts] using isId)
  obtain ⟨name, rfl⟩ := Token.exists_of_class?_string (by simpa [Terminal.accepts] using isName)
  exact ⟨own, name, tokens, journal, matchRule, reads, derives, _, rfl, rfl, prepared, acted⟩

/-- Where a rule that always stands for one alternative has been matched, this one has, and it is in force whatever
has been added. -/
theorem Course.of_isOnly {p : Pattern} {id : RuleId} (only : env.grammar.isOnly p id = true) {v : Option Value}
    (course : Course ofRule effects env (.rule id) c v d) :
    ∃ noted x, (∀ added, p ∈ LiveGrammar.patterns ⟨env.grammar, added⟩ id) ∧ d = { x with depth := x.depth - 1 } ∧
      Course ofRule effects env (.pattern p) { c with depth := c.depth + 1, journal := noted } v x := by
  obtain ⟨single, form⟩ := Bool.and_eq_true_iff.mp only
  obtain ⟨q, noted, x, declared, same, inner⟩ := course.of_isSingle single
  obtain rfl : q = p := by
    rw [beq_iff_eq.mp form] at declared
    exact List.mem_singleton.mp declared
  exact ⟨noted, x, fun _ => List.mem_append_left _ declared, same, inner⟩

/-- Where a rule for headings has been matched, its action has been performed with an id and a name. -/
theorem Course.of_isOnly_heading {word : String} (isWord : Terminal.isWord word = true) {a : Action}
    {id : RuleId} (only : env.grammar.isOnly (headingPattern word a) id = true) {v : Option Value}
    (course : Course ofRule effects env (.rule id) c v d) :
    ∃ own name tokens journal matchRule x, c.tokens.Reads [.id word, .id own, .string name] tokens ∧
      (∀ added, LiveGrammar.Derives ⟨env.grammar, added⟩ [.rule id] [.id word, .id own, .string name]) ∧
      ∃ v', v'.string 1 = .ok own ∧ v'.string 2 = .ok name ∧
        Prepared env.grammar ofRule effects (headingPattern word a) v'
          { c with tokens, journal, depth := c.depth + 1 } ∧
        a.perform matchRule v' env { c with tokens, journal, depth := c.depth + 1 } = (.ok v, x) ∧
        d = { x with depth := x.depth - 1 } := by
  obtain ⟨noted, x, mem, rfl, inner⟩ := course.of_isOnly only
  obtain ⟨own, name, tokens, journal, matchRule, reads, derives, v', isId, isName, prepared, acted⟩ :=
    inner.of_headingPattern isWord
  exact ⟨own, name, tokens, journal, matchRule, x, reads, fun added => .alternative (mem added) (derives _),
    v', isId, isName, prepared, acted, rfl⟩

/-! ## What a part has told -/

/-- Whether matching some symbols has led from one state to another, where the tokens that it has gone
through are a word of the symbols and the statements in it have been recorded. -/
structure Told (clauses : RuleId → Clause) (env : Surroundings) (symbols : List Symbol) (c : Context)
    (text : List Token) (contents : Contents) (d : Context) : Prop where
  pastes : Pastes env.preferences env.files c.tokens text d.tokens
  /-- This holds in the grammar of the end, and when more has been added to it. -/
  tells : ∀ added, d.extensions <+: added →
    LiveGrammar.Tells ⟨env.grammar, added⟩ clauses symbols text contents
  records : c.entryLists.Records contents d.entryLists
  grows : c.extensions <+: d.extensions

/-- Whether matching the header of a task or a resource has led from one state to another, in its
body. -/
structure Headed (env : Surroundings) (header : RuleId) (kind : PropertyKind) (c : Context)
    (own name : String) (d : Context) : Prop where
  pastes : Pastes env.preferences env.files c.tokens (LiveGrammar.headerText kind own name) d.tokens
  heading : ∀ added, LiveGrammar.Derives ⟨env.grammar, added⟩ [.rule header]
    (LiveGrammar.headerText kind own name)
  place : c.entryLists.property.all (·.1 = kind) = true
  entered : d.entryLists = c.entryLists.enter kind own name
  extensions : d.extensions = c.extensions

variable {clauses : RuleId → Clause} (formed : env.grammar.Formed clauses) {reference : RuleId}
  (known : env.grammar.ruleId? "referenceBody" = some reference)

/-- The alternatives of a rule to which no plan can add others are in force from the start on. -/
theorem mem_patterns_of_isSingle {id : RuleId} (single : env.grammar.isSingle id = true) {p : Pattern}
    (offered : env.grammar.Offers id p) (added : List (RuleId × Pattern)) :
    p ∈ LiveGrammar.patterns ⟨env.grammar, added⟩ id :=
  List.mem_append_left _ (offered.mem_of_isSingle single)

/-- The word that starts a report is read as what it is. -/
theorem Course.of_namesReports {type : RuleId} (words : env.grammar.namesReports type = true)
    {v : Option Value} (course : Course ofRule effects env (.rule type) c v d) :
    ∃ (kind : ReportKind) (tokens : TokenSource) (journal : Log.Journal),
      v = some (.str kind.word) ∧ d = { c with tokens, journal } ∧
      c.tokens.Reads [.id kind.word] tokens ∧
      ∀ added, LiveGrammar.Derives ⟨env.grammar, added⟩ [.rule type] [.id kind.word] := by
  obtain ⟨single, forms⟩ := Bool.and_eq_true_iff.mp words
  obtain ⟨p, noted, x, mem, rfl, course⟩ := course.of_isSingle single
  have form := List.all_eq_true.mp forms p mem
  obtain ⟨kind, -, form⟩ := List.any_eq_true.mp form
  obtain rfl := beq_iff_eq.mp form
  have terminals : [Symbol.literal kind.word].map (·.terminal?) =
      [Terminal.literal kind.word].map some := rfl
  obtain ⟨text, tokens, journal, matchRule, fits, reads, -, acted⟩ :=
    course.of_terminalPattern (p := ⟨[.literal kind.word], some (.value 0)⟩) rfl terminals
  have word (added : List (RuleId × Pattern)) :
      LiveGrammar.Derives ⟨env.grammar, added⟩ [.rule type] text :=
    .alternative (List.mem_append_left _ mem) (.of_terminals terminals fits)
  rcases fits with _ | ⟨isWord, ⟨⟩⟩
  obtain rfl := Token.eq_of_matchesLiteral isWord (by cases kind <;> decide)
  cases acted
  exact ⟨kind, tokens, _, rfl, rfl, reads, word⟩

/-- An include statement goes on with the tokens of a file, and nothing of it is left. -/
theorem Course.of_includeStatement {v : Option Value}
    (course : Course ofRule effects env (.pattern includeStatement) c v d) :
    ∃ tokens journal, d = { c with tokens, journal } ∧
      Pastes env.preferences env.files c.tokens [] tokens := by
  have terminals : includeStatement.symbols.map (·.terminal?) =
      [Terminal.literal "include", .tokenClass .string].map some := rfl
  obtain ⟨text, tokens, journal, matchRule, fits, reads, -, acted⟩ :=
    course.of_terminalPattern (p := includeStatement) rfl terminals
  rcases fits with _ | ⟨isKeyword, _ | ⟨isName, ⟨⟩⟩⟩
  obtain rfl := Token.eq_of_matchesLiteral isKeyword (by decide)
  obtain ⟨path, rfl⟩ := Token.exists_of_class?_string (by simpa [Terminal.accepts] using isName)
  obtain ⟨-, _, ahead, noted, first, rfl, opened⟩ := Action.eq_of_run_includeFile _ acted
  cases first
  obtain ⟨keyword, behind, same, read, reads⟩ := reads.of_cons
  obtain ⟨name, _, sameName, readName, reads⟩ := reads.of_cons
  cases reads
  obtain ⟨file, included⟩ := TokenSource.exists_includes opened
  exact ⟨ahead, noted, rfl, .paste read same readName sameName included (.done ahead)⟩

section
variable {id : RuleId} {p : Pattern} (offered : env.grammar.Offers id p) {v : Option Value}
  (course : Course ofRule effects env (.pattern p) c v d) (placed : c.entryLists.Placed)

include formed known offered course placed

/-- The header of a task or a resource enters it. -/
theorem Headed.of_course {kind : PropertyKind} (heads : clauses id = .header kind) :
    ∃ own name, Headed env id kind c own name d := by
  have form := formed.offers known offered
  have single := formed.single id (by rw [heads]; exact Clause.noConfusion)
  rw [heads] at form
  obtain rfl : p = headerPattern kind := form
  obtain ⟨own, name, tokens, journal, matchRule, reads, derives, _, isId, isName, prepared, acted⟩ :=
    Course.of_headingPattern (by cases kind <;> decide) course
  have word (added : List (RuleId × Pattern)) :
      LiveGrammar.Derives ⟨env.grammar, added⟩ [.rule id] (LiveGrammar.headerText kind own name) :=
    .alternative (mem_patterns_of_isSingle single offered added) (derives _)
  have there : ({ c with tokens, journal } : Context).entryLists.Placed := placed
  obtain ⟨_, _, first, second, same, extensions, entered⟩ := PropertyAction.entryLists_header there acted
  cases isId.symm.trans first
  cases isName.symm.trans second
  exact ⟨own, name, same ▸ reads.pastes, word, (prepared.allows _ rfl).place_of_header, entered,
    extensions⟩

/-- An include statement leaves nothing. -/
theorem Told.inclusion (includes : clauses id = .inclusion) :
    Told clauses env [.rule id] c [] .none d := by
  have form := formed.offers known offered
  rw [includes] at form
  obtain rfl : p = includeStatement := form
  obtain ⟨tokens, journal, rfl, pastes⟩ := course.of_includeStatement
  exact ⟨pastes, fun _ _ => .included includes .nil, .refl placed, List.prefix_rfl⟩

/-- The header of a report records it. -/
theorem Told.report (heads : clauses id = .report) :
    ∃ text contents, Told clauses env [.rule id] c text contents d := by
  -- the form of the header: a rule that reads the type, and the name behind it
  have form := formed.offers known offered
  have single := formed.single id (by rw [heads]; exact Clause.noConfusion)
  rw [heads] at form
  obtain ⟨type, rfl, words⟩ := form
  obtain ⟨items, x, noted, matchRule, course, prepared, acted⟩ :=
    course.of_acting (p := reportPattern type) rfl
  cases course with
  | terminal hs _ _ => cases hs
  | reference course rest =>
    obtain ⟨kind, ahead, before, rfl, rfl, first, derives⟩ := course.of_namesReports words
    have terminals : [Symbol.tokenClass .string].map (·.terminal?) =
        [Terminal.tokenClass .string].map some := rfl
    obtain ⟨text, tokens, journal, fits, rfl, rfl, second⟩ := rest.of_terminals terminals
    have word (added : List (RuleId × Pattern)) :
        LiveGrammar.Derives ⟨env.grammar, added⟩ [.rule id] ([.id kind.word] ++ text) :=
      .alternative (mem_patterns_of_isSingle single offered added)
        ((derives added).append (.of_terminals terminals fits))
    rcases fits with _ | ⟨isName, ⟨⟩⟩
    obtain ⟨name, rfl⟩ := Token.exists_of_class?_string (by simpa [Terminal.accepts] using isName)
    have there : ({ c with tokens, journal := noted } : Context).entryLists.Placed := placed
    obtain ⟨other, _, _, named, isWord, isName, same, extensions, recorded⟩ :=
      ReportAction.entryLists_header acted
    cases isWord
    cases isName
    -- a type is recorded for its word, and no two types have the same one
    obtain rfl : other = kind := by
      cases kind <;> cases named <;> rfl
    refine ⟨[.id other.word, .string name], .report other name, ?_, fun added _ => ?_, ?_,
      extensions ▸ List.prefix_rfl⟩
    · rw [same]
      exact (first.append second).pastes
    · exact .report heads (word added) .nil
    · rw [recorded]
      exact there.records_enterReport other name

end

end

end Planfile
