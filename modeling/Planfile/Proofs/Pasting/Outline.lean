import Planfile.Proofs.Parallel.Action
import Planfile.Proofs.Parallel.View
import Planfile.Proofs.Source.OwnFile
import Planfile.Proofs.Typing.Soundness

/-!
# Planfile — where files can be included

Files can be included in two places of a plan, both of them repetitions of statements. What stands
there is not seen the same way when the included text takes the place of its include statement: the
statement before has a different token behind it. It makes no difference, because a statement ends
with what does not look at any of these tokens. An outline names the rules around the two places, and
a grammar fits the outline if only these rules include files and all statements end in this way.

Main results:

* `Plan.Project.Alike.forget` — projects that are alike are the same without the places.
* `Values.Alike.same` — values that are alike look the same without the places.
* `Matcher.agree_of_parallel` — computations that are parallel whatever their tokens agree.
* `Matcher.agree_perform` — an action does the same wherever its pattern is written.
* `GrammarTable.exists_terminal` — a symbol starts with one of its first terminals, whatever a plan
  has added.
* `GrammarTable.startsInner_of_endsClosed` — a rule at the end of a statement that need not match
  does not start with a token behind the statement.
-/

/-!
## Computations that do the same

What statements do depends neither on the tokens ahead nor on the journal, and not on where
expressions are written. Two states are alike if they differ in nothing else, and two computations
agree if, wherever the first one comes to its end, the second one does so from a state that is alike,
and leaves one that is. Neither of them reads a token.
-/

/-!
## The same but for places

The same statements can stand in one file or in several, at one place or another. What is built from
them is the same, except that an expression knows the place where it is written. Forgetting these
places says when two projects, or the values of two matched patterns, differ in nothing else.
-/

namespace Planfile

/-! ## Expressions without their place -/

namespace Plan

/-- An expression without the place where it is written. -/
def LogicalExpression.forget (e : LogicalExpression) : LogicalExpression :=
  { e with file := "", line := 0 }

/-- An element without the places of its expressions. -/
def ReportElement.forget (e : ReportElement) : ReportElement :=
  { e with
    hideResource := e.hideResource.map .forget
    hideTask := e.hideTask.map .forget
    rollupTask := e.rollupTask.map .forget }

/-- A report without the places of its expressions. -/
def Report.forget (r : Report) : Report := { r with element := r.element.forget }

/-- A project without the places of its expressions. -/
def Project.forget (p : Project) : Project := { p with reports := p.reports.map .forget }

/-- Whether two projects differ at most in the places of expressions. -/
inductive Project.Alike (p : Project) : Project → Prop
  | intro (reports : List Report) (same : reports.map Report.forget = p.reports.map Report.forget) :
    Alike p { p with reports }

namespace Project.Alike

variable {p q : Project}

theorem refl (p : Project) : p.Alike p := .intro p.reports rfl

/-- Projects that are alike are the same without the places. -/
theorem forget (h : p.Alike q) : q.forget = p.forget := by
  obtain ⟨reports, same⟩ := h
  rw [Project.forget, Project.forget, same]

/-- Projects that are the same without the places are alike. -/
theorem of_forget (h : q.forget = p.forget) : p.Alike q := by
  cases p
  cases q
  simp only [Project.forget, Project.mk.injEq] at h
  obtain ⟨rfl, rfl, rfl, rfl, rfl, rfl, rfl, rfl, rfl, same⟩ := h
  exact .intro _ same

/-- There are projects that are alike, or there is none, if without the places there is the same. -/
theorem rel_iff {a b : Option Project} :
    Option.Rel Project.Alike a b ↔ b.map (·.through .forget) = a.map (·.through .forget) := by
  constructor
  · intro h
    cases h with
    | none => rfl
    | some alike => exact congrArg some alike.forget
  · intro h
    cases rel_of_map_eq h with
    | none => exact .none
    | some same => exact .some (.of_forget same)

end Project.Alike

end Plan

/-! ## Values without places -/

namespace Value

mutual

/-- A value without the places of expressions. -/
def forget : Value → Value
  | .expression e => .expression e.forget
  | .list items => .list (forgetAll items)
  | .pair first second => .pair first.forget second.forget
  | v => v

/-- Values without the places of expressions. -/
def forgetAll : List Value → List Value
  | [] => []
  | v :: rest => v.forget :: forgetAll rest

end

/-- Values lose the places of expressions one by one. -/
theorem forgetAll_eq_map (values : List Value) : forgetAll values = values.map forget := by
  induction values with
  | nil => rw [forgetAll, List.map_nil]
  | cons v rest ih => rw [forgetAll, ih, List.map_cons]

/-- Forgetting places is a way of looking at values. -/
theorem forget_eq_through (v : Value) : v.forget = v.through .forget := by
  -- by induction on the value and the values in it
  refine forget.induct (fun v => v.forget = v.through .forget)
    (fun values => forgetAll values = allThrough .forget values) ?_ ?_ ?_ ?_ ?_ ?_ v
  · exact fun e => rfl
  · intro items ih
    rw [forget, ih, through]
  · intro first second ih ih'
    rw [forget, ih, ih', through]
  · -- no other value holds an expression
    intro v noExpression noList noPair
    rw [forget, through] <;> assumption
  · rfl
  · intro v rest ih ih'
    rw [forgetAll, ih, ih', allThrough]

/-- Whether two values, if there are any, differ at most in places. -/
abbrev Alike (v w : Option Value) : Prop := w.map forget = v.map forget

end Value

/-- Whether the values of two patterns differ at most in places. -/
def Values.Alike (v w : Values) : Prop := ∀ i, Value.Alike (v.value? i) (w.value? i)

/-- Values that are alike look the same without the places. -/
theorem Values.Alike.same {v w : Values} (h : v.Alike w) : v.Same .forget w := by
  refine ⟨fun i => ?_, fun _ => rfl⟩
  have alike := h i
  simpa only [Value.Alike, funext Value.forget_eq_through] using alike

end Planfile

/-! ## Computations that agree -/

namespace Planfile

open Plan (Project)

/-- Whether two states differ at most in the tokens ahead, in the journal and the mark for misspelt
attributes, and in the places of expressions. -/
inductive Context.Alike (c : Context) : Context → Prop
  | intro (tokens : TokenSource) (journal : Log.Journal) (stop : Option StopMark)
    (project : Option Project) (same : Option.Rel Project.Alike c.project project) :
    Alike c { c with tokens, journal, stop, project }

namespace Context.Alike

variable {c d : Context}

/-- A state is like itself. -/
theorem refl (c : Context) : c.Alike c := by
  refine .intro c.tokens c.journal c.stop c.project ?_
  cases c.project with
  | none => exact .none
  | some p => exact .some (.refl p)

/-- The tokens ahead, the journal and the mark can be any. -/
theorem of_changed (h : c.Alike d) (tokens : TokenSource) (journal : Log.Journal)
    (stop : Option StopMark) : c.Alike { d with tokens, journal, stop } := by
  obtain ⟨_, _, _, project, same⟩ := h
  exact .intro tokens journal stop project same

/-- The first state can change in the same ways. -/
theorem changed (h : c.Alike d) (tokens : TokenSource) (journal : Log.Journal)
    (stop : Option StopMark) : ({ c with tokens, journal, stop } : Context).Alike d := by
  obtain ⟨tokens', journal', stop', project, same⟩ := h
  exact .intro tokens' journal' stop' project same

theorem withDepth (h : c.Alike d) (depth : Nat) :
    ({ c with depth } : Context).Alike { d with depth } := by
  obtain ⟨tokens, journal, stop, project, same⟩ := h
  exact .intro tokens journal stop project same

/-! What is current is the same in both states. -/

theorem extensions (h : c.Alike d) : d.extensions = c.extensions := by cases h; rfl

theorem depth (h : c.Alike d) : d.depth = c.depth := by cases h; rfl

/-- Where there is a project, there is one in the other state. -/
theorem exists_project (h : c.Alike d) {p : Project} (hp : c.project = some p) :
    ∃ q, d.project = some q ∧ p.Alike q := by
  obtain ⟨_, _, _, project, same⟩ := h
  rw [hp] at same
  cases same with
  | some alike => exact ⟨_, rfl, alike⟩

/-- States that are alike look the same without the places. -/
theorem built (h : c.Alike d) : d.built .forget = c.built .forget := by
  obtain ⟨_, _, _, project, same⟩ := h
  show { c.built .forget with project := project.map (·.through .forget) } = c.built .forget
  rw [Project.Alike.rel_iff.mp same]
  rfl

/-- States that look the same without the places are alike. -/
theorem of_built (h : d.built .forget = c.built .forget) : c.Alike d := by
  have projects : Option.Rel Project.Alike c.project d.project :=
    Project.Alike.rel_iff.mpr (congrArg Context.project h)
  have rest : d =
      { c with tokens := d.tokens, journal := d.journal, stop := d.stop, project := d.project } :=
    (congrArg (fun e : Context =>
      { e with tokens := d.tokens, journal := d.journal, stop := d.stop, project := d.project }) h :)
  rw [rest]
  exact .intro d.tokens d.journal d.stop d.project projects

end Context.Alike

namespace Matcher

/-- Whether a computation, from a state like that of another one, comes to its end if the other one
does, gives what is asked of both and leaves a state like the other one's; neither of them reads a
token. -/
def Agree (R : α → β → Prop) (m : Matcher α) (n : Matcher β) : Prop :=
  ∀ env env' c d a c', env'.grammar = env.grammar → c.Alike d → m env c = (.ok a, c') →
    ∃ b d', n env' d = (.ok b, d') ∧ R a b ∧ c'.Alike d' ∧
      c'.tokens = c.tokens ∧ d'.tokens = d.tokens

variable {R : α → β → Prop}

theorem Agree.weaken {S : α → β → Prop} {m : Matcher α} {n : Matcher β} (hm : Agree R m n)
    (h : ∀ a b, R a b → S a b) : Agree S m n := by
  intro env env' c d a c' he alike run
  obtain ⟨b, d', run', related, rest⟩ := hm env env' c d a c' he alike run
  exact ⟨b, d', run', h a b related, rest⟩

/-- Two runs that have the grammar in common, and that read these tokens. -/
def keepsTokens (s t : TokenSource) : RunRelation where
  surroundings env env' := env'.grammar = env.grammar
  grammar h := h
  reading a _ b _ := a = s ∧ b = t
  view := .forget
  allows _ := True
  stores _ _ _ := trivial

/-- Computations that are parallel whatever their tokens agree. -/
theorem agree_of_parallel {m : Matcher α} {n : Matcher β}
    (h : ∀ s t, (keepsTokens s t).Parallel R m n) : Agree R m n := by
  intro env env' c d a c' he alike run
  have alike : (keepsTokens c.tokens d.tokens).Alike c d :=
    ⟨⟨rfl, rfl⟩, fun _ _ _ _ => trivial, alike.built⟩
  obtain ⟨ends, reading, -, built⟩ := h c.tokens d.tokens env env' c d he alike
  rw [run] at ends reading built
  obtain ⟨kept, kept'⟩ := reading
  generalize run' : n env' d = r at ends kept' built
  obtain ⟨outcome, d'⟩ := r
  cases ends with
  | given related => exact ⟨_, d', rfl, related, .of_built built, kept, kept'⟩

theorem agree_pure {a : α} {b : β} (h : R a b) :
    Agree R (pure a : Matcher α) (pure b : Matcher β) :=
  agree_of_parallel fun _ _ => RunRelation.parallel_pure h

/-- An action that is reported and performed does the same wherever its pattern is written. -/
theorem agree_perform {v w : Values} (hv : v.Alike w) {a : Action} (h : a.isStatement = true)
    (matchRule : RuleId → Matcher (Option Value)) (event event' : Log.Event) :
    Agree Value.Alike (do report event; a.perform matchRule v)
      (do report event'; a.perform matchRule w) := by
  have alike (x y : Option Value) (same : Value.Same .forget x y) : Value.Alike x y := by
    simpa only [Value.Alike, funext Value.forget_eq_through] using same
  refine (agree_of_parallel fun s t => ?_).weaken alike
  exact (RunRelation.parallel_report event event').andThen fun _ =>
    a.parallel_perform hv.same h matchRule matchRule

end Matcher

end Planfile

namespace Planfile

/-! ## Tokens between statements -/

/-- Whether a token can stand behind a statement, and be seen from there: a keyword, the end of a
body or the end of the text. -/
def Token.Closes (token : Token) : Prop :=
  (∀ text, token.literalText? = some text → Terminal.isWord text = true ∨ text = "\x7d") ∧
    ∀ c, token.class? = some c → c = .id

theorem Token.closes_eof : Token.eof.Closes := ⟨nofun, nofun⟩

theorem Token.class?_of_literalText? {token : Token} {text : String}
    (h : token.literalText? = some text) {c : TokenClass} (hc : token.class? = some c) :
    c = .id := by
  cases token with
  | id name => exact (Option.some.inj hc).symm
  | mark m => cases hc
  | _ => cases h

/-- The end of a body stands behind its last statement. -/
theorem Token.closes_of_rightBrace {token : Token} (h : token.matchesLiteral "\x7d" = true) :
    token.Closes := by
  have text : token.literalText? = some "\x7d" := by simpa [matchesLiteral] using h
  exact ⟨fun other same => .inr (Option.some.inj (same.symm.trans text)),
    fun c hc => class?_of_literalText? text hc⟩

namespace Terminal

/-- Whether a terminal is a keyword. -/
def isKeyword : Terminal → Bool
  | .literal text => isWord text
  | .tokenClass _ => false

/-- Whether a terminal is none of the tokens that stand behind statements. -/
def isInner : Terminal → Bool
  | .literal text => !isWord text && text != "\x7d"
  | .tokenClass c => c != .id

/-- A keyword stands behind the statement before. -/
theorem closes_of_isKeyword {a : Terminal} (h : a.isKeyword = true) {token : Token}
    (ha : a.accepts token = true) : token.Closes := by
  cases a with
  | tokenClass c => cases h
  | literal word =>
    have text : token.literalText? = some word := by
      simpa [accepts, Token.matchesLiteral] using ha
    exact ⟨fun other same => .inl (Option.some.inj (same.symm.trans text) ▸ h),
      fun c hc => Token.class?_of_literalText? text hc⟩

/-- What is inside a statement does not stand behind one. -/
theorem not_closes_of_isInner {a : Terminal} (h : a.isInner = true) {token : Token}
    (ha : a.accepts token = true) : ¬token.Closes := by
  rintro ⟨literal, tokenClass⟩
  cases a with
  | literal text =>
    have same : token.literalText? = some text := by
      simpa [accepts, Token.matchesLiteral] using ha
    have inner : isWord text = false ∧ text ≠ "\x7d" := by simpa [isInner] using h
    rcases literal text same with word | brace
    · rw [inner.1] at word
      cases word
    · exact inner.2 brace
  | tokenClass c =>
    have same : token.class? = some c := by simpa [accepts] using ha
    have inner : c ≠ .id := by simpa [isInner] using h
    exact inner (tokenClass c same)

end Terminal

namespace GrammarTable

variable {t : GrammarTable}

/-! ## What a rule starts with -/

/-- Whether a plan cannot add attributes to a rule. -/
def isClosed (t : GrammarTable) (id : RuleId) : Bool :=
  !extendableNames.contains (t.rule id).name

/-- A rule that takes no attributes has the alternatives that are declared. -/
theorem patterns_of_isClosed {c : Context} (hc : c.Sound t) {id : RuleId}
    (h : t.isClosed id = true) :
    (LiveGrammar.mk t c.extensions).patterns id = (t.rule id).patterns := by
  -- what a plan has added belongs to rules whose names are on the list
  have none : (LiveGrammar.mk t c.extensions).addedTo id = [] := by
    rw [LiveGrammar.addedTo, List.map_eq_nil_iff, List.filter_eq_nil_iff]
    intro e he here
    obtain ⟨⟨name, listed, known⟩, -⟩ := hc.extensions e he
    have same : e.1 = id := by simpa using here
    rw [same] at known
    have takes : extendableNames.contains (t.rule id).name = true := by
      rw [name_of_ruleId? known]
      exact List.contains_iff_mem.mpr listed
    rw [isClosed, takes] at h
    cases h
  rw [LiveGrammar.patterns, none, List.append_nil]

/-- Whether all terminals that a symbol can start with pass a test, and no plan can change that. -/
def startsOnly (t : GrammarTable) (test : Terminal → Bool) : Nat → Symbol → Bool
  | _, .literal text => test (.literal text)
  | _, .tokenClass c => test (.tokenClass c)
  | 0, .rule _ => false
  | room + 1, .rule id =>
    t.isClosed id && (t.rule id).patterns.all fun p =>
      match p.first? with
      | some s => startsOnly t test room s
      | none => true

/-- A symbol starts with one of its first terminals, whatever a plan has added. -/
theorem exists_terminal {test : Terminal → Bool} {c : Context} (hc : c.Sound t) {token : Token}
    {room : Nat} {s : Symbol} (h : t.startsOnly test room s = true) {depth : Nat}
    (ha : (LiveGrammar.mk t c.extensions).symbolAccepts token depth s = .ok true) :
    ∃ a : Terminal, test a = true ∧ a.accepts token = true := by
  -- the references that the test follows are those that the matcher follows
  induction room generalizing s depth with
  | zero =>
    cases s with
    | literal text => exact ⟨_, h, by simpa using ha⟩
    | tokenClass k => exact ⟨_, h, by simpa using ha⟩
    | rule id => cases h
  | succ room ih =>
    cases s with
    | literal text => exact ⟨_, h, by simpa using ha⟩
    | tokenClass k => exact ⟨_, h, by simpa using ha⟩
    | rule id =>
      rw [startsOnly, Bool.and_eq_true, List.all_eq_true] at h
      cases depth with
      | zero => cases ha
      | succ depth =>
        rw [LiveGrammar.symbolAccepts, patterns_of_isClosed hc h.1] at ha
        obtain ⟨p, hp, first⟩ := LiveGrammar.exists_of_anyM_true ha
        have passes := h.2 p hp
        cases hs : p.first? with
        | none => simp [hs] at first
        | some s =>
          simp only [hs] at first passes
          exact ih passes first

/-- An alternative of a rule starts with one of the rule's first terminals. -/
theorem exists_terminal_of_mem {test : Terminal → Bool} {c : Context} (hc : c.Sound t)
    {token : Token} {room : Nat} {id : RuleId} (h : t.startsOnly test room (.rule id) = true)
    {p : Pattern} (hp : p ∈ (LiveGrammar.mk t c.extensions).patterns id)
    (ha : (LiveGrammar.mk t c.extensions).patternAccepts token p = .ok true) :
    ∃ a : Terminal, test a = true ∧ a.accepts token = true := by
  cases room with
  | zero => cases h
  | succ room =>
    rw [startsOnly, Bool.and_eq_true, List.all_eq_true] at h
    rw [patterns_of_isClosed hc h.1] at hp
    have passes := h.2 p hp
    rw [LiveGrammar.patternAccepts] at ha
    cases hs : p.first? with
    | none => simp [hs] at ha
    | some s =>
      simp only [hs] at ha passes
      exact exists_terminal hc passes ha

/-- A rule that starts with keywords starts with a token that stands behind a statement. -/
theorem closes_of_keywords {c : Context} (hc : c.Sound t) {token : Token} {room : Nat}
    {id : RuleId} (h : t.startsOnly Terminal.isKeyword room (.rule id) = true) {p : Pattern}
    (hp : p ∈ (LiveGrammar.mk t c.extensions).patterns id)
    (ha : (LiveGrammar.mk t c.extensions).patternAccepts token p = .ok true) : token.Closes := by
  obtain ⟨a, keyword, accepts⟩ := exists_terminal_of_mem hc h hp ha
  exact Terminal.closes_of_isKeyword keyword accepts

/-- A rule that starts inside statements does not start with a token that stands behind one. -/
theorem not_accepts_of_inner {c : Context} (hc : c.Sound t) {token : Token} (ht : token.Closes)
    {room : Nat} {id : RuleId} (h : t.startsOnly Terminal.isInner room (.rule id) = true)
    {p : Pattern} (hp : p ∈ (LiveGrammar.mk t c.extensions).patterns id) :
    (LiveGrammar.mk t c.extensions).patternAccepts token p ≠ .ok true := by
  intro ha
  obtain ⟨a, inner, accepts⟩ := exists_terminal_of_mem hc h hp ha
  exact Terminal.not_closes_of_isInner inner accepts ht

end GrammarTable

/-! ## What a rule ends with -/

/-- Whether a symbol refers to a rule. -/
def Symbol.isRule : Symbol → Bool
  | .rule _ => true
  | _ => false

/-- The rules behind the last terminal of a pattern. -/
def tailRules : List Symbol → List RuleId
  | [] => []
  | .rule id :: rest => if rest.all Symbol.isRule then id :: tailRules rest else tailRules rest
  | _ :: rest => tailRules rest

/-- Whether a rule leaves alone what stands behind it, if that is a token behind a statement; at most
`room` references are followed. -/
def GrammarTable.endsClosed (t : GrammarTable) : Nat → RuleId → Bool
  | 0, _ => false
  | room + 1, id =>
    t.isClosed id &&
      (!(t.rule id).optional && !(t.rule id).repeatable ||
        t.startsOnly Terminal.isInner Limits.firstSetDepth (.rule id)) &&
      (t.rule id).patterns.all fun p => (tailRules p.symbols).all (endsClosed t room)

/-- Whether all rules at the end of a pattern leave alone what stands behind a statement. -/
def GrammarTable.EndsClosed (t : GrammarTable) (symbols : List Symbol) : Prop :=
  ∃ room, ∀ id ∈ tailRules symbols, t.endsClosed room id = true

theorem GrammarTable.EndsClosed.tail {t : GrammarTable} {s : Symbol} {rest : List Symbol}
    (h : t.EndsClosed (s :: rest)) : t.EndsClosed rest := by
  obtain ⟨room, all⟩ := h
  refine ⟨room, fun id mem => all id ?_⟩
  cases s with
  | rule first =>
    rw [tailRules]
    split
    · exact List.mem_cons_of_mem _ mem
    · exact mem
  | literal text => exact mem
  | tokenClass c => exact mem

/-- A rule in front of rules only is at the end of its pattern. -/
theorem GrammarTable.EndsClosed.head {t : GrammarTable} {id : RuleId} {rest : List Symbol}
    (h : t.EndsClosed (.rule id :: rest)) (rules : rest.all Symbol.isRule = true) :
    ∃ room, t.endsClosed room id = true := by
  obtain ⟨room, all⟩ := h
  refine ⟨room, all id ?_⟩
  rw [tailRules, if_pos rules]
  exact List.mem_cons_self

/-! ## Outlines -/

/-- The rules around the places where files can be included. -/
structure Outline where
  project : RuleId
  header : RuleId
  body : RuleId
  settings : RuleId
  properties : RuleId
  statement : RuleId

namespace Outline

/-- Whether a rule has nothing to do with including files. -/
def isFree (o : Outline) (id : RuleId) : Bool :=
  !([o.project, o.body, o.settings, o.properties, o.statement].contains id)

/-- Whether a pattern has nothing to do with including files. -/
def isFreePattern (o : Outline) (p : Pattern) : Bool :=
  p.action.all (·.isStatement) && p.symbols.all fun s =>
    match s with
    | .rule id => o.isFree id
    | _ => true

/-- The alternative by which a file is included among statements. -/
def including (o : Outline) : Pattern := ⟨[.rule o.statement], some (.value 0)⟩

end Outline

/-- Whether a rule is a repetition of statements, one of which includes a file, while the others end
with what leaves alone the tokens behind a statement. -/
structure GrammarTable.RepeatsStatements (t : GrammarTable) (o : Outline) (id : RuleId) :
    Prop where
  optional : (t.rule id).optional = true
  repeatable : (t.rule id).repeatable = true
  keywords : t.startsOnly Terminal.isKeyword Limits.firstSetDepth (.rule id) = true
  statements : ∀ p ∈ (t.rule id).patterns,
    p = o.including ∨ o.isFreePattern p = true ∧ t.EndsClosed p.symbols

/-- Whether a grammar fits an outline. -/
structure GrammarTable.Fits (t : GrammarTable) (o : Outline) : Prop where
  project : t.ruleId? "project" = some o.project
  projectRule : t.rule o.project = ⟨"project",
    [⟨[.rule o.header, .rule o.body, .rule o.properties], none⟩], false, false⟩
  bodyRule : t.rule o.body = ⟨"projectBody",
    [⟨[.literal "\x7b", .rule o.settings, .literal "\x7d"], none⟩], true, false⟩
  statementRule : t.rule o.statement = ⟨"include", [Matcher.includeStatement], false, false⟩
  header : o.isFree o.header = true ∧ ∃ room, t.endsClosed room o.header = true
  settings : t.RepeatsStatements o o.settings
  properties : t.RepeatsStatements o o.properties
  free : ∀ id, o.isFree id = true → ∀ p ∈ (t.rule id).patterns, o.isFreePattern p = true
  reference : ∀ id, t.ruleId? "referenceBody" = some id → o.isFree id = true
  closed : ∀ id, o.isFree id = false → t.isClosed id = true

namespace GrammarTable

variable {t : GrammarTable} {o : Outline}

/-- An attribute that a plan has added has nothing to do with including files. -/
theorem Fits.isFreePattern_of_isExtension (ht : t.Extensible) (ho : t.Fits o) {p : Pattern}
    (h : t.IsExtension p) : o.isFreePattern p = true := by
  obtain ⟨e, full, resolved, action⟩ := h
  -- an attribute is a keyword and a terminal, or a keyword and a reference with its body
  obtain ⟨reference, known⟩ := ht.reference
  have free := ho.reference reference known
  rw [e.mapM_symbols full known] at resolved
  rw [Outline.isFreePattern, action, ← Except.ok.inj resolved]
  unfold AttributeExtension.tailSymbols
  cases e.kind <;> simp [AttributeExtension.action, Action.isStatement, free]

/-- The alternatives of a rule that has nothing to do with including files have nothing to do with it
either, whatever a plan has added. -/
theorem Fits.isFreePattern_of_mem (ht : t.Extensible) (ho : t.Fits o) {c : Context}
    (hc : c.Sound t) {id : RuleId} (hi : o.isFree id = true) {p : Pattern}
    (hp : p ∈ (LiveGrammar.mk t c.extensions).patterns id) : o.isFreePattern p = true := by
  rcases List.mem_append.mp hp with declared | added
  · exact ho.free id hi p declared
  · -- an alternative that the plan has added
    obtain ⟨e, he, rfl⟩ := List.mem_map.mp added
    exact ho.isFreePattern_of_isExtension ht (hc.extensions e (List.mem_filter.mp he).1).2

/-- The alternatives of a rule that leaves alone what stands behind a statement do so as well. -/
theorem endsClosed_of_mem {c : Context} (hc : c.Sound t) {room : Nat} {id : RuleId}
    (h : t.endsClosed room id = true) {p : Pattern}
    (hp : p ∈ (LiveGrammar.mk t c.extensions).patterns id) : t.EndsClosed p.symbols := by
  cases room with
  | zero => cases h
  | succ room =>
    simp only [endsClosed, Bool.and_eq_true, List.all_eq_true] at h
    rw [patterns_of_isClosed hc h.1.1] at hp
    exact ⟨room, h.2 p hp⟩

/-- A rule that need not match, and leaves alone what stands behind a statement, starts inside
statements. -/
theorem startsInner_of_endsClosed {room : Nat} {id : RuleId} (h : t.endsClosed room id = true)
    (mayStop : (t.rule id).optional = true ∨ (t.rule id).repeatable = true) :
    t.startsOnly Terminal.isInner Limits.firstSetDepth (.rule id) = true := by
  cases room with
  | zero => cases h
  | succ room =>
    simp only [endsClosed, Bool.and_eq_true, Bool.or_eq_true] at h
    rcases h.1.2 with always | inner
    · -- such a rule has to match
      simp only [Bool.not_eq_true'] at always
      rcases mayStop with optional | repeatable
      · rw [always.1] at optional
        cases optional
      · rw [always.2] at repeatable
        cases repeatable
    · exact inner

end GrammarTable

end Planfile
