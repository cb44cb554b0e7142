import Planfile.Proofs.Grammar.Determinism
import Planfile.Proofs.Termination.Lookahead

/-!
# Planfile — what the next token commits to

A rule that has been matched has read something, or it is absent: it need not be there, no alternative that is
in force can start with the next token, and nothing has come of it. It is for this that a repetition always
gets on, and that the first symbol of an alternative is not refused for the token that the alternative has
been chosen by. Nothing is asked of the grammar or of the alternatives that a plan has added to it.

Main results:

* `Action.getsOn_perform` — no action says of a repetition that it does not get on.
* `Matcher.getsOn_matchRule` — no rule does, whatever the grammar and the text.
* `Matcher.consumes_of_run_matchRule` — what is matched of a rule has read something, or the rule is absent.
* `Matcher.committed` — a rule is matched as the next token commits it to.
-/

namespace Planfile

open Matcher

/-!
## Repetitions get on

An alternative reads the token it is chosen by, so whatever is repeated reads something each time, and it is
never said of a repetition that it does not get on. Actions say other things of a grammar, at most.
-/

/-- Whether a defect of a grammar is that a repetition does not get on. -/
def GrammarError.IsStall : GrammarError → Prop
  | .noProgress _ => True
  | _ => False

/-- Whether a reason to end early is that a repetition does not get on. -/
def Stop.IsStall : Stop → Prop
  | .error ⟨.grammar e, _⟩ => e.IsStall
  | _ => False

namespace Matcher

/-- Whether a computation never ends early because a repetition does not get on. -/
def GetsOn (m : Matcher α) : Prop :=
  ∀ env c, Comes (fun _ _ => True) (fun stop _ => ¬stop.IsStall) m env c

section
variable {ask : α → Context → Prop} {env : Surroundings} {c d : Context} {m : Matcher α}

theorem GetsOn.of_error (h : GetsOn m) {stop : Stop} (run : m env c = (.error stop, d)) : ¬stop.IsStall :=
  (h env c).of_error run

/-- A computation after which anything is allowed. -/
theorem GetsOn.comes (h : GetsOn m) (ha : ∀ a d, ask a d) :
    Comes ask (fun stop _ => ¬stop.IsStall) m env c :=
  (h env c).weaken fun a d _ => ha a d

/-- One after the other, neither must do so. -/
theorem GetsOn.bind {f : α → Matcher β} (hm : GetsOn m) (hf : ∀ a, GetsOn (f a)) : GetsOn (m >>= f) := by
  intro env c
  rw [comes_bind]
  exact hm.comes fun a d => hf a env d

theorem GetsOn.map (h : GetsOn m) (f : α → β) : GetsOn (f <$> m) := by
  intro env c
  rw [comes_map]
  exact h.comes fun _ _ => trivial

@[simp] theorem not_isStall_semantic (fault : SemanticFault) (l : Location) :
    ¬(Stop.error ⟨.semantic fault, l⟩).IsStall := fun wrong => wrong

@[simp] theorem isStall_grammar (e : GrammarError) (l : Location) :
    (Stop.error ⟨.grammar e, l⟩).IsStall ↔ e.IsStall := Iff.rfl

@[simp] theorem not_isStall_undefinedRule (rule name : String) :
    ¬(GrammarError.undefinedRule rule name).IsStall := fun wrong => wrong

@[simp] theorem not_isStall_valueMismatch (i : Nat) (expected : String) :
    ¬(GrammarError.valueMismatch i expected).IsStall := fun wrong => wrong

/-- A value is not taken for what it is not, and this is the one defect of it. -/
@[simp] theorem typed_eq_error_iff (v : Values) (i : Nat) (expected : String) (f : Value → Option α)
    (e : GrammarError) :
    v.typed i expected f = .error e ↔ (v.value? i).bind f = none ∧ e = .valueMismatch i expected := by
  unfold Values.typed
  cases (v.value? i).bind f <;> simp [eq_comm]

/-- What is made of a value cannot go wrong. -/
@[simp] theorem map_eq_error_iff (a : Except GrammarError α) (f : α → β) (e : GrammarError) :
    a.map f = .error e ↔ a = .error e := by
  cases a <;> simp [Except.map]

end

end Matcher

/-! ## Actions -/

namespace Matcher

section
variable (v : Values)

/-- A value of a pattern is taken, or is not what it is taken for. -/
theorem getsOn_typed (i : Nat) (expected : String) (f : Value → Option α) :
    GetsOn (take v (v.typed i expected f)) := by
  intro env c
  simp

theorem getsOn_string (i : Nat) : GetsOn (take v (v.string i)) := getsOn_typed v i _ _

theorem getsOn_project : GetsOn project := by
  intro env c
  simp

end

theorem getsOn_openScenario (v : Values) : GetsOn (openScenario v) := by
  refine GetsOn.bind (fun _ _ => trivial) fun c => getsOn_project.bind fun p =>
    GetsOn.bind (fun _ _ => trivial) fun _ => (getsOn_string v 1).bind fun id =>
      (getsOn_string v 2).bind fun name env d => ?_
  dsimp only
  split <;> simp

theorem getsOn_openProperty (kind : Plan.PropertyKind) (id name : String) :
    GetsOn (openProperty kind id name) := by
  refine GetsOn.bind (fun _ _ => trivial) fun parent => getsOn_project.bind fun p env c => ?_
  dsimp only
  split <;> simp

theorem getsOn_knownResource (id : String) : GetsOn (knownResource id) := by
  refine getsOn_project.bind fun p env c => ?_
  split <;> simp

theorem getsOn_knownTask (id : String) : GetsOn (knownTask id) := by
  refine getsOn_project.bind fun p env c => ?_
  split <;> simp

theorem getsOn_sortCriterion (id : String) : GetsOn (sortCriterion id) := by
  intro env c
  unfold sortCriterion
  split <;> simp [sortDirection]

theorem getsOn_attributeOperand (id : String) : GetsOn (attributeOperand id) := by
  intro env c
  unfold attributeOperand
  split <;> simp

theorem getsOn_operationOf (left : Plan.Operand) (chain : Option Value) :
    GetsOn (operationOf left chain) := by
  intro env c
  unfold operationOf
  split
  · next operator right => cases operator <;> cases right <;> simp [operatorOf]
  · trivial

theorem getsOn_matchedInterval (v : Values) : GetsOn (matchedInterval v) := by
  refine (getsOn_typed v 0 _ _).bind fun start => (getsOn_typed v 1 _ _).bind fun stop env c => ?_
  split <;> simp

theorem getsOn_dayRange (v : Values) : GetsOn (Matcher.dayRange v) := by
  have day (name : String) : GetsOn (weekday name) := by
    intro env c
    simp [weekday]
  refine (getsOn_string v 0).bind fun name => (day name).bind fun first env c => ?_
  split <;> simp [weekday]

end Matcher

attribute [local simp] Values.required Values.string Values.int Values.number Values.date Values.time
  Values.unit Values.interval Values.operand Values.operation Values.expression Matcher.modifySettings
  modifyProperty setScenarioAttribute currentProperty modifyReport reportElement

theorem Matcher.getsOn_setWorkingHours (days : Calendar.DaySet) (ranges : List Calendar.TimeRange) :
    GetsOn (setWorkingHours days ranges) := by
  refine GetsOn.bind (fun _ _ => trivial) fun current env c => ?_
  dsimp only
  -- outside of resources they are those of the project
  split
  · simp
  · refine GetsOn.bind (fun _ _ => by simp) (fun q env c => ?_) env c
    split <;> simp

theorem Matcher.getsOn_workingHours (v : Values) : GetsOn (Matcher.workingHours v) := by
  refine (getsOn_typed v 1 _ _).bind fun days env c => ?_
  split
  · exact getsOn_setWorkingHours _ _ env c
  · simp

section
variable (v : Values)

theorem ProjectAction.getsOn_perform (a : ProjectAction) : GetsOn (a.perform v) := by
  intro env c
  cases a <;> simp [perform, realFormat]

theorem ScenarioAction.getsOn_perform (a : ScenarioAction) : GetsOn (a.perform v) := by
  cases a with
  | header => exact (getsOn_openScenario v).bind fun _ _ _ => trivial
  | _ =>
    intro env c
    simp [perform, closeScenario, enableScenario, scenarioIndex]

theorem PropertyAction.getsOn_perform (a : PropertyAction) : GetsOn (a.perform v) := by
  cases a with
  | header kind =>
    exact (getsOn_string v 1).bind fun id => (getsOn_string v 2).bind fun name =>
      (getsOn_openProperty kind id name).bind fun _ _ _ => trivial
  | resourceId =>
    exact (getsOn_string v 0).bind fun id => (getsOn_knownResource id).bind fun _ _ _ => trivial
  | selectMode =>
    refine (getsOn_string v 1).bind fun word env c => ?_
    split <;> simp
  | _ =>
    intro env c
    simp [perform, addAllocations, addFlags, addVacations, closeProperty, Matcher.leaveScenario,
      relativeTask]

/-- Looking for a keyword goes wrong only where chains are too long. -/
theorem Matcher.not_isStall_of_ruleAccepts {g : LiveGrammar} {id : RuleId} {token : Token} {e : GrammarError}
    (h : g.ruleAccepts id token = .error e) : ¬e.IsStall := by
  obtain ⟨p, -, cut⟩ := LiveGrammar.exists_of_anyM_error h
  unfold LiveGrammar.patternAccepts at cut
  split at cut
  · obtain ⟨name, rfl⟩ := LiveGrammar.leftRecursion_of_symbolAccepts cut
    exact fun wrong => wrong
  · cases cut

/-- What is not a symbol is refused for what it is. -/
theorem Matcher.not_isStall_of_symbol {g : GrammarTable} {text : String} {e : GrammarError}
    (h : g.symbol text = .error e) : ¬e.IsStall := by
  unfold GrammarTable.symbol GrammarTable.resolveSymbol at h
  split at h
  · cases h
  · cases h
  · split at h <;> cases h
    exact fun wrong => wrong
  · cases h
    exact fun wrong => wrong

theorem Matcher.not_isStall_of_symbols {g : GrammarTable} {texts : List String} {e : GrammarError}
    (h : texts.mapM g.symbol = .error e) : ¬e.IsStall := by
  induction texts with
  | nil => cases h
  | cons text rest ih =>
    rw [List.mapM_cons] at h
    cases first : g.symbol text with
    | error e' =>
      rw [first] at h
      cases h
      exact not_isStall_of_symbol first
    | ok s =>
      cases others : rest.mapM g.symbol with
      | error e' =>
        rw [first, others] at h
        cases h
        exact ih others
      | ok symbols =>
        rw [first, others] at h
        cases h

theorem Matcher.getsOn_defineAttribute (kind : Plan.PropertyKind) (d : Plan.AttributeDefinition) :
    GetsOn (defineAttribute kind d) := by
  intro env c
  simp only [defineAttribute, comes_bind, comes_project]
  refine ⟨fun _ => not_isStall_semantic _ _, fun p _ => ?_⟩
  split
  · exact not_isStall_semantic _ _
  · trivial

theorem Matcher.getsOn_applyExtension (e : AttributeExtension) : GetsOn (applyExtension e) := by
  intro env c
  simp only [applyExtension, comes_bind, comes_get, comes_orFail, comes_live, comes_sound]
  refine ⟨fun _ => not_isStall_semantic _ _, fun target _ =>
    ⟨fun e failed => not_isStall_of_ruleAccepts failed, fun taken _ => ?_⟩⟩
  cases taken with
  | true => simp
  | false =>
    simp only [Bool.false_eq_true, if_false]
    refine (getsOn_defineAttribute _ _).bind (fun _ env c => ?_) env c
    simp only [comes_bind, comes_read, comes_sound]
    refine ⟨fun e failed => not_isStall_of_symbols failed, fun symbols _ => ?_⟩
    simp

theorem ExtendAction.getsOn_perform (a : ExtendAction) : GetsOn (a.perform v) := by
  cases a with
  | declare kind =>
    have declared : GetsOn (declareAttribute v kind) :=
      (getsOn_string v 1).bind fun id => (getsOn_string v 2).bind fun name => getsOn_applyExtension _
    exact declared.bind fun _ _ _ => trivial
  | store id kind scenarioSpecific =>
    have value (e : GrammarError) (failed : extensionValue kind v = .error e) : ¬e.IsStall := by
      -- the value is one of the pattern, whatever kind of attribute it is for
      cases kind <;> simp_all [extensionValue]
    intro env c
    simpa [perform] using value
  | _ =>
    intro env c
    simp [perform, chooseTarget, extensionId]

theorem ReportAction.getsOn_perform (a : ReportAction) : GetsOn (a.perform v) := by
  cases a with
  | sortPath =>
    exact (getsOn_string v 0).bind fun id => (getsOn_sortCriterion id).bind fun _ _ _ => trivial
  | taskRoot =>
    have root : GetsOn (change v .taskRoot) :=
      (getsOn_string v 1).bind fun id => (getsOn_knownTask id).bind fun _ _ _ => trivial
    refine root.bind fun f env c => ?_
    simp
  | _ =>
    intro env c
    simp [perform, openReport, closeColumn, openColumn, setTitle, change, enabledScenarios]

theorem LogicalAction.getsOn_perform (a : LogicalAction) : GetsOn (a.perform v) := by
  cases a with
  | operation =>
    exact (getsOn_typed v 0 _ _).bind fun left =>
      (getsOn_operationOf left _).bind fun _ _ _ => trivial
  | attributeOf =>
    exact (getsOn_string v 0).bind fun id => (getsOn_attributeOperand id).bind fun _ _ _ => trivial
  | _ =>
    intro env c
    simp [perform, declaredFlag, functionCall]

theorem CalendarAction.getsOn_perform (a : CalendarAction) : GetsOn (a.perform v) := by
  cases a with
  | interval => exact (getsOn_matchedInterval v).bind fun _ _ _ => trivial
  | projectInterval =>
    refine GetsOn.bind ?_ fun _ _ _ => trivial
    refine (getsOn_matchedInterval v).bind fun i env c => ?_
    simp
  | workingHours => exact (getsOn_workingHours v).bind fun _ _ _ => trivial
  | dayRange => exact (getsOn_dayRange v).bind fun _ _ _ => trivial
  | _ =>
    intro env c
    simp [perform, Matcher.projectDate, Matcher.timeRange]

/-- Going on with a file says nothing of repetitions. -/
theorem Matcher.getsOn_includeFile (path : String) : GetsOn (includeFile path) := by
  intro env c
  simp only [includeFile, comes_bind, comes_read, comes_get, comes_modify]
  split
  · trivial
  · next e _ => cases e <;> exact fun wrong => wrong

/-- No action says of a repetition that it does not get on, unless it matches a rule. -/
theorem Action.getsOn_perform {a : Action} (h : ∀ name, a ≠ .rule name)
    (matchRule : RuleId → Matcher (Option Value)) : GetsOn (a.perform matchRule v) := by
  cases a with
  | rule name => exact absurd rfl (h name)
  | includeFile i =>
    exact (getsOn_string v i).bind fun path => (getsOn_includeFile path).bind fun _ _ _ => trivial
  | project a => exact (a.getsOn_perform v).bind fun _ _ _ => trivial
  | scenario a => exact a.getsOn_perform v
  | property a => exact a.getsOn_perform v
  | extend a => exact a.getsOn_perform v
  | report a => exact a.getsOn_perform v
  | logical a => exact a.getsOn_perform v
  | calendar a => exact a.getsOn_perform v
  | _ =>
    intro env c
    simp [perform]

end

/-! ## Rules -/

namespace Matcher

/-- Looking ahead does not say so either: it fails where chains are too long. -/
theorem not_isStall_of_candidates {g : LiveGrammar} {id : RuleId} {token : Token} {e : GrammarError}
    (h : g.candidates id token = .error e) : ¬e.IsStall := by
  obtain ⟨name, rfl⟩ := LiveGrammar.leftRecursion_of_accepting h
  exact fun wrong => wrong

theorem getsOn_choose (id : RuleId) : GetsOn (choose id) := by
  intro env c
  rw [Comes]
  cases answer : (LiveGrammar.mk env.grammar c.extensions).candidates id c.tokens.peek with
  | error e =>
    rw [run_choose_of_error answer]
    exact not_isStall_of_candidates answer
  | ok found =>
    obtain ⟨journal, chooses⟩ := run_choose answer
    rw [chooses]
    trivial

theorem getsOn_terminal (matchRule : RuleId → Matcher (Option Value)) {s : Symbol} {a : Terminal}
    (hs : s.terminal? = some a) : GetsOn (matchSymbol matchRule s) := by
  intro env c
  rw [Comes]
  cases fits : a.accepts c.tokens.peek with
  | true =>
    rw [run_matchSymbol_of_accepts matchRule hs env fits]
    trivial
  | false =>
    obtain ⟨fault, unfit, refused⟩ := run_matchSymbol_of_not_accepts matchRule hs env fits
    rw [refused]
    cases fault with
    | grammar e => cases unfit
    | _ => exact fun wrong => wrong

section
variable {fuel : Nat} (hr : ∀ id, GetsOn (matchRule fuel id))
include hr

theorem getsOn_matchSymbol (s : Symbol) : GetsOn (matchSymbol (matchRule fuel) s) := by
  cases s with
  | literal text => exact getsOn_terminal _ rfl
  | tokenClass k => exact getsOn_terminal _ rfl
  | rule id =>
    rw [matchSymbol]
    exact (hr id).map MatchedValue.rule

theorem getsOn_matchSymbols (symbols : List Symbol) :
    GetsOn (matchSymbols (matchRule fuel) symbols) := by
  induction symbols with
  | nil => exact fun _ _ => trivial
  | cons s rest ih =>
    rw [matchSymbols]
    exact (getsOn_matchSymbol hr s).bind fun item => ih.map (item :: ·)

theorem getsOn_perform (a : Action) (v : Values) : GetsOn (a.perform (matchRule fuel) v) := by
  by_cases calls : ∃ name, a = .rule name
  · obtain ⟨name, rfl⟩ := calls
    have named : GetsOn (ruleId name) := by
      intro env c
      simp
    exact named.bind hr
  · exact Action.getsOn_perform v (fun name same => calls ⟨name, same⟩) _

theorem getsOn_matchPattern (p : Pattern) : GetsOn (matchPattern (matchRule fuel) p) := by
  have performed (location : Location) (items : List MatchedValue) :
      GetsOn (performed (matchRule fuel) p location items) := by
    unfold performed
    cases p.action with
    | none => exact fun _ _ => trivial
    | some a => exact GetsOn.bind (fun _ _ => trivial) fun _ => getsOn_perform hr a _
  intro env c
  have whole := ((getsOn_matchSymbols hr p.symbols).bind (performed c.tokens.location)) env c
  rwa [Comes, ← run_matchPattern] at whole

/-- A repetition gets on: whatever is repeated has read the token that it was chosen by. -/
theorem getsOn_matchRepeatedly (id : RuleId) (mayStop : Bool) (times : Nat) (values : List Value) :
    GetsOn (matchRepeatedly (matchRule fuel) id mayStop times values) := by
  induction times generalizing mayStop values with
  | zero => exact fun _ _ wrong => wrong
  | succ times ih =>
    intro env c
    rw [Comes]
    cases choice : choose id env c with
    | mk outcome d =>
      cases outcome with
      | error stop =>
        rw [matchRepeatedly, run_bind, choice]
        exact (getsOn_choose id).of_error choice
      | ok chosen =>
        cases chosen with
        | none =>
          rw [run_matchRepeatedly_of_none choice]
          cases mayStop with
          | true => trivial
          | false => exact fun wrong => wrong
        | some p =>
          rw [run_matchRepeatedly_of_some choice]
          have takes : TakesNext (matchPattern (matchRule fuel) p) env d :=
            takesNext_of_chosen (Action.wellBehaved env) choice
          cases matched : matchPattern (matchRule fuel) p env d with
          | mk outcome e =>
            cases outcome with
            | error stop => exact (getsOn_matchPattern hr p).of_error matched
            | ok v =>
              -- a token has been read, so that it goes on
              have moved : e.tokens.consumed ≠ d.tokens.consumed := Nat.ne_of_gt (takes.of_ok matched)
              dsimp only
              rw [if_neg moved]
              exact ih true _ env e

theorem getsOn_matchAlternatives (times : Nat) (id : RuleId) :
    GetsOn (matchAlternatives (matchRule fuel) times id) := by
  intro env c
  cases repeatable : (env.grammar.rule id).repeatable with
  | true =>
    have repeated := ((getsOn_matchRepeatedly hr id (env.grammar.rule id).optional times []).map
      collected) env c
    rwa [Comes, ← run_matchAlternatives_of_repeatable repeatable] at repeated
  | false =>
    rw [Comes, run_matchAlternatives_of_single repeatable]
    cases choice : choose id env c with
    | mk outcome d =>
      cases outcome with
      | error stop => exact (getsOn_choose id).of_error choice
      | ok chosen =>
        cases chosen with
        | some p => exact getsOn_matchPattern hr p env d
        | none =>
          dsimp only
          cases (env.grammar.rule id).optional with
          | true => trivial
          | false => exact fun wrong => wrong

end

/-- No rule says of a repetition that it does not get on, whatever the grammar and the text. -/
theorem getsOn_matchRule (fuel : Nat) (id : RuleId) : GetsOn (matchRule fuel id) := by
  induction fuel generalizing id with
  | zero => exact fun _ _ wrong => wrong
  | succ fuel ih =>
    intro env c
    rw [Comes]
    by_cases shallow : c.depth < Limits.parseDepth
    · rw [run_matchRule fuel shallow]
      have alternatives := getsOn_matchAlternatives ih fuel id env { c with depth := c.depth + 1 }
      rw [Comes] at alternatives
      dsimp only
      split at alternatives
      · next ended =>
        rw [ended]
        trivial
      · next ended =>
        rw [ended]
        exact alternatives
    · rw [matchRule_tooDeep fuel id (Nat.le_of_not_lt shallow)]
      exact fun wrong => wrong

/-! ## Rules that are absent -/

/-- Whether a rule is absent in a state: it may be, and no alternative that is in force can start with the
next token. -/
structure Absent (env : Surroundings) (id : RuleId) (c : Context) : Prop where
  optional : (env.grammar.rule id).optional = true
  refuses : ∀ p ∈ (LiveGrammar.mk env.grammar c.extensions).patterns id,
    (LiveGrammar.mk env.grammar c.extensions).patternAccepts c.tokens.peek p = .ok false

/-- Whether a match has read something, or the rule is absent and nothing has come of it: there is no
value, and the state is that of before but for the note of where a repetition has stopped. -/
def Consumes (env : Surroundings) (id : RuleId) (c : Context) (v : Option Value) (d : Context) : Prop :=
  c.tokens.consumed < d.tokens.consumed ∨ Absent env id c ∧ v = none ∧ ∃ stop, d = { c with stop }

section
variable {fuel : Nat} {env : Surroundings} {c d : Context} {id : RuleId}

/-- What is repeated takes nothing back. -/
theorem consumed_le_of_repeats {mayStop : Bool} (h : Repeats (Matcher.matchRule fuel) id env mayStop c d) :
    c.tokens.consumed ≤ d.tokens.consumed := by
  induction h with
  | stop choice =>
    obtain ⟨⟨journal, rfl⟩, -⟩ := exists_of_run_choose choice
    exact Nat.le_refl _
  | next choice matched rest ih =>
    have read := consumed_lt_of_chosen (Action.wellBehaved env) choice matched
    omega

/-- Where no alternative is chosen nothing has happened, and a rule that need not be there is absent. -/
theorem consumes_of_choose_none (optional : (env.grammar.rule id).optional = true)
    (choice : choose id env c = (.ok none, d)) (stop : Option StopMark) :
    Consumes env id c none { d with stop } := by
  obtain ⟨rfl, refuses⟩ := refused_of_run_choose choice
  exact .inr ⟨⟨optional, refuses⟩, rfl, stop, rfl⟩

/-- A repetition has read something, unless it has stopped at once. -/
theorem consumes_of_run_matchRepeatedly {times : Nat} {all : List Value}
    (run : matchRepeatedly (Matcher.matchRule fuel) id (env.grammar.rule id).optional times [] env c =
      (.ok all, d)) : Consumes env id c (collected all) d := by
  cases times with
  | zero => cases run
  | succ times =>
    rcases cases_of_run_matchRepeatedly run with
      ⟨x, choice, optional, rfl, rfl⟩ | ⟨p, x, v, y, choice, matched, -, rest⟩
    · -- only what may be absent stops at once
      exact consumes_of_choose_none optional choice _
    · have read := consumed_lt_of_chosen (Action.wellBehaved env) choice matched
      have onward := consumed_le_of_repeats (repeats_of_run rest)
      exact .inl (by omega)

/-- A match of the alternatives has read something, or the rule is absent. -/
theorem consumes_of_run_matchAlternatives {times : Nat} {v : Option Value}
    (run : matchAlternatives (Matcher.matchRule fuel) times id env c = (.ok v, d)) :
    Consumes env id c v d := by
  rcases cases_of_run_matchAlternatives run with
    ⟨-, all, rfl, repeated⟩ | ⟨-, optional, rfl, choice⟩ | ⟨-, p, x, choice, matched⟩
  · exact consumes_of_run_matchRepeatedly repeated
  · exact consumes_of_choose_none optional choice d.stop
  · exact .inl (consumed_lt_of_chosen (Action.wellBehaved env) choice matched)

/-- What is matched of a rule has read something, or the rule is absent. -/
theorem consumes_of_run_matchRule {v : Option Value}
    (run : Matcher.matchRule fuel id env c = (.ok v, d)) : Consumes env id c v d := by
  cases fuel with
  | zero => cases run
  | succ fuel =>
    obtain ⟨shallow, e, alternatives, rfl⟩ := exists_of_run_matchRule run
    rcases consumes_of_run_matchAlternatives alternatives with read | ⟨absent, none, stop, rfl⟩
    · exact .inl read
    · exact .inr ⟨⟨absent.optional, absent.refuses⟩, none, stop, rfl⟩

/-- What the next token commits the matching of a rule to, in a state. -/
structure Committed (env : Surroundings) (id : RuleId) (c : Context) : Prop where
  /-- A match has read something, or the rule is absent and nothing has come of it. -/
  consumes : ∀ fuel v d, Matcher.matchRule fuel id env c = (.ok v, d) → Consumes env id c v d
  /-- It is never said that a repetition does not get on. -/
  getsOn : ∀ fuel name l,
    (Matcher.matchRule fuel id env c).1 ≠ .error (.error ⟨.grammar (.noProgress name), l⟩)
  /-- The first symbol of an alternative that has been chosen is not refused for the token that it has been
  chosen by: a token that does not fit is one behind it. -/
  first : ∀ fuel p d, choose id env c = (.ok (some p), d) → ∀ s, p.first? = some s → ∀ stop x,
    matchSymbol (Matcher.matchRule fuel) s env d = (.error stop, x) → stop.IsMismatch →
      c.tokens.consumed < x.tokens.consumed

/-- Whatever the grammar, the alternatives that a plan has added and the tokens are, a rule is matched as the
next token commits it to. -/
theorem committed (env : Surroundings) (id : RuleId) (c : Context) : Committed env id c where
  consumes _ _ _ run := consumes_of_run_matchRule run
  getsOn fuel name l stalls := by
    have stalled : Matcher.matchRule fuel id env c =
        (.error (.error ⟨.grammar (.noProgress name), l⟩), (Matcher.matchRule fuel id env c).2) :=
      Prod.ext stalls rfl
    exact (getsOn_matchRule fuel id).of_error stalled trivial
  first fuel p d choice s starts stop x failed mismatch := by
    have accepts := accepts_of_run_choose choice
    obtain ⟨⟨journal, rfl⟩, -⟩ := exists_of_run_choose choice
    rw [LiveGrammar.patternAccepts, starts] at accepts
    have takes := takesNext_matchSymbol (c := { c with journal })
      (fun _ _ ahead => takesNext_matchRule (Action.wellBehaved env) ahead fuel) accepts
    exact takes.of_error failed mismatch

end

end Matcher

end Planfile
