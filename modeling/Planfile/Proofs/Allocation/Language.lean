import Planfile.Proofs.Allocation.Action
import Planfile.Proofs.Hours.Language

/-!
# Planfile — the allocations of a plan

Headers of tasks and resources are words of rules of their own, and so are headers of scenarios, the ids by
which scenarios are chosen, and the attributes of tasks that can be meant for a scenario. One of these attributes is
for allocations. All others start with another word, also those that a plan adds, for the declared alternatives
come first where the next token can start several. So what a plan makes of its allocations can be read off its
text.

Main results:

* `AllocationTable.tracks` — the table comes from the notes on bodies, scenarios and allocations.
* `Language.allocations_of_plan` — no statement about allocations is lost, nor any term of one.
-/

namespace Planfile

open Matcher
open Plan (AllocationStatement PropertyKind)

theorem Token.exists_of_class?_idWithColon {token : Token} (h : token.class? = some .idWithColon) :
    ∃ name, token = .idWithColon name := by
  cases token with
  | idWithColon name => exact ⟨name, rfl⟩
  | _ => cases h

/-! ## Which alternative is chosen -/

/-- Where the first candidate is taken, an alternative of the second part is taken only if none of the first
part can start with the token. -/
theorem LiveGrammar.mem_or_of_accepting_append {g : LiveGrammar} {token : Token} {ps qs found : List Pattern}
    (h : g.accepting token (ps ++ qs) = .ok found) {p : Pattern} (first : found.head? = some p) :
    p ∈ ps ∨ ∀ q ∈ ps, g.patternAccepts token q = .ok false := by
  induction ps generalizing found with
  | nil => exact .inr fun q none => nomatch none
  | cons q rest ih =>
    rw [List.cons_append, accepting] at h
    cases answer : g.patternAccepts token q with
    | error e => simp [answer, bind, Except.bind] at h
    | ok accepts =>
      cases behind : g.accepting token (rest ++ qs) with
      | error e => simp [answer, behind, bind, Except.bind] at h
      | ok others =>
        simp only [answer, behind, bind, Except.bind, pure, Except.pure, Except.ok.injEq] at h
        subst h
        cases accepts with
        | true =>
          cases first
          exact .inl List.mem_cons_self
        | false =>
          rcases ih behind first with mem | none
          · exact .inl (List.mem_cons_of_mem _ mem)
          · exact .inr (List.forall_mem_cons.mpr ⟨answer, none⟩)

/-- An alternative that a plan has added is chosen only if no declared one can start with the next token. -/
theorem Matcher.mem_or_of_run_choose {id : RuleId} {env : Surroundings} {c d : Context} {p : Pattern}
    (choice : choose id env c = (.ok (some p), d)) :
    p ∈ (env.grammar.rule id).patterns ∨ ∀ q ∈ (env.grammar.rule id).patterns,
      (LiveGrammar.mk env.grammar c.extensions).patternAccepts c.tokens.peek q = .ok false := by
  obtain ⟨found, -, answer, first, -⟩ := exists_candidates_of_run_choose choice
  exact LiveGrammar.mem_or_of_accepting_append answer first.symm

/-! ## Rules -/

namespace AllocationTable

/-- How the header of a task or a resource is read. -/
def readsHead (kind : PropertyKind) (text : List Token) (note : Note BodyHead AllocationNote) : Prop :=
  ∃ id name, text = LiveGrammar.headerText kind id name ∧ note = .opens ⟨kind, id, name⟩

/-- How the header of a scenario is read. -/
def readsScenario (text : List Token) (note : Note BodyHead AllocationNote) : Prop :=
  ∃ id name, text = [.id "scenario", .id id, .string name] ∧ note = .tells (.declares id)

/-- How the scenario is read for which an attribute is meant. -/
def readsChoice (text : List Token) (note : Note BodyHead AllocationNote) : Prop :=
  ∃ id, text = [.idWithColon id] ∧ note = .tells (.chooses id)

/-- How an attribute of a task is read. -/
def readsAttribute (text : List Token) (note : Note BodyHead AllocationNote) : Prop :=
  (∃ statements, Plan.AllocationsWritten statements text ∧ note = .tells (.allocates statements)) ∨
    text.head? ≠ some (.id "allocate") ∧ note = .tells .other

/-- How a rule is read that is no header of a task or a resource, if it is a note. -/
def allocationNote? (t : GrammarTable) (id : RuleId) :
    Option (List Token → Note BodyHead AllocationNote → Prop) :=
  if (t.rule id).name = "scenarioHeader" then some readsScenario
  else if (t.rule id).name = "scenarioId" then some readsChoice
  else if (t.rule id).name = "taskScenarioAttributes" then some readsAttribute
  else none

/-- What the rules of a grammar are for, as far as allocations are concerned. -/
def concern (t : GrammarTable) : Concern (Note BodyHead AllocationNote) where
  words id := match HoursTable.head? t id with
    | some kind => some (readsHead kind)
    | none => allocationNote? t id
  coda
    | .property .close => some .closes
    | .property .leaveScenario => some (.tells .leaves)
    | _ => none
  allows a := a = .property .close || a = .property .leaveScenario || a.sparesAllocationTable

/-- Bodies, scenarios and allocations, with what is seen of them and what becomes of this. -/
def matter (t : GrammarTable) : Matter (Note BodyHead AllocationNote) AllocationTable where
  toConcern := concern t
  view := Context.allocationTable
  step := step

/-- How the header of a scenario is read. -/
def scenarioPattern : Pattern := headingPattern "scenario" (.scenario .header)

/-- How a scenario is chosen. -/
def choicePattern : Pattern := ⟨[.tokenClass .idWithColon], some (.scenario .select)⟩

/-- Whether a rule is one of those to which attributes of tasks refer, those about allocations apart. -/
def lookups (t : GrammarTable) (id : RuleId) : Bool :=
  ["taskId", "taskList", "moreTaskList", "number", "durationUnit", "calendarDuration", "workingDuration",
    "valDate", "flag", "flagList", "moreFlagList", "referenceBody", "referenceAttributes"].contains (t.rule id).name

/-- Whether an alternative is for an attribute of tasks that is not about allocations. -/
def isOther (t : GrammarTable) (p : Pattern) : Bool :=
  match p.symbols, p.action with
  | .literal word :: symbols, some (.property a) =>
    word != "allocate" && symbols.all (·.isWithin (lookups t)) && (Action.property a).sparesAllocationTable
  | _, _ => false

/-- So it is with an attribute that a plan has added, whatever its word is. -/
structure IsOther (t : GrammarTable) (word : String) (symbols : List Symbol) (a : Action) (p : Pattern) :
    Prop where
  form : p = ⟨.literal word :: symbols, some a⟩
  within : symbols.all (·.isWithin (lookups t)) = true
  spares : a.sparesAllocationTable = true
  declares : ∀ kind, a ≠ .extend (.declare kind)

/-- Whether a rule is for attributes of tasks, one of which is about allocations. -/
def isAttributes (t : GrammarTable) (id : RuleId) : Bool :=
  !(t.rule id).optional && !(t.rule id).repeatable && (t.rule id).patterns.any t.isAllocate &&
    (t.rule id).patterns.all fun p => t.isAllocate p || isOther t p

/-- Whether rules that are notes are read as they should. -/
def checkForms (t : GrammarTable) : Bool :=
  (List.range t.rules.size).all fun i =>
    (HoursTable.head? t ⟨i⟩).all (fun kind => t.isOnly (headerPattern kind) ⟨i⟩) &&
      ((t.rule ⟨i⟩).name != "scenarioHeader" || t.isOnly scenarioPattern ⟨i⟩) &&
      ((t.rule ⟨i⟩).name != "scenarioId" || t.isOnly choicePattern ⟨i⟩) &&
      ((t.rule ⟨i⟩).name != "taskScenarioAttributes" || isAttributes t ⟨i⟩)

section
variable {t : GrammarTable} {id : RuleId} {p : Pattern}
  {reads : List Token → Note BodyHead AllocationNote → Prop}

/-- A rule that is a note is for headers of tasks or resources, or it is another one. -/
theorem cases_of_words (reading : (concern t).words id = some reads) :
    (∃ kind, HoursTable.head? t id = some kind ∧ readsHead kind = reads) ∨
      HoursTable.head? t id = none ∧ allocationNote? t id = some reads := by
  simp only [concern] at reading
  split at reading
  · next kind heads => exact .inl ⟨kind, heads, Option.some.inj reading⟩
  · next other => exact .inr ⟨other, reading⟩

/-- The other rules have names of their own. -/
theorem cases_of_allocationNote? (reading : allocationNote? t id = some reads) :
    (t.rule id).name = "scenarioHeader" ∧ readsScenario = reads ∨
      (t.rule id).name = "scenarioId" ∧ readsChoice = reads ∨
      (t.rule id).name = "taskScenarioAttributes" ∧ readsAttribute = reads := by
  unfold allocationNote? at reading
  split at reading
  · next same => exact .inl ⟨same, Option.some.inj reading⟩
  · split at reading
    · next same => exact .inr (.inl ⟨same, Option.some.inj reading⟩)
    · split at reading
      · next same => exact .inr (.inr ⟨same, Option.some.inj reading⟩)
      · cases reading

theorem known_of_words (isWord : ((concern t).words id).isSome = true) : t.rule id ≠ default := by
  intro absent
  obtain ⟨reads, reading⟩ := Option.isSome_iff_exists.mp isWord
  rcases cases_of_words reading with ⟨kind, heads, -⟩ | ⟨-, other⟩
  · rw [HoursTable.head?, absent] at heads
    cases heads
  · rw [allocationNote?, absent] at other
    cases other

/-- Where the check passes, rules are read as they should. -/
theorem forms_of_check (checked : checkForms t = true) (isWord : ((concern t).words id).isSome = true) :
    (∀ kind, HoursTable.head? t id = some kind → t.isOnly (headerPattern kind) id = true) ∧
      ((t.rule id).name = "scenarioHeader" → t.isOnly scenarioPattern id = true) ∧
      ((t.rule id).name = "scenarioId" → t.isOnly choicePattern id = true) ∧
      ((t.rule id).name = "taskScenarioAttributes" → isAttributes t id = true) := by
  have passed := @GrammarTable.rule_eq_default_or_of_all t
    (fun id => (HoursTable.head? t id).all (fun kind => t.isOnly (headerPattern kind) id) &&
      ((t.rule id).name != "scenarioHeader" || t.isOnly scenarioPattern id) &&
      ((t.rule id).name != "scenarioId" || t.isOnly choicePattern id) &&
      ((t.rule id).name != "taskScenarioAttributes" || isAttributes t id))
    (fun i known => List.all_eq_true.mp checked i (List.mem_range.mpr known)) id
  have found := passed.resolve_left (known_of_words isWord)
  simp only [Bool.and_eq_true, Option.all_eq_true, Bool.or_eq_true, bne_iff_ne, ne_eq, and_assoc] at found
  obtain ⟨heads, declares, chooses, attributes⟩ := found
  exact ⟨heads, fun same => declares.resolve_left (not_not_intro same),
    fun same => chooses.resolve_left (not_not_intro same),
    fun same => attributes.resolve_left (not_not_intro same)⟩

/-! ## Attributes of tasks -/

/-- An alternative that is found to be for another attribute is so, and it starts with another word. -/
theorem IsOther.of_isOther (h : isOther t p = true) :
    ∃ word symbols a, IsOther t word symbols a p ∧ word ≠ "allocate" := by
  obtain ⟨symbols, action⟩ := p
  unfold isOther at h
  dsimp only at h
  split at h
  · simp only [Bool.and_eq_true, bne_iff_ne] at h
    obtain ⟨⟨other, within⟩, spares⟩ := h
    exact ⟨_, _, _, ⟨rfl, within, spares, fun _ same => nomatch same⟩, other⟩
  · cases h

/-- An attribute that a plan adds is another one. -/
theorem IsOther.of_isExtension {reference : RuleId} (known : t.ruleId? "referenceBody" = some reference)
    (h : t.IsExtension p) : ∃ word symbols a, IsOther t word symbols a p := by
  obtain ⟨e, full, resolved, action⟩ := h
  obtain ⟨symbols, _⟩ := p
  cases action
  rw [e.mapM_symbols full known] at resolved
  cases resolved
  refine ⟨_, _, _, rfl, ?_, rfl, fun _ same => nomatch same⟩
  -- of its symbols only the body of a reference is a rule
  have within : lookups t reference = true := by
    rw [lookups, GrammarTable.name_of_ruleId? known]
    decide
  unfold AttributeExtension.tailSymbols
  cases e.kind <;> simp [Symbol.isWithin, within]

/-- A statement about allocations can start with their word. -/
theorem patternAccepts_of_isAllocate (form : t.isAllocate p = true) (added : List (RuleId × Pattern)) :
    (LiveGrammar.mk t added).patternAccepts (.id "allocate") p = .ok true := by
  obtain ⟨_, rfl, fits⟩ := GrammarTable.exists_of_isForm form
  rcases fits with _ | ⟨keyword, _ | ⟨list, ⟨⟩⟩⟩
  obtain rfl := Piece.eq_of_fits keyword
  have starts : (Terminal.literal "allocate").accepts (.id "allocate") = true := by decide
  exact congrArg Except.ok starts

end

section
variable {ofRule : RuleId → Shape} {effects : Effects} {env : Surroundings} {c d : Context} {p : Pattern}
  {word : String} {symbols : List Symbol} {a : Action}

variable (env) in
/-- Whether an attribute has been read as a note on the way from one state to another, where its text is a
word of some symbols, and the table has followed the note. -/
def Noted (symbols : List Symbol) (c d : Context) : Prop :=
  ∃ text note, readsAttribute text note ∧ c.tokens.Reads text d.tokens ∧
    (∀ added, c.extensions <+: added → LiveGrammar.Derives ⟨env.grammar, added⟩ symbols text) ∧
    d.extensions = c.extensions ∧ step c.allocationTable note = some d.allocationTable

/-- Another attribute reads its word and a value, and leaves alone the table. -/
theorem IsOther.noted (other : IsOther env.grammar word symbols a p)
    (looks : env.grammar.Looks (lookups env.grammar)) (names : p.NamesCapital) (placed : c.entryLists.Placed)
    (differs : c.tokens.peek.matchesLiteral word = true → c.tokens.peek ≠ .id "allocate") {v : Option Value}
    (course : Course ofRule effects env (.pattern p) c v d) : Noted env p.symbols c d := by
  obtain ⟨rfl, within, spares, declares⟩ := other
  -- behind its word there are only rules that look, so the table is that of before until its action is done
  obtain ⟨items, x, journal, matchRule, course, prepared, run⟩ := course.of_acting rfl
  cases course with
  | terminal hs fits rest =>
    cases hs
    obtain ⟨text, reads, words⟩ := rest.readsWord looks within
    have all := (Context.Reads.next fits env).append reads
    obtain ⟨through, tokens, before, depth, stop, rfl⟩ := all
    have ahead : d.tokens = tokens := by
      refine Action.tokens_eq_of_run (fun i same => ?_) (fun name same => ?_) run
      · rw [same] at spares
        cases spares
      · exact (prepared.allows _ (congrArg some same)).not_rule
    refine ⟨c.tokens.peek :: text, .tells .other, .inr ⟨fun same => differs fits (Option.some.inj same), rfl⟩,
      ahead ▸ through, fun added _ => .terminal rfl fits (words added),
      prepared.extensions_of_run rfl declares run, ?_⟩
    exact congrArg some (prepared.allocationTable rfl names placed spares run).symm

/-- A statement about allocations is a note that lists them. -/
theorem noted_of_isAllocate (form : env.grammar.isAllocate p = true) {v : Option Value}
    (course : Course ofRule effects env (.pattern p) c v d) : Noted env p.symbols c d := by
  obtain ⟨statements, text, x, written, reads, derived, allows, run⟩ := course.of_isAllocate form
  obtain ⟨through, tokens, before, depth, stop, rfl⟩ := reads
  obtain ⟨extensions, ahead, follows⟩ := Context.allocationTable_of_addAllocations allows run
  exact ⟨text, _, .inl ⟨statements, written, rfl⟩, ahead ▸ through, fun added _ => derived added, extensions,
    follows⟩

/-- What is known of the states on the way of a plan. -/
def assertions (env : Surroundings) : Assertions :=
  capitals env fun c => c.entryLists.Linked ∧ c.scenarioTable.Unreplaced

/-- Of attributes of tasks an added one is chosen only if the next token is not the word for allocations. -/
theorem cases_of_choose {id : RuleId} (attributes : isAttributes env.grammar id = true)
    (offered : env.grammar.Offers id p) (choice : choose id env c = (.ok (some p), d)) :
    env.grammar.isAllocate p = true ∨ isOther env.grammar p = true ∨
      env.grammar.IsExtension p ∧ c.tokens.peek ≠ .id "allocate" := by
  simp only [isAttributes, Bool.and_eq_true, List.any_eq_true, List.all_eq_true, Bool.or_eq_true] at attributes
  obtain ⟨⟨-, own, isOwn, isAllocate⟩, forms⟩ := attributes
  have declared (mem : p ∈ (env.grammar.rule id).patterns) : env.grammar.isAllocate p = true ∨
      isOther env.grammar p = true ∨ env.grammar.IsExtension p ∧ c.tokens.peek ≠ .id "allocate" :=
    (forms p mem).imp_right .inl
  rcases offered with mem | ⟨-, isExtension⟩
  · exact declared mem
  rcases mem_or_of_run_choose choice with mem | none
  · exact declared mem
  · refine .inr (.inr ⟨isExtension, fun same => ?_⟩)
    have starts := none own isOwn
    rw [same, patternAccepts_of_isAllocate isAllocate] at starts
    cases starts

/-- An attribute of a task is read as a note, and the table follows it. -/
theorem noted_of_isAttributes (invariant : ValueInvariant ofRule effects env (assertions env))
    {reference : RuleId} (known : env.grammar.ruleId? "referenceBody" = some reference)
    (looks : env.grammar.Looks (lookups env.grammar)) {id : RuleId}
    (attributes : isAttributes env.grammar id = true) (asked : (assertions env).ask c) {v : Option Value}
    (course : Course ofRule effects env (.rule id) c v d) : Noted env [.rule id] c d := by
  have once := attributes
  simp only [isAttributes, Bool.and_eq_true, Bool.not_eq_true', and_assoc] at once
  obtain ⟨present, single, -⟩ := once
  cases course with
  | repeated repeatable =>
    rw [single] at repeatable
    cases repeatable
  | absent optional =>
    rw [present] at optional
    cases optional
  | @once _ _ _ x p _ choice offered inner =>
    obtain ⟨-, fit⟩ := invariant.of_choose (invariant.noise asked c.journal (c.depth + 1) c.stop).1 choice
    have origin := cases_of_choose attributes offered choice
    obtain ⟨⟨journal, rfl⟩, mem⟩ := exists_of_run_choose choice
    have placed : ({ c with depth := c.depth + 1, journal } : Context).entryLists.Placed := asked.1.1.placed
    -- an added attribute can have any word, so for these it is the next token that tells them apart
    have noted : Noted env p.symbols { c with depth := c.depth + 1, journal } x := by
      rcases origin with allocates | isOther | ⟨isExtension, differs⟩
      · exact noted_of_isAllocate allocates inner
      · obtain ⟨word, symbols, a, other, differs⟩ := IsOther.of_isOther isOther
        refine other.noted looks (fit p rfl) placed (fun isWord same => ?_) inner
        rw [same] at isWord
        have own : "allocate" = word := by simpa [Token.matchesLiteral, Token.literalText?] using isWord
        exact differs own.symm
      · obtain ⟨word, symbols, a, other⟩ := IsOther.of_isExtension known isExtension
        exact other.noted looks (fit p rfl) placed (fun _ => differs) inner
    -- whatever is added later, this alternative is still there
    obtain ⟨text, note, reads, through, derived, extensions, follows⟩ := noted
    exact ⟨text, note, reads, through, fun added later => .alternative
      (LiveGrammar.patterns_subset_of_prefix _ later id (mem p rfl)) (derived added later), extensions, follows⟩

/-! ## All notes -/

/-- A scenario is chosen by a token of its own. -/
theorem course_choice {id : RuleId} (only : env.grammar.isOnly choicePattern id = true) {v : Option Value}
    (course : Course ofRule effects env (.rule id) c v d) :
    ∃ own, c.tokens.Reads [.idWithColon own] d.tokens ∧
      (∀ added, LiveGrammar.Derives ⟨env.grammar, added⟩ [.rule id] [.idWithColon own]) ∧
      d.extensions = c.extensions ∧
      c.allocationTable.step (.tells (.chooses own)) = some d.allocationTable := by
  obtain ⟨noted, x, mem, rfl, inner⟩ := course.of_isOnly only
  have terminals : choicePattern.symbols.map (·.terminal?) = [Terminal.tokenClass .idWithColon].map some := rfl
  obtain ⟨text, tokens, journal, matchRule, fits, reads, -, acted⟩ :=
    inner.of_terminalPattern (p := choicePattern) rfl terminals
  have word (added : List (RuleId × Pattern)) : LiveGrammar.Derives ⟨env.grammar, added⟩ [.rule id] text :=
    .alternative (mem added) (.of_terminals terminals fits)
  rcases fits with _ | ⟨isId, ⟨⟩⟩
  obtain ⟨own, rfl⟩ := Token.exists_of_class?_idWithColon (by simpa [Terminal.accepts] using isId)
  obtain ⟨_, first, extensions, ahead, follows⟩ := ScenarioAction.allocationTable_select acted
  cases first
  exact ⟨own, ahead ▸ reads, word, extensions, follows⟩

/-- The table comes from the notes on bodies, scenarios and allocations. -/
theorem tracks (invariant : ValueInvariant ofRule effects env (assertions env)) {reference : RuleId}
    (known : env.grammar.ruleId? "referenceBody" = some reference)
    (looks : env.grammar.Looks (lookups env.grammar)) (forms : checkForms env.grammar = true) :
    (matter env.grammar).Tracks ofRule effects env (assertions env) where
  noise _ _ _ _ _ := rfl
  word {id reads c v d} reading asked course := by
    have ⟨⟨linked, unreplaced⟩, _⟩ := asked
    have isWord := Option.isSome_iff_exists.mpr ⟨reads, reading⟩
    obtain ⟨heads, declares, chooses, attributes⟩ := forms_of_check forms isWord
    rcases cases_of_words reading with ⟨kind, head, rfl⟩ | ⟨-, other⟩
    · -- a header enters a task or a resource, with the id and the name of the text
      obtain ⟨own, name, tokens, journal, matchRule, x, through, word, v, isId, isName, prepared, acted, rfl⟩ :=
        Course.of_isOnly_heading (by cases kind <;> decide) (heads kind head) course
      have placed : ({ c with tokens, journal, depth := c.depth + 1 } : Context).entryLists.Placed :=
        linked.placed
      obtain ⟨_, _, first, second, extensions, ahead, follows⟩ := PropertyAction.allocationTable_header placed
        (prepared.allows _ rfl).place_of_header prepared.grounded.conforming.project acted
      cases isId.symm.trans first
      cases isName.symm.trans second
      exact ⟨_, _, ⟨own, name, rfl, rfl⟩, ahead ▸ through, fun added _ => word added, extensions, follows⟩
    rcases cases_of_allocationNote? other with ⟨named, rfl⟩ | ⟨named, rfl⟩ | ⟨named, rfl⟩
    · -- the header of a scenario declares it
      obtain ⟨own, name, tokens, journal, matchRule, x, through, word, v, isId, isName, prepared, acted, rfl⟩ :=
        Course.of_isOnly_heading (by decide) (declares named) course
      have there : ({ c with tokens, journal, depth := c.depth + 1 } : Context).scenarioTable.Unreplaced :=
        unreplaced
      obtain ⟨_, _, first, second, extensions, follows⟩ := ScenarioAction.allocationTable_header there acted
      cases isId.symm.trans first
      cases isName.symm.trans second
      have ahead : x.tokens = tokens := Action.tokens_eq_of_run (a := .scenario .header)
        (fun _ same => nomatch same) (fun _ same => nomatch same) acted
      exact ⟨_, _, ⟨own, name, rfl, rfl⟩, ahead ▸ through, fun added _ => word added, extensions, follows⟩
    · obtain ⟨own, through, word, extensions, follows⟩ := course_choice (chooses named) course
      exact ⟨_, _, ⟨own, rfl, rfl⟩, through, fun added _ => word added, extensions, follows⟩
    · exact noted_of_isAttributes invariant known looks (attributes named) asked course
  acted {matchRule p a v o c d} prepared action names asked allowed run := by
    by_cases closes : a = .property .close
    · subst closes
      show [Note.closes].foldlM step c.allocationTable = some d.allocationTable
      rw [List.foldlM_cons, PropertyAction.allocationTable_close (v := v) run]
      rfl
    by_cases leaves : a = .property .leaveScenario
    · subst leaves
      show [Note.tells AllocationNote.leaves].foldlM step c.allocationTable = some d.allocationTable
      rw [List.foldlM_cons, PropertyAction.allocationTable_leaveScenario (v := v) run]
      rfl
    · have spares : a.sparesAllocationTable = true := by simpa [matter, concern, closes, leaves] using allowed
      have silent : (concern env.grammar).coda a = none := by
        cases a with
        | property a => cases a <;> first | rfl | exact absurd rfl closes | exact absurd rfl leaves
        | _ => rfl
      show ((concern env.grammar).coda a).toList.foldlM step c.allocationTable = some d.allocationTable
      rw [silent, prepared.allocationTable action names asked.1.1.placed spares run]
      rfl
  unfiled _ := rfl

end

end AllocationTable

end Planfile

/-! ## The language -/

namespace Planfile.Language

open Matcher
open Plan (Allocation AllocationStatement)
open AllocationTable (assertions concern checkForms lookups)
open HoursTable (starts)
open TokenSource (Pastes)

/-- In the language bodies of tasks and resources start and end in pairs, and rules that are notes are read as
they should. Rules to which other attributes of tasks refer do nothing but look. -/
theorem check_allocations :
    satisfies (fun t => t.checkAttends (concern t) &&
      t.checkPairs (starts t) (concern t) && checkForms t && t.checkLooks (lookups t) &&
      (t.ruleId? "project").all (t.isPlain (concern t))) = true := by
  decide +kernel

section
variable {t : GrammarTable} (h : grammar = .ok t)

include h

/-- What the check finds. -/
theorem allocations_checked :
    (t.checkAttends (concern t) = true ∧ t.checkPairs (starts t) (concern t) = true) ∧
      checkForms t = true ∧ t.checkLooks (lookups t) = true ∧
      ∀ id, t.ruleId? "project" = some id → t.isPlain (concern t) id = true := by
  have found := of_satisfies check_allocations h
  simp only [Bool.and_eq_true, Option.all_eq_true] at found
  obtain ⟨⟨⟨rules, forms⟩, looks⟩, project⟩ := found
  exact ⟨rules, forms, looks, project⟩

/-- No rule that is no note does what is seen in the table, but for the ends of bodies and of what is meant
for a scenario. -/
theorem attends_allocations : t.Attends (concern t) :=
  GrammarTable.attends_of_check (fun _ _ _ => rfl) (allocations_checked h).1.1

/-- With whatever a plan adds to the language, bodies of tasks and resources start and end in pairs. -/
theorem nests_allocations {added : List (RuleId × Pattern)}
    (offers : ∀ id, ∀ q ∈ LiveGrammar.patterns ⟨t, added⟩ id, t.Offers id q) :
    LiveGrammar.Nests (starts t) ⟨t, added⟩ (concern t) := by
  obtain ⟨reference, body⟩ := (exists_charted h).1.typed.extensible.reference
  refine LiveGrammar.nests_of_check (allocations_checked h).1.2 (fun id isHeader reads reading => ?_)
    (fun id other reads reading => ?_) (fun id isHeader => ?_) body ?_ (fun _ _ _ => rfl) offers
  · rcases AllocationTable.cases_of_words reading with ⟨kind, -, rfl⟩ | ⟨none, -⟩
    · rintro text note ⟨own, name, -, rfl⟩
      exact ⟨⟨kind, own, name⟩, rfl⟩
    · rw [starts, none] at isHeader
      cases isHeader
  · rcases AllocationTable.cases_of_words reading with ⟨kind, head, -⟩ | ⟨-, reading⟩
    · rw [starts, head] at other
      cases other
    · rcases AllocationTable.cases_of_allocationNote? reading with ⟨-, rfl⟩ | ⟨-, rfl⟩ | ⟨-, rfl⟩
      · rintro text note ⟨own, name, -, rfl⟩
        exact ⟨_, rfl⟩
      · rintro text note ⟨own, -, rfl⟩
        exact ⟨_, rfl⟩
      · rintro text note (⟨statements, -, rfl⟩ | ⟨-, rfl⟩) <;> exact ⟨_, rfl⟩
  · exact HoursTable.known_of_starts isHeader
  · exact HoursTable.not_starts_of_reference body

end

/-- Where a plan has made a project, the text, in which all include statements have given way to the tokens of
their files, is a word of the language, and what each of its tasks holds is what the statements in the text
say: it starts, for each scenario, with what the task around holds at that moment, and each statement in its
body that is meant for the scenario adds all that it allocates behind what has been there, in its order.

Wherever there is a current task, statements that are made one behind the other do not fail. In the end, for
the scenario that is meant, it has what it has had before with all allocations of all statements behind it,
and nothing else has changed.

Each allocation is made of the values that its terms are read as, and none of them is passed over, in whatever
order they are: candidates are the resource and all alternatives to it, the last mode counts, and it is
persistent, or mandatory, just if it is said so. -/
theorem allocations_of_plan {env : Surroundings} (h : grammar = .ok env.grammar) (main : TokenStream)
    (file : String) (path : Option String) (journal : Log.Journal) :
    (∀ p c, plan env (.ofStream main file path journal) = (.ok p, c) →
      ∃ id files text, ∃ n : Nest BodyHead AllocationNote, env.grammar.ruleId? "project" = some id ∧
        Pastes env.preferences env.files (.ofStream main file path) text c.tokens ∧
        Pasted env.preferences env.files main.rest files text ∧
        LiveGrammar.Recounts ⟨env.grammar, c.extensions⟩ (concern env.grammar) [.rule id] text n.notes ∧
        p.tasks.properties.toList.map (·.taskAllocations) = n.taskAllocations none (fun _ => []) .initial 0) ∧
    (∀ (x : Context) q i r statements ss, x.project = some q → x.property = some (.task, i) →
      q.tasks.get? i = some r →
      allocateAll (statements :: ss) env x =
        (.ok (), x.storing q .task i (some x.scenarioIndex) "allocate" (.allocations
          (r.allocations x.scenarioIndex ++ (statements :: ss).flatten.map (·.allocation))))) ∧
    ∀ s : AllocationStatement, allocationOf s.resource (s.terms.map (·.value)) =
      { candidates := s.resource :: s.terms.flatMap (·.resources)
        mode := (s.terms.filterMap (·.mode?)).getLast?.getD .minLoaded
        persistent := .persistent ∈ s.terms
        mandatory := .mandatory ∈ s.terms } := by
  obtain ⟨-, forms, looks, plain⟩ := allocations_checked h
  obtain ⟨charted, -⟩ := exists_charted h
  obtain ⟨reference, body⟩ := charted.typed.extensible.reference
  -- the invariant says where a header has its place, and that no added attribute stores allocations
  have invariant : ValueInvariant (shapeIn env.grammar) (effectsIn env.grammar) env (assertions env) :=
    valueInvariant_capitals (trusting h) charted.typed body (fun _ _ _ _ _ held => held)
      fun matchRule p v a x c d prepared action held run =>
        ⟨prepared.linked charted.typed body action held.1 run, prepared.unreplaced action held.2 run⟩
  refine ⟨fun p c run => ?_, fun x q i r statements ss there current found =>
    run_allocateAll there current found statements ss, fun s => s.allocationOf_values⟩
  obtain ⟨id, files, text, n, d, known, pastes, pasted, recounts, follows, there⟩ :=
    retold_of_plan h (attends_allocations h)
      (AllocationTable.tracks invariant body (GrammarTable.looks_of_check looks) forms) invariant
      (fun _ => nests_allocations h) plain
      ⟨⟨Context.linked_initial _ _, fun _ => rfl⟩, fun _ none => absurd none List.not_mem_nil⟩ run
  have follows : n.notes.foldlM AllocationTable.step AllocationTable.initial = some d.allocationTable :=
    follows
  have tasks := AllocationTable.of_run follows
  rw [Context.allocationTable, Context.allocationsWith_of_project there] at tasks
  exact ⟨id, files, text, n, known, pastes, pasted, recounts, tasks⟩

/-- A plan with two scenarios, four resources and four tasks. What is allocated to the first one is said in
three statements, one of them for the second scenario, and before the last one there is a task in its body. -/
def allocationsPlan : TokenStream :=
  plainStream <| yearHeader ++
    [.mark .leftBrace,
      .id "scenario", .id "one", .string "1", .id "scenario", .id "two", .string "2", .mark .rightBrace,
      .id "resource", .id "a", .string "A", .id "resource", .id "b", .string "B",
      .id "resource", .id "c", .string "C", .id "resource", .id "d", .string "D",
      .id "task", .id "t", .string "T", .mark .leftBrace,
        .id "allocate", .id "a", .mark .leftBrace,
          .id "select", .id "order", .id "alternative", .id "b", .mark .comma, .id "c", .id "persistent",
          .id "alternative", .id "d", .id "select", .id "maxloaded", .mark .rightBrace, .mark .comma, .id "b",
        .idWithColon "two", .id "allocate", .id "c", .mark .leftBrace, .id "mandatory", .mark .rightBrace,
        .id "task", .id "u", .string "U", .mark .leftBrace, .id "allocate", .id "d", .mark .rightBrace,
        .id "allocate", .id "a",
        .id "task", .id "v", .string "V", .mark .rightBrace,
      .id "task", .id "w", .string "W", .eof]

/-- The first allocation of the plan. -/
def firstAllocation : Allocation := ⟨["a", "b", "c", "d"], .maxLoaded, true, false⟩

/-- An allocation of which nothing is said. -/
def plainAllocation (resource : String) : Allocation := ⟨[resource], .minLoaded, false, false⟩

/-- An allocation that is mandatory. -/
def mandatoryAllocation : Allocation := ⟨["c"], .minLoaded, false, true⟩

/-- What the tasks of the plan hold for the two scenarios. -/
def planDuties : List (Heading × List Allocation × List Allocation) :=
  [(⟨"t", "T", none⟩, [firstAllocation, plainAllocation "b", plainAllocation "a"], [mandatoryAllocation]),
    (⟨"t.u", "U", some 0⟩, [firstAllocation, plainAllocation "b", plainAllocation "d"], [mandatoryAllocation]),
    (⟨"t.v", "V", some 0⟩, [firstAllocation, plainAllocation "b", plainAllocation "a"], [mandatoryAllocation]),
    (⟨"w", "W", none⟩, [], [])]

/-- The plan makes a project with these tasks. -/
theorem run_allocationsPlan :
    satisfies (fun t =>
      (plan ⟨t, .empty, .default⟩ (.initial (.ofStream allocationsPlan "main.tjp" none) .silent)).1.toOption.any
        fun p => p.tasks.properties.toList.map (fun q => (q.heading, q.allocations 0, q.allocations 1)) ==
          planDuties) = true := by
  decide +kernel

/-- A project with one task to which nothing has been allocated. -/
def singleTask : Plan.Project :=
  { Plan.Project.initial "p" "P" "1" ⟨⟨2024, 1, 1, 0, 0, 0⟩, ⟨2025, 1, 1, 0, 0, 0⟩⟩ with
    tasks := { Plan.PropertySet.empty .task with
      properties := #[⟨"t", "T", none, [], [], []⟩]
      index := [("t", 0)] } }

/-- The state where this project has been read, in the body of the task. -/
def singleTaskState : Context :=
  { Context.ofStream allocationsPlan "main.tjp" none .silent with
    project := some singleTask, property := some (.task, 0) }

/-- A resource with terms of all kinds. -/
def fullStatement : AllocationStatement :=
  ⟨"a", [.select .order, .alternative ["b", "c"], .persistent, .alternative ["d"], .select .maxLoaded]⟩

/-- The tasks of the plan hold what its statements say, two statements about the task of a small project are
both there in the end, and no term is passed over. -/
theorem allocations_of_plan_allocationsPlan :
    ∃ table, grammar = .ok table ∧
      (∃ p c id files text, ∃ n : Nest BodyHead AllocationNote,
        plan ⟨table, .empty, .default⟩ (.ofStream allocationsPlan "main.tjp" none .silent) = (.ok p, c) ∧
        Pasted .default .empty allocationsPlan.rest files text ∧
        LiveGrammar.Recounts ⟨table, c.extensions⟩ (concern table) [.rule id] text n.notes ∧
        (n.taskAllocations none (fun _ => []) .initial 0).map (fun d => (d.heading, d.held 0, d.held 1)) =
          planDuties) ∧
      allocateAll [[fullStatement], [⟨"b", []⟩, ⟨"a", []⟩]] ⟨table, .empty, .default⟩ singleTaskState =
        (.ok (), singleTaskState.storing singleTask .task 0 (some 0) "allocate"
          (.allocations [firstAllocation, plainAllocation "b", plainAllocation "a"])) ∧
      allocationOf "a" (fullStatement.terms.map (·.value)) = firstAllocation := by
  obtain ⟨table, p, c, made, run, listed⟩ := exists_run_of_check run_allocationsPlan
  obtain ⟨told, added, terms⟩ :=
    @allocations_of_plan ⟨table, .empty, .default⟩ made allocationsPlan "main.tjp" none .silent
  obtain ⟨id, files, text, n, known, -, pasted, recounts, tasks⟩ := told p c run
  have listed := beq_iff_eq.mp listed
  have held : (n.taskAllocations none (fun _ => []) .initial 0).map
      (fun d => (d.heading, d.held 0, d.held 1)) = planDuties := by
    rw [← tasks, List.map_map]
    exact listed
  refine ⟨table, made, ⟨p, c, id, files, text, n, run, pasted, recounts, held⟩, ?_, terms fullStatement⟩
  exact added singleTaskState singleTask 0 ⟨"t", "T", none, [], [], []⟩ [fullStatement] [[⟨"b", []⟩, ⟨"a", []⟩]]
    rfl rfl rfl

end Planfile.Language
