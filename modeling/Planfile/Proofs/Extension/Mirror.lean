import Planfile.Proofs.Course.Language
import Planfile.Proofs.Extension.AttributeState

/-!
# Planfile — what a plan adds to its grammar mirrors its schemas

Whatever a plan says, at every moment the alternatives that it has added to the grammar are those of the
attributes that it has added to the schemas, rule by rule and in the same order. A statement that adds an
attribute and is refused has changed neither.

Main results:

* `Context.Mirrors.extended` — adding an attribute keeps both alike.
* `Language.mirrors_of_passes` — they are alike in every state that is passed while a plan is read.
-/

namespace Planfile

open Plan (PropertyKind AttributeDefinition AttributeKind)

/-- The alternatives that have been added to a rule, where one more has been added. -/
theorem LiveGrammar.addedTo_append (g : LiveGrammar) (rule other : RuleId) (p : Pattern) :
    (g.append rule p).addedTo other = g.addedTo other ++ if rule = other then [p] else [] := by
  by_cases h : rule = other <;> simp [addedTo, append, h]

/-- Whether what a plan has added to the grammar mirrors what it has added to the schemas: the rules
that take attributes have one more alternative for each, in order, and all other rules have none. -/
structure Context.Mirrors (t : GrammarTable) (reference : RuleId) (c : Context) : Prop where
  hosts : ∀ kind specific rule, t.ruleId? (hostName kind specific) = some rule →
    (LiveGrammar.mk t c.extensions).addedTo rule =
      ((c.added kind).filter (·.scenarioSpecific == specific)).map (·.extension.pattern reference)
  others : ∀ rule, (∀ kind specific, t.ruleId? (hostName kind specific) ≠ some rule) →
    (LiveGrammar.mk t c.extensions).addedTo rule = []

/-- Whether what is extended is given by the rules that take its attributes. -/
def Context.Aimed (t : GrammarTable) (c : Context) : Prop :=
  ∀ x, c.extendTarget = some x → t.ruleId? (hostName x.kind false) = some x.rule ∧
    t.ruleId? (hostName x.kind true) = some x.scenarioRule

namespace Context

variable {t : GrammarTable} {reference : RuleId} {c d : Context}

/-- No more is needed for it than the schemas and what has been added to the grammar. -/
theorem Mirrors.of_eq (h : c.Mirrors t reference) (schema : d.schema = c.schema)
    (extensions : d.extensions = c.extensions) : d.Mirrors t reference := by
  refine ⟨fun kind specific rule hosts => ?_, fun rule foreign => ?_⟩
  · rw [extensions, h.hosts kind specific rule hosts, added, added, schema]
  · rw [extensions, h.others rule foreign]

theorem Mirrors.of_attributeState (h : c.Mirrors t reference) (same : d.attributeState = c.attributeState) :
    d.Mirrors t reference :=
  h.of_eq (congrArg AttributeState.schema same) (congrArg AttributeState.extensions same)

theorem Aimed.of_attributeState (h : c.Aimed t) (same : d.attributeState = c.attributeState) : d.Aimed t := by
  intro x hx
  exact h x ((congrArg AttributeState.target same).symm.trans hx)

/-- Where nothing has been added to the schemas, nothing has been added to the grammar. -/
theorem Mirrors.addedTo_eq_nil (h : c.Mirrors t reference) (none : ∀ kind, c.added kind = [])
    (rule : RuleId) : (LiveGrammar.mk t c.extensions).addedTo rule = [] := by
  by_cases hosting : ∃ kind specific, t.ruleId? (hostName kind specific) = some rule
  · obtain ⟨kind, specific, hosts⟩ := hosting
    rw [h.hosts kind specific rule hosts, none kind]
    rfl
  · exact h.others rule fun kind specific hosts => hosting ⟨kind, specific, hosts⟩

/-- Where nothing has been added to either, they are alike. -/
theorem mirrors_of_nil (grammar : ∀ rule, (LiveGrammar.mk t c.extensions).addedTo rule = [])
    (schema : ∀ kind, c.added kind = []) : c.Mirrors t reference := by
  refine ⟨fun kind specific rule _ => ?_, fun rule _ => grammar rule⟩
  rw [grammar rule, schema kind]
  rfl

/-- The attributes that have been added to a kind, where one more has been added. -/
theorem added_extended {target : ExtendTarget} {p : Plan.Project} {set : Plan.PropertySet}
    {e : AttributeExtension} (started : c.project = some p)
    (defined : (p.properties target.kind).define? e.definition = .ok set) (kind : PropertyKind) :
    (c.extended reference target p set e).added kind =
      c.added kind ++ if target.kind = kind then [e.definition] else [] := by
  have schema : (c.extended reference target p set e).schema kind =
      if target.kind = kind then set.definitions else c.schema kind :=
    schema_setProperties started target.kind kind set
  obtain ⟨-, rfl⟩ := Plan.PropertySet.definitions_of_define? defined
  rw [added, schema, added]
  by_cases same : target.kind = kind
  · subst same
    simp [Context.schema, started, AttributeExtension.definition]
  · simp [same]

/-- Adding an attribute keeps both alike. -/
theorem Mirrors.extended (h : c.Mirrors t reference) (aimed : c.Aimed t) {target : ExtendTarget}
    {p : Plan.Project} {set : Plan.PropertySet} {e : AttributeExtension}
    (there : c.extendTarget = some target) (started : c.project = some p)
    (defined : (p.properties target.kind).define? e.definition = .ok set) :
    (c.extended reference target p set e).Mirrors t reference := by
  -- the rule that takes it
  have host : t.ruleId? (hostName target.kind e.scenarioSpecific) =
      some (if e.scenarioSpecific then target.scenarioRule else target.rule) := by
    obtain ⟨plain, scenarios⟩ := aimed target there
    cases e.scenarioSpecific
    · exact plain
    · exact scenarios
  have grammar (rule : RuleId) :
      (LiveGrammar.mk t (c.extended reference target p set e).extensions).addedTo rule = _ :=
    LiveGrammar.addedTo_append ⟨t, c.extensions⟩ _ rule (e.pattern reference)
  refine ⟨fun kind specific rule hosts => ?_, fun rule foreign => ?_⟩
  · rw [grammar, h.hosts kind specific rule hosts, added_extended started defined, List.filter_append,
      List.map_append]
    congr 1
    by_cases here : target.kind = kind ∧ e.scenarioSpecific = specific
    · obtain ⟨rfl, rfl⟩ := here
      rw [hosts] at host
      have taken : [e.definition].filter (·.scenarioSpecific == e.scenarioSpecific) = [e.definition] := by
        simp [AttributeExtension.definition]
      rw [if_pos (Option.some.inj host).symm, if_pos rfl, taken]
      rfl
    · -- another rule takes the attributes of another kind
      have elsewhere : (if e.scenarioSpecific then target.scenarioRule else target.rule) ≠ rule := by
        rintro rfl
        exact here (eq_of_hostName host hosts)
      rw [if_neg elsewhere]
      by_cases same : target.kind = kind
      · have differs : e.scenarioSpecific ≠ specific := fun also => here ⟨same, also⟩
        simp [same, AttributeExtension.definition, differs]
      · simp [same]
  · rw [grammar, h.others rule foreign, if_neg]
    · rfl
    · rintro rfl
      exact foreign _ _ host

/-- No project starts with attributes that a plan has added. -/
theorem added_of_initial {id name version : String} {time : Calendar.Interval}
    (h : c.project = some (.initial id name version time)) (kind : PropertyKind) : c.added kind = [] := by
  rw [added, schema, h]
  cases kind <;> rfl

end Context

/-! ## Every state that is passed -/

section
variable {ofRule : RuleId → Shape} {effects : Effects} {env : Surroundings} {reference : RuleId}

open Matcher

/-- However the language grows, both are alike. -/
theorem Context.Grows.mirrors {t : GrammarTable} {c d : Context} (step : c.Grows t reference d)
    (h : c.Mirrors t reference ∧ c.Aimed t) : d.Mirrors t reference ∧ d.Aimed t := by
  obtain ⟨mirrors, aimed⟩ := h
  cases step with
  | same attributeState =>
    exact ⟨mirrors.of_attributeState attributeState, aimed.of_attributeState attributeState⟩
  | started none there extensions target =>
    -- before the project starts, nothing can have been added to the grammar
    have grammar := mirrors.addedTo_eq_nil (c := c) fun kind => by
      rw [added, schema, none]
      rfl
    exact ⟨mirrors_of_nil (fun rule => extensions ▸ grammar rule) (added_of_initial there),
      fun x hx => aimed x (target ▸ hx)⟩
  | aimed schema extensions target => exact ⟨mirrors.of_eq schema extensions, target⟩
  | extended there started _ defined attributeState =>
    exact ⟨(mirrors.extended aimed there started defined).of_attributeState attributeState,
      Aimed.of_attributeState (c := c.extended reference _ _ _ _) aimed attributeState⟩

/-- Every action keeps both alike, error or not. -/
theorem stateInvariant_mirrors (ht : env.grammar.Typed ofRule)
    (known : env.grammar.ruleId? "referenceBody" = some reference) :
    StateInvariant ofRule effects env fun c => c.Mirrors env.grammar reference ∧ c.Aimed env.grammar :=
  .of_actions (fun _ _ _ _ _ h => ⟨h.1.of_attributeState rfl, h.2.of_attributeState rfl⟩)
    fun matchRule _ _ _ _ prepared action h => (prepared.grows ht known action matchRule).mirrors h

end

namespace Language

open Matcher

/-- In every state that is passed while a plan is read, the alternatives that have been added to the
rules for the attributes of tasks and of resources are those of the attributes that have been added to
their schemas, those for scenarios apart from the others, one for each and in the same order, and no
other rule has been added to. Where adding an attribute that has an id is refused, the schemas and the
grammar are exactly those of before, and so they are where a statement that adds one is refused. -/
theorem mirrors_of_passes {env : Surroundings} (h : grammar = .ok env.grammar) {tokens : TokenSource}
    {journal : Log.Journal} {id : RuleId} (known : env.grammar.ruleId? "project" = some id) {x : Context}
    (passes : Passes env ampleFuel (.symbols [.rule id]) (Context.initial tokens journal) x) :
    ∃ reference, env.grammar.ruleId? "referenceBody" = some reference ∧
      x.Mirrors env.grammar reference ∧
      (∀ e stop d, e.id ≠ "" → applyExtension e env x = (.error stop, d) →
        d.project = x.project ∧ d.extensions = x.extensions) ∧
      ∀ n p v kind stop d, p.action = some (.extend (.declare kind)) →
        Visits env ampleFuel (.symbols [.rule id]) (Context.initial tokens journal) n (.action p v) x →
        performed (matchRule n) p v.location v.items env x = (.error stop, d) →
        d.project = x.project ∧ d.extensions = x.extensions := by
  have typed := (exists_charted h).1.typed
  obtain ⟨reference, reads⟩ := typed.extensible.reference
  have start : (Context.initial tokens journal).Mirrors env.grammar reference ∧
      (Context.initial tokens journal).Aimed env.grammar :=
    ⟨Context.mirrors_of_nil (fun _ => rfl) fun _ => rfl, fun _ hx => by cases hx⟩
  refine ⟨reference, reads,
    (holds_of_passes h known (stateInvariant_mirrors typed reads) start passes).1, ?_, ?_⟩
  · intro e stop d full run
    obtain ⟨_, rfl⟩ := eq_of_applyExtension_error reads full run
    exact ⟨rfl, rfl⟩
  · intro n p v kind stop d action visit run
    have prepared := prepared_of_visits h known visit
    obtain ⟨journal', perform⟩ := exists_run_performed (matchRule n) action v.location v.items env x
    rw [perform] at run
    have left : Leaves (fun _ _ => True) (fun d => d.project = x.project ∧ d.extensions = x.extensions)
        ((Action.extend (.declare kind)).perform (matchRule n) v) env { x with journal := journal' } :=
      (prepared.of_journal journal').leaves_declare typed reads action (fun _ => ⟨rfl, rfl⟩)
        (fun _ _ _ _ _ _ _ _ _ _ => trivial) (matchRule n)
    rw [Leaves, run] at left
    exact left

/-- The plan that adds two attributes has added them to the schema of tasks. -/
theorem added_annotatedPlan :
    satisfies (fun t =>
      (plan ⟨t, .empty, .default⟩
        (.initial (.ofStream annotatedPlan "main.tjp" none) .silent)).1.toOption.any fun p =>
          p.tasks.definitions.filter (·.userDefined) ==
            [⟨"Note", "A note", .text, true, false, true⟩,
              ⟨"Due", "Due date", .date, false, true, true⟩]) = true := by
  decide +kernel

/-- At its end is a state in which both have been added. -/
theorem exists_passes_annotatedPlan :
    ∃ table id x, grammar = .ok table ∧ table.ruleId? "project" = some id ∧
      Passes ⟨table, .empty, .default⟩ ampleFuel (.symbols [.rule id])
        (.initial (.ofStream annotatedPlan "main.tjp" none) .silent) x ∧
      x.added .task = [⟨"Note", "A note", .text, true, false, true⟩,
        ⟨"Due", "Due date", .date, false, true, true⟩] := by
  obtain ⟨table, p, c, made, run, added⟩ := exists_run_of_check added_annotatedPlan
  obtain ⟨-, id, known, -⟩ := exists_charted made
  obtain ⟨x, visit, there, -⟩ := @visits_of_plan ⟨table, .empty, .default⟩ _ _ id known p c run
  refine ⟨table, id, x, made, known, .taken visit, ?_⟩
  rw [Context.added, Context.schema, there]
  exact beq_iff_eq.mp added

/-- So there each of the two rules for the attributes of tasks takes one of them. -/
theorem mirrors_of_passes_annotatedPlan :
    ∃ table id x plain scenarios, grammar = .ok table ∧ table.ruleId? "project" = some id ∧
      Passes ⟨table, .empty, .default⟩ ampleFuel (.symbols [.rule id])
        (.initial (.ofStream annotatedPlan "main.tjp" none) .silent) x ∧
      table.ruleId? "taskAttributes" = some plain ∧
      table.ruleId? "taskScenarioAttributes" = some scenarios ∧
      (LiveGrammar.mk table x.extensions).addedTo plain =
        [⟨[.literal "note", .tokenClass .string], some (.extend (.store "Note" .text false))⟩] ∧
      (LiveGrammar.mk table x.extensions).addedTo scenarios =
        [⟨[.literal "due", .tokenClass .date], some (.extend (.store "Due" .date true))⟩] := by
  obtain ⟨table, id, x, made, known, passes, added⟩ := exists_passes_annotatedPlan
  have mirrored := @mirrors_of_passes ⟨table, .empty, .default⟩ made _ _ id known x passes
  obtain ⟨reference, -, mirrors, -, -⟩ := mirrored
  have names := (exists_charted made).1.typed.extensible.targets
  obtain ⟨plain, knownPlain⟩ := names "taskAttributes" (by decide)
  obtain ⟨scenarios, knownScenarios⟩ := names "taskScenarioAttributes" (by decide)
  refine ⟨table, id, x, plain, scenarios, made, known, passes, knownPlain, knownScenarios, ?_, ?_⟩
  · rw [mirrors.hosts .task false plain knownPlain, added]
    rfl
  · rw [mirrors.hosts .task true scenarios knownScenarios, added]
    rfl

end Language

end Planfile
