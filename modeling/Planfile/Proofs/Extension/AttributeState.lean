import Planfile.Proofs.Course.Tree
import Planfile.Proofs.Matching.EntryState

/-!
# Planfile — the part of a state that makes the language grow

A plan can add attributes to tasks and to resources. Each of them is written down twice, in the schema
and in the grammar, and only few statements come near to either. Here it is said which ones, and what
the one that adds an attribute does, error or not.

Main results:

* `Action.spares_attributeState` — no other action changes a schema, the grammar or what is extended.
* `Matcher.leaves_applyExtension` — an attribute is added to both, or to none of them.
* `Prepared.grows` — how the language can grow where an action is performed.
-/

namespace Planfile

open Plan (PropertyKind AttributeDefinition AttributeKind)

/-! ## Rules that take attributes -/

/-- The rule that takes the attributes of tasks or of resources: one takes those that have one value, and
another one those that have a value for each scenario. -/
def hostName : PropertyKind → Bool → String
  | .task, false => "taskAttributes"
  | .task, true => "taskScenarioAttributes"
  | .resource, false => "resourceAttributes"
  | .resource, true => "resourceScenarioAttributes"

/-- Each of them takes one kind of attributes. -/
theorem eq_of_hostName {t : GrammarTable} {kind kind' : PropertyKind} {specific specific' : Bool}
    {rule : RuleId} (h : t.ruleId? (hostName kind specific) = some rule)
    (h' : t.ruleId? (hostName kind' specific') = some rule) : kind = kind' ∧ specific = specific' := by
  have same : hostName kind specific = hostName kind' specific' :=
    (GrammarTable.name_of_ruleId? h).symm.trans (GrammarTable.name_of_ruleId? h')
  revert same
  cases kind <;> cases specific <;> cases kind' <;> cases specific' <;> decide

/-! ## Attributes that have been added -/

namespace AttributeExtension

/-- How an added attribute is read, where `reference` is the rule for the body of a reference: its
keyword, then its value, which is stored. -/
def pattern (e : AttributeExtension) (reference : RuleId) : Pattern :=
  ⟨.literal e.keyword :: e.tailSymbols reference, some e.action⟩

end AttributeExtension

/-- The attribute that an entry of a schema is for. -/
def Plan.AttributeDefinition.extension (d : AttributeDefinition) : AttributeExtension :=
  ⟨d.id, d.name, d.kind, d.inherit, d.scenarioSpecific⟩

/-- The schema of tasks or of resources; as long as there is no project it has no entries. -/
def Context.schema (c : Context) (kind : PropertyKind) : List AttributeDefinition :=
  (c.project.map fun p => (p.properties kind).definitions).getD []

/-- The attributes that a plan has added to tasks or to resources, in order. -/
def Context.added (c : Context) (kind : PropertyKind) : List AttributeDefinition :=
  (c.schema kind).filter (·.userDefined)

/-! ## What makes the language grow -/

/-- The schemas, what has been added to the grammar, and what is extended. -/
structure AttributeState where
  schema : PropertyKind → List AttributeDefinition
  extensions : List (RuleId × Pattern)
  target : Option ExtendTarget

/-- The part of a state that makes the language grow. -/
def Context.attributeState (c : Context) : AttributeState := ⟨c.schema, c.extensions, c.extendTarget⟩

/-- What is written down tells how the language has grown. -/
theorem Context.attributeState_of_entryState {c d : Context} (h : d.entryState = c.entryState) :
    d.attributeState = c.attributeState := by
  have schema (c : Context) (kind : PropertyKind) : c.schema kind =
      (c.entryState.entryTables.map fun b => (b.entryTable kind).definitions).getD [] := by
    cases there : c.project <;> cases kind <;> simp [Context.schema, Context.entryState, there] <;> rfl
  have same : d.schema = c.schema := funext fun kind => by rw [schema, schema, h]
  rw [attributeState, attributeState, same]
  exact congrArg₂ (AttributeState.mk c.schema) (congrArg EntryState.extensions h)
    (congrArg EntryState.target h)

/-- The schemas of a state in which a set of tasks or resources has been replaced. -/
theorem Context.schema_setProperties {c : Context} {p : Plan.Project} (there : c.project = some p)
    (kind other : PropertyKind) (s : Plan.PropertySet) :
    ({ c with project := some (p.setProperties kind s) } : Context).schema other =
      if kind = other then s.definitions else c.schema other := by
  simp only [schema, there, Option.map_some, Option.getD_some, Plan.Project.properties_setProperties]
  split <;> rfl

/-- Where a set gives way to one with the same schema, all schemas are as before. -/
theorem Context.schema_setProperties_of_eq {c : Context} {p : Plan.Project}
    (there : c.project = some p) {kind : PropertyKind} {s : Plan.PropertySet}
    (h : s.definitions = (p.properties kind).definitions) :
    ({ c with project := some (p.setProperties kind s) } : Context).schema = c.schema := by
  funext other
  rw [schema_setProperties there]
  split
  · next same =>
    subst same
    simp [schema, there, h]
  · rfl

/-- Whether an action can make the language grow: it starts the project with its schemas, says what is
extended or adds an attribute to it. Matching a rule may do so. -/
def Action.extendsLanguage : Action → Bool
  | .project .header | .extend .target | .extend .close | .extend (.declare _) | .rule _ => true
  | _ => false

namespace Matcher

theorem spares_openProperty (kind : PropertyKind) (id name : String) :
    Spares Context.attributeState (openProperty kind id name) := by
  intro env c
  simp only [openProperty, leaves_bind, leaves_get, leaves_project]
  refine ⟨fun _ => trivial, fun p there => ?_⟩
  cases added : (p.properties kind).add? id name (openProperty? c kind) with
  | error e => trivial
  | ok grown =>
    -- a new task or resource is no entry of the schema
    have same : (grown.inheritAttributes (p.properties kind).length).definitions =
        (p.properties kind).definitions := by
      rw [Plan.PropertySet.definitions_inheritAttributes, Plan.PropertySet.eq_append_of_add? added,
        Plan.PropertySet.definitions_append]
    exact congrArg (AttributeState.mk · c.extensions c.extendTarget)
      (Context.schema_setProperties_of_eq there same)

theorem spares_openReport (word name : String) : Spares Context.attributeState (openReport word name) := by
  refine (spares_orFail _ _).bind fun kind => ?_
  intro env c
  rw [leaves_bind, leaves_project]
  refine ⟨fun _ => rfl, fun p there => ?_⟩
  refine congrArg (AttributeState.mk · c.extensions c.extendTarget) (funext fun kind => ?_)
  simp only [Context.schema, there]
  cases kind <;> rfl

end Matcher

open Matcher

/-- Whatever becomes of an action that does not make the language grow, error or not, the schemas, the
grammar and what is extended are as before. -/
theorem Action.spares_attributeState {a : Action} (h : a.extendsLanguage = false)
    (matchRule : RuleId → Matcher (Option Value)) (v : Values) :
    Spares Context.attributeState (a.perform matchRule v) := by
  cases entry : a.makesEntry with
  | false =>
    exact (a.spares_entryState v entry matchRule).of_view fun _ _ => Context.attributeState_of_entryState
  | true =>
    -- what makes entries, but not in a schema, are headers and the ends of bodies
    unfold makesEntry at entry
    split at entry
    · cases h
    · next kind =>
      refine (spares_take _ _).bind fun id => (spares_take _ _).bind fun name => ?_
      exact (spares_openProperty kind id name).bind fun _ =>
        (spares_modify fun _ => by rfl).bind fun _ => spares_pure _
    · exact (spares_modify fun _ => by rfl).bind fun _ => spares_pure _
    · refine (spares_take _ _).bind fun word => (spares_take _ _).bind fun name => ?_
      exact (spares_openReport word name).bind fun _ => spares_pure _
    · cases h
    · cases h
    · cases h
    · cases h
    · cases entry

/-! ## Adding an attribute -/

/-- The state in which an attribute has been added to what is extended. -/
def Context.extended (c : Context) (reference : RuleId) (target : ExtendTarget)
    (p : Plan.Project) (set : Plan.PropertySet) (e : AttributeExtension) : Context :=
  { c with
    project := some (p.setProperties target.kind set)
    extensions := c.extensions ++
      [(if e.scenarioSpecific then target.scenarioRule else target.rule, e.pattern reference)] }

namespace Matcher

variable {env : Surroundings} {reference : RuleId} {c : Context}

/-- An attribute that has an id is added to the schema and to the grammar if its keyword is not taken
and its id is new. Otherwise neither is changed. -/
theorem leaves_applyExtension {ask : Unit → Context → Prop} {halt : Context → Prop}
    (known : env.grammar.ruleId? "referenceBody" = some reference) {e : AttributeExtension}
    (full : e.id ≠ "") (hh : ∀ journal, halt { c with journal })
    (ha : ∀ target p set journal, c.extendTarget = some target → c.project = some p →
      LiveGrammar.ruleAccepts ⟨env.grammar, c.extensions⟩ target.rule (.id e.keyword) = .ok false →
      (p.properties target.kind).define? e.definition = .ok set →
      ask () { c.extended reference target p set e with journal }) :
    Leaves ask halt (applyExtension e) env c := by
  have same : halt c := hh c.journal
  simp only [applyExtension, leaves_bind, leaves_get, leaves_orFail, leaves_live, leaves_sound]
  refine ⟨fun _ => same, fun target there => ⟨fun _ _ => same, fun taken answer => ?_⟩⟩
  cases taken with
  | true => simp [hh]
  | false =>
    simp only [Bool.false_eq_true, if_false, defineAttribute, leaves_bind, leaves_project, leaves_read]
    refine ⟨fun _ => same, fun p started => ?_⟩
    cases defined : (p.properties target.kind).define? e.definition with
    | error error => simp [same]
    | ok set =>
      have added (journal : Log.Journal) := ha target p set journal there started answer defined
      -- the symbols resolve, so nothing goes wrong between the schema and the grammar
      simp only [e.mapM_symbols full known, leaves_modify, sound, leaves_pure]
      rw [leaves_ite]
      split
      · rw [leaves_bind, leaves_read, leaves_report]
        exact added _
      · exact added c.journal

/-- Where an attribute has not been added, nothing has changed but the journal. -/
theorem eq_of_applyExtension_error (known : env.grammar.ruleId? "referenceBody" = some reference)
    {e : AttributeExtension} (full : e.id ≠ "") {stop : Stop} {d : Context}
    (run : applyExtension e env c = (.error stop, d)) : ∃ journal, d = { c with journal } := by
  have left : Leaves (fun _ _ => True) (fun d => ∃ journal, d = { c with journal })
      (applyExtension e) env c :=
    leaves_applyExtension known full (fun journal => ⟨journal, rfl⟩) fun _ _ _ _ _ _ _ _ => trivial
  rw [Leaves, run] at left
  exact left

/-- A statement that extends something says for which kind of attributes which rule is. -/
theorem leaves_chooseTarget {ask : Unit → Context → Prop} {halt : Context → Prop} {word : String}
    (hh : halt c) (ha : ∀ kind rule scenarioRule,
      env.grammar.ruleId? (hostName kind false) = some rule →
      env.grammar.ruleId? (hostName kind true) = some scenarioRule →
      ask () { c with extendTarget := some ⟨kind, rule, scenarioRule⟩ }) :
    Leaves ask halt (chooseTarget word) env c := by
  simp only [chooseTarget, leaves_bind, leaves_ite, leaves_pure, leaves_ruleId, leaves_modify,
    leaves_fail]
  split
  · exact ⟨fun _ => hh, fun rule plain => ⟨fun _ => hh, fun scenarioRule scenarios =>
      ha .task rule scenarioRule plain scenarios⟩⟩
  · split
    · exact ⟨fun _ => hh, fun rule plain => ⟨fun _ => hh, fun scenarioRule scenarios =>
        ha .resource rule scenarioRule plain scenarios⟩⟩
    · exact hh

end Matcher

section
variable {ofRule : RuleId → Shape} {effects : Effects} {env : Surroundings} {p : Pattern} {v : Values}
  {c : Context} {kind : AttributeKind}

/-- Where an attribute is added it has an id. -/
theorem Prepared.exists_name (ht : env.grammar.Typed ofRule)
    (prepared : Prepared env.grammar ofRule effects p v c)
    (action : p.action = some (.extend (.declare kind))) : ∃ id, v.string 1 = .ok id ∧ id ≠ "" := by
  obtain ⟨rule, offered⟩ := prepared.offered
  obtain ⟨s, gives, -⟩ := offered.typed ht
  rw [Pattern.gives?, action] at gives
  obtain ⟨met, -⟩ := eq_of_guard gives
  exact prepared.suits.name (Demands.offers_of_met met List.mem_cons_self)

/-- Whether what an attribute is declared as is said by the values of a statement. -/
structure AttributeExtension.IsDeclared (e : AttributeExtension) (v : Values) (kind : AttributeKind) : Prop where
  id : v.string 1 = .ok e.id
  name : v.string 2 = .ok e.name
  kind : e.kind = kind
  inherit : e.inherit = (strings (v.list 3)).contains "inherit"
  scenarioSpecific : e.scenarioSpecific = (strings (v.list 3)).contains "scenariospecific"

/-- A statement that adds an attribute adds it to both the schema and the grammar, or to none of
them. -/
theorem Prepared.leaves_declare {reference : RuleId} {ask : Option Value → Context → Prop}
    {halt : Context → Prop} (ht : env.grammar.Typed ofRule)
    (known : env.grammar.ruleId? "referenceBody" = some reference)
    (prepared : Prepared env.grammar ofRule effects p v c)
    (action : p.action = some (.extend (.declare kind))) (hh : ∀ journal, halt { c with journal })
    (ha : ∀ target q set e journal, e.IsDeclared v kind → c.extendTarget = some target →
      c.project = some q →
      LiveGrammar.ruleAccepts ⟨env.grammar, c.extensions⟩ target.rule (.id e.keyword) = .ok false →
      (q.properties target.kind).define? e.definition = .ok set →
      ask none { c.extended reference target q set e with journal })
    (matchRule : RuleId → Matcher (Option Value)) :
    Leaves ask halt ((Action.extend (.declare kind)).perform matchRule v) env c := by
  obtain ⟨id, named, full⟩ := prepared.exists_name ht action
  have same : halt c := hh c.journal
  simp only [Action.perform, ExtendAction.perform, declareAttribute, leaves_bind, leaves_take,
    leaves_pure]
  refine ⟨fun _ _ => same, fun other taken => ⟨fun _ _ => same, fun name title => ?_⟩⟩
  obtain rfl : other = id := Except.ok.inj (taken.symm.trans named)
  exact leaves_applyExtension known full hh fun target q set journal there started answer defined =>
    ha target q set _ journal ⟨taken, title, rfl, rfl, rfl⟩ there started answer defined

end

/-! ## Steps -/

/-- How an action can change what makes the language grow, error or not. -/
inductive Context.Grows (t : GrammarTable) (reference : RuleId) (c d : Context) : Prop
  | same (attributeState : d.attributeState = c.attributeState)
  | started (none : c.project = none) {id name version : String} {time : Calendar.Interval}
    (there : d.project = some (.initial id name version time)) (extensions : d.extensions = c.extensions)
    (target : d.extendTarget = c.extendTarget)
  | aimed (schema : d.schema = c.schema) (extensions : d.extensions = c.extensions)
    (target : ∀ x, d.extendTarget = some x → t.ruleId? (hostName x.kind false) = some x.rule ∧
      t.ruleId? (hostName x.kind true) = some x.scenarioRule)
  | extended {target : ExtendTarget} {q : Plan.Project} {set : Plan.PropertySet}
    {e : AttributeExtension} (there : c.extendTarget = some target) (started : c.project = some q)
    (free : LiveGrammar.ruleAccepts ⟨t, c.extensions⟩ target.rule (.id e.keyword) = .ok false)
    (defined : (q.properties target.kind).define? e.definition = .ok set)
    (attributeState : d.attributeState = (c.extended reference target q set e).attributeState)

/-- Whatever becomes of an action where it can be performed, this is all that it changes in what makes
the language grow. -/
theorem Prepared.grows {ofRule : RuleId → Shape} {effects : Effects} {env : Surroundings}
    {reference : RuleId} (ht : env.grammar.Typed ofRule)
    (known : env.grammar.ruleId? "referenceBody" = some reference) {p : Pattern} {v : Values}
    {a : Action} {c : Context} (prepared : Prepared env.grammar ofRule effects p v c)
    (action : p.action = some a) (matchRule : RuleId → Matcher (Option Value)) :
    c.Grows env.grammar reference (a.perform matchRule v env c).2 := by
  cases grows : a.extendsLanguage with
  | false => exact .same ((a.spares_attributeState grows matchRule v).eq env c)
  | true =>
    suffices left : Leaves (fun _ => c.Grows env.grammar reference) (c.Grows env.grammar reference)
        (a.perform matchRule v) env c from left.holds
    have same : c.Grows env.grammar reference c := .same rfl
    unfold Action.extendsLanguage at grows
    split at grows
    · -- a header starts the schemas anew, before anything has been added to them
      have unstarted := (prepared.allows _ action).unstarted
      simp only [Action.perform, ProjectAction.perform, leaves_bind, leaves_take, leaves_modify,
        leaves_pure]
      exact ⟨fun _ _ => same, fun id _ => ⟨fun _ _ => same, fun name _ => ⟨fun _ _ => same,
        fun version _ => ⟨fun _ _ => same, fun time _ => .started unstarted rfl rfl rfl⟩⟩⟩⟩
    · simp only [Action.perform, ExtendAction.perform, leaves_bind, leaves_take, leaves_pure]
      refine ⟨fun _ _ => same, fun word _ => leaves_chooseTarget same ?_⟩
      intro kind rule scenarioRule plain scenarios
      -- choosing a target changes what is added to, and nothing yet
      refine .aimed rfl rfl fun x hx => ?_
      cases hx
      exact ⟨plain, scenarios⟩
    · exact .aimed rfl rfl fun x hx => by cases hx
    · exact prepared.leaves_declare ht known action (fun _ => .same rfl)
        (fun _ _ _ _ _ _ there started free defined => .extended there started free defined rfl) matchRule
    · exact (prepared.allows _ action).not_rule.elim
    · cases grows

end Planfile
