import Planfile.Proofs.Course.Invariant
import Planfile.Proofs.Course.Progress
import Planfile.Proofs.Extension.Descent
import Planfile.Proofs.Extension.Mirror
import Planfile.Proofs.Extension.Usage

/-!
# Planfile — what a plan has declared can be used

An attribute that a plan has declared is added to the schema and to the grammar. In every body of a task or a
resource that reading comes to from there on, its keyword chooses its alternative, since it is new, and this
alternative stores the value: the registers of the state say of which task or resource the body is.

The limit on how deep rules nest also holds for attributes, the value of one for scenarios may take three levels.
So in the innermost one of many tasks a value can be refused that is accepted in the others.

Main results:

* `Language.exists_declared_of_visits` — wherever reading comes, it comes by such steps.
* `Language.added_of_declared` — the schemas have gained what has been declared on the way.
* `Language.mem_declared_iff` — in a plan they have gained nothing else.
* `Language.chooses_alternative` — the alternative of an attribute that has been added is chosen.
* `Language.stores_of_visits` — an attribute that has been declared is matched, and stored where it belongs.
* `Language.link_tooDeep_linkingPlan` — a plan with so many tasks that a value is refused.
-/

/-!
## What a plan has added is what it has declared

Reading comes from one state to another by steps: a token is read, or an action is performed, and in between
only the journal and the like change. `Declared` follows the steps and notes the attributes whose declarations
have been accepted on the way. These are the ones that the schemas have gained.
-/

namespace Planfile

open Matcher
open Plan (PropertyKind AttributeDefinition AttributeKind)

/-- What an attribute is declared as, the values of the statement tell. -/
theorem AttributeExtension.IsDeclared.unique {e e' : AttributeExtension} {v : Values} {kind : AttributeKind}
    (h : e.IsDeclared v kind) (h' : e'.IsDeclared v kind) : e = e' := by
  obtain ⟨id, name, own, inherit, scenarios⟩ := e
  obtain ⟨id', name', own', inherit', scenarios'⟩ := e'
  obtain ⟨ids, names, kinds, inherits, specific⟩ := h
  obtain ⟨ids', names', kinds', inherits', specific'⟩ := h'
  dsimp only at *
  rw [Except.ok.inj (ids.symm.trans ids'), Except.ok.inj (names.symm.trans names'), kinds, kinds', inherits,
    inherits', specific, specific']

/-- Whether reading comes from one state to another by steps, and which attributes have been declared on the
way by statements that have been accepted, each with what it has been added to. -/
inductive Language.Declared (env : Surroundings) (c : Context) :
    List (PropertyKind × AttributeDefinition) → Context → Prop
  | start : Declared env c [] c
  | noise {ds : List (PropertyKind × AttributeDefinition)} {d : Context} (h : Declared env c ds d)
    (journal : Log.Journal) (depth : Nat) (stop : Option StopMark) :
    Declared env c ds { d with journal, depth, stop }
  | next {ds : List (PropertyKind × AttributeDefinition)} {d : Context} (h : Declared env c ds d) :
    Declared env c ds (d.next env)
  /-- An action that declares nothing is performed, error or not. -/
  | other {ds : List (PropertyKind × AttributeDefinition)} {d : Context} {p : Pattern} {v : Values} {a : Action}
    (h : Declared env c ds d)
    (prepared : Prepared env.grammar (shapeIn env.grammar) (effectsIn env.grammar) p v d)
    (action : p.action = some a) (no : ∀ kind, a ≠ .extend (.declare kind))
    (matchRule : RuleId → Matcher (Option Value)) :
    Declared env c ds (performed matchRule p v.location v.items env d).2
  | refused {ds : List (PropertyKind × AttributeDefinition)} {d e : Context} {p : Pattern} {v : Values}
    {kind : AttributeKind} {stop : Stop} (h : Declared env c ds d)
    (prepared : Prepared env.grammar (shapeIn env.grammar) (effectsIn env.grammar) p v d)
    (action : p.action = some (.extend (.declare kind))) {matchRule : RuleId → Matcher (Option Value)}
    (run : performed matchRule p v.location v.items env d = (.error stop, e)) : Declared env c ds e
  | accepted {ds : List (PropertyKind × AttributeDefinition)} {d e : Context} {p : Pattern} {v : Values}
    {kind : AttributeKind} {value : Option Value} {target : ExtendTarget} {x : AttributeExtension}
    (h : Declared env c ds d)
    (prepared : Prepared env.grammar (shapeIn env.grammar) (effectsIn env.grammar) p v d)
    (action : p.action = some (.extend (.declare kind))) {matchRule : RuleId → Matcher (Option Value)}
    (run : performed matchRule p v.location v.items env d = (.ok value, e))
    (there : d.extendTarget = some target) (what : x.IsDeclared v kind) :
    Declared env c (ds ++ [(target.kind, x.definition)]) e

/-! ## Single actions -/

section
variable {ofRule : RuleId → Shape} {effects : Effects} {env : Surroundings} {p : Pattern} {v : Values}
  {c d : Context} {matchRule : RuleId → Matcher (Option Value)}

/-- An action that declares nothing leaves what has been added, error or not. -/
theorem Prepared.added_of_ne {a : Action} (prepared : Prepared env.grammar ofRule effects p v c)
    (action : p.action = some a) (no : ∀ kind, a ≠ .extend (.declare kind)) (kind : PropertyKind) :
    (a.perform matchRule v env c).2.added kind = c.added kind := by
  cases grows : a.extendsLanguage with
  | false =>
    have attributeState := (a.spares_attributeState grows matchRule v).eq env c
    have schema : (a.perform matchRule v env c).2.schema = c.schema :=
      congrArg AttributeState.schema attributeState
    rw [Context.added, Context.added, schema]
  | true =>
    suffices left : Leaves (fun _ d => d.added kind = c.added kind) (fun d => d.added kind = c.added kind)
        (a.perform matchRule v) env c from left.holds
    unfold Action.extendsLanguage at grows
    split at grows
    · -- before the project starts, nothing has been added
      have unstarted := (prepared.allows _ action).unstarted
      have nothing : c.added kind = [] := by
        rw [Context.added, Context.schema, unstarted]
        rfl
      simp only [Action.perform, ProjectAction.perform, leaves_bind, leaves_take, leaves_modify, leaves_pure]
      refine ⟨fun _ _ => trivial, fun id _ => ⟨fun _ _ => trivial, fun name _ => ⟨fun _ _ => trivial,
        fun version _ => ⟨fun _ _ => trivial, fun time _ => ?_⟩⟩⟩⟩
      rw [nothing]
      exact Context.added_of_initial rfl kind
    · simp only [Action.perform, ExtendAction.perform, leaves_bind, leaves_take, leaves_pure]
      exact ⟨fun _ _ => trivial, fun word _ => leaves_chooseTarget rfl fun _ _ _ _ _ => rfl⟩
    · rfl
    · exact absurd rfl (no _)
    · exact (prepared.allows _ action).not_rule.elim
    · cases grows

variable {reference : RuleId} (ht : env.grammar.Typed ofRule)
  (known : env.grammar.ruleId? "referenceBody" = some reference)
  (prepared : Prepared env.grammar ofRule effects p v c) {kind : AttributeKind}
  (action : p.action = some (.extend (.declare kind)))

include ht known prepared action

/-- A declaration that is refused leaves what has been added. -/
theorem Prepared.added_of_refused {stop : Stop}
    (run : performed matchRule p v.location v.items env c = (.error stop, d)) (other : PropertyKind) :
    d.added other = c.added other := by
  obtain ⟨journal, perform⟩ := exists_run_performed matchRule action v.location v.items env c
  rw [perform] at run
  have left : Leaves (fun _ _ => True) (fun d => d.added other = c.added other)
      ((Action.extend (.declare kind)).perform matchRule v) env { c with journal } :=
    (prepared.of_journal journal).leaves_declare ht known action (fun _ => rfl)
      (fun _ _ _ _ _ _ _ _ _ _ => trivial) matchRule
  rw [Leaves, run] at left
  exact left

/-- A declaration that is accepted adds the attribute to what is extended, and to nothing else. -/
theorem Prepared.added_of_accepted {value : Option Value}
    (run : performed matchRule p v.location v.items env c = (.ok value, d)) :
    ∃ target, ∃ e : AttributeExtension, c.extendTarget = some target ∧ e.IsDeclared v kind ∧
      ∀ other, d.added other = c.added other ++ if target.kind = other then [e.definition] else [] := by
  obtain ⟨journal, perform⟩ := exists_run_performed matchRule action v.location v.items env c
  rw [perform] at run
  have left : Leaves (fun _ d => ∃ target, ∃ e : AttributeExtension, c.extendTarget = some target ∧
        e.IsDeclared v kind ∧
        ∀ other, d.added other = c.added other ++ if target.kind = other then [e.definition] else [])
      (fun _ => True) ((Action.extend (.declare kind)).perform matchRule v) env { c with journal } :=
    (prepared.of_journal journal).leaves_declare ht known action (fun _ => trivial)
      (fun target q set e journal declared there started _ defined =>
        ⟨target, e, there, declared, @Context.added_extended reference c target q set e started defined⟩)
      matchRule
  rw [Leaves, run] at left
  exact left

end

/-! ## All steps -/

namespace Language

section
variable {env : Surroundings} (h : grammar = .ok env.grammar) {c x : Context}

include h

/-- The schemas have gained what has been declared on the way, in order. -/
theorem added_of_declared {ds : List (PropertyKind × AttributeDefinition)} (declared : Declared env c ds x)
    (kind : PropertyKind) :
    x.added kind = c.added kind ++ (ds.filter (·.1 = kind)).map (·.2) := by
  have typed := (exists_charted h).1.typed
  obtain ⟨reference, reads⟩ := typed.extensible.reference
  -- by induction on the steps, of which only accepted declarations add something
  induction declared with
  | start => simp
  | noise _ _ _ _ ih => exact ih
  | next _ ih => exact ih
  | @other ds d p v a _ prepared action no matchRule ih =>
    obtain ⟨journal, perform⟩ := exists_run_performed matchRule action v.location v.items env d
    rw [perform, ← ih]
    exact (prepared.of_journal journal).added_of_ne action no kind
  | refused _ prepared action run ih => rw [prepared.added_of_refused typed reads action run, ih]
  | @accepted ds d e p v _ value target own _ prepared action matchRule run there what ih =>
    obtain ⟨target', e, there', declared, added⟩ := prepared.added_of_accepted typed reads action run
    -- the step and the action are about one target and one attribute
    obtain rfl : target' = target := Option.some.inj (there'.symm.trans there)
    obtain rfl := declared.unique what
    rw [added, ih, List.filter_append, List.map_append, List.append_assoc]
    by_cases same : target'.kind = kind <;> simp [same]

/-- Of a plan they have gained nothing else. -/
theorem mem_declared_iff {tokens : TokenSource} {journal : Log.Journal}
    {ds : List (PropertyKind × AttributeDefinition)} (declared : Declared env (.initial tokens journal) ds x)
    (kind : PropertyKind) (d : AttributeDefinition) : (kind, d) ∈ ds ↔ d ∈ x.added kind := by
  rw [added_of_declared h declared kind, show (Context.initial tokens journal).added kind = [] from rfl,
    List.nil_append, List.mem_map]
  constructor
  · exact fun mem => ⟨_, List.mem_filter.mpr ⟨mem, decide_eq_true rfl⟩, rfl⟩
  · rintro ⟨⟨other, _⟩, mem, rfl⟩
    obtain ⟨listed, same⟩ := List.mem_filter.mp mem
    obtain rfl : other = kind := of_decide_eq_true same
    exact listed

/-- Steps are kept account of by reading a token and by every action. -/
theorem stateInvariant_declared (c : Context) :
    StateInvariant (shapeIn env.grammar) (effectsIn env.grammar) env fun x => ∃ ds, Declared env c ds x where
  noise x journal depth stop := fun ⟨ds, declared⟩ => ⟨ds, declared.noise journal depth stop⟩
  next x _ := fun ⟨ds, declared⟩ => ⟨ds, declared.next⟩
  performed matchRule p v x prepared := by
    rintro ⟨ds, declared⟩
    cases action : p.action with
    | none =>
      rw [performed, action]
      exact ⟨ds, declared⟩
    | some a =>
      by_cases declares : ∃ kind, a = .extend (.declare kind)
      · obtain ⟨kind, rfl⟩ := declares
        cases run : performed matchRule p v.location v.items env x with
        | mk outcome y =>
          cases outcome with
          | error stop => exact ⟨ds, declared.refused prepared action run⟩
          | ok value =>
            have typed := (exists_charted h).1.typed
            obtain ⟨reference, reads⟩ := typed.extensible.reference
            -- what has been declared can be told from the values of the statement
            obtain ⟨target, e, there, what, -⟩ := prepared.added_of_accepted typed reads action run
            exact ⟨_, declared.accepted prepared action run there what⟩
      · exact ⟨ds, declared.other prepared action (fun kind same => declares ⟨kind, same⟩) matchRule⟩

/-- Wherever reading comes from one point to another, it comes by steps. -/
theorem exists_declared_of_visits {tokens : TokenSource} {journal : Log.Journal} {id : RuleId}
    (known : env.grammar.ruleId? "project" = some id) {n m : Nat} {s s' : Stage}
    (visit : Visits env ampleFuel (.symbols [.rule id]) (.initial tokens journal) n s c)
    (rest : Visits env n s c m s' x) : ∃ ds, Declared env c ds x := by
  obtain ⟨grounded, stands⟩ :=
    visit.stands (exists_charted h).1 (grounded_initial _ _ tokens journal) (stands_initial h known)
  exact (stateInvariant_declared h c).of_visits (exists_charted h).1 grounded stands rest ⟨[], .start⟩

end

end Language

end Planfile

namespace Planfile

open Matcher
open Plan (PropertyKind AttributeDefinition AttributeKind AttributeValue)

namespace Plan.Project

/-- Whether one project differs from another one in one value of one task or resource, and this has been set. -/
structure Sets (p r : Project) (kind : PropertyKind) (i : Nat) (scenario : Option Nat) (id : String)
    (value : AttributeValue) : Prop where
  /-- But for tasks, or for resources, all is as it was, and so are the schemas. -/
  rest : r = p.setProperties kind { p.properties kind with properties := (r.properties kind).properties }
  others : ∀ j, j ≠ i → (r.properties kind).get? j = (p.properties kind).get? j
  entry : ∀ q, (p.properties kind).get? i = some q → ∃ q', (r.properties kind).get? i = some q' ∧
    q'.stored? scenario id = some value ∧
    (∀ other name, ¬(other = scenario ∧ name = id) → q'.stored? other name = q.stored? other name) ∧
    q'.id = q.id ∧ q'.name = q.name ∧ q'.parent = q.parent ∧ q'.children = q.children

theorem properties_setProperties_self (p : Project) (kind : PropertyKind) (s : PropertySet) :
    (p.setProperties kind s).properties kind = s := by
  rw [properties_setProperties, if_pos rfl]

/-- Storing a value sets it. -/
theorem sets_store (p : Project) (kind : PropertyKind) (i : Nat) (scenario : Option Nat) (id : String)
    (value : AttributeValue) :
    p.Sets (p.setProperties kind ((p.properties kind).modify i (·.store scenario id value))) kind i scenario id
      value where
  rest := by
    rw [properties_setProperties_self]
    rfl
  others j other := by
    rw [properties_setProperties_self, PropertySet.get?_modify, if_neg other.symm]
  entry q found := by
    refine ⟨q.store scenario id value, ?_, q.stored?_store_self scenario id value,
      fun other name h => q.stored?_store_ne value h, ?_⟩
    · rw [properties_setProperties_self, PropertySet.get?_modify, if_pos rfl, found]
      rfl
    · cases scenario <;> exact ⟨rfl, rfl, rfl, rfl⟩

end Plan.Project

namespace GrammarTable

/-- Whether the rules by which added attributes are read are found to be those of a grammar. -/
def checkAttributes (t : GrammarTable) (kind : PropertyKind) (r : AttributeRules) : Bool :=
  t.ruleId? (hostName kind false) == some r.plain &&
  t.ruleId? (hostName kind true) == some r.scenarios &&
  (t.rule r.plain).patterns.contains ⟨[.rule r.scenarios], none⟩ &&
  (t.rule r.plain).patterns.contains
    ⟨[.rule r.scenarioId, .rule r.scenarios], some (.property .leaveScenario)⟩ &&
  !(t.rule r.scenarios).repeatable &&
  t.rule r.scenarioId == ⟨"scenarioId", [scenarioIdPattern], false, false⟩ &&
  t.ruleId? "referenceBody" == some r.reference &&
  t.rule r.reference == ⟨"referenceBody", [referencePattern r.labels], true, false⟩ &&
  t.rule r.labels == ⟨"referenceAttributes", [labelPattern], true, true⟩

/-- Where the check passes, a grammar has these rules. -/
theorem hasAttributes_of_check {t : GrammarTable} {kind : PropertyKind} {r : AttributeRules}
    (h : t.checkAttributes kind r = true) : t.HasAttributes kind r := by
  simp only [checkAttributes, Bool.and_eq_true, beq_iff_eq, Bool.not_eq_true', List.contains_iff_mem] at h
  obtain ⟨⟨⟨⟨⟨⟨⟨⟨plain, scenarios⟩, nested⟩, prefixed⟩, single⟩, scenarioId⟩, known⟩, body⟩,
    labels⟩ := h
  exact ⟨plain, scenarios, nested, prefixed, single, scenarioId, known, ⟨body, labels⟩⟩

end GrammarTable

namespace Language

/-- The rules by which the added attributes of a kind are read, by their names. -/
def attributeRulesIn (t : GrammarTable) (kind : PropertyKind) : AttributeRules :=
  let rule (name : String) : RuleId := (t.ruleId? name).getD ⟨0⟩
  ⟨rule (hostName kind false), rule (hostName kind true), rule "scenarioId", rule "referenceBody",
    rule "referenceAttributes"⟩

/-- The language is found to have these rules. -/
theorem check_attributes : satisfies (fun t =>
    [PropertyKind.task, .resource].all fun kind => t.checkAttributes kind (attributeRulesIn t kind)) = true := by
  decide +kernel

/-- The language has these rules. -/
theorem hasAttributes {table : GrammarTable} (h : grammar = .ok table) (kind : PropertyKind) :
    table.HasAttributes kind (attributeRulesIn table kind) := by
  have found := of_satisfies check_attributes h
  rw [List.all_eq_true] at found
  exact GrammarTable.hasAttributes_of_check (found kind (by cases kind <;> decide))

section
variable {env : Surroundings} (h : grammar = .ok env.grammar) {tokens : TokenSource} {journal : Log.Journal}
  {id : RuleId} (known : env.grammar.ruleId? "project" = some id)

include h known

/-! ## Bodies -/

/-- In the body of a task or a resource this one is current, and the first scenario is selected. -/
theorem exists_entry_of_visits {kind : PropertyKind} {plain : RuleId}
    (named : env.grammar.ruleId? (hostName kind false) = some plain) {n : Nat} {c : Context}
    (visit : Visits env ampleFuel (.symbols [.rule id]) (.initial tokens journal) n (.alternatives plain) c) :
    ∃ p i q, c.Hosts env p ∧ p.Conforms ∧ c.property = some (kind, i) ∧
      (p.properties kind).get? i = some q ∧ c.scenarioIndex = 0 := by
  obtain ⟨bodies, trail⟩ := visit.exists_trail (layoutIn env.grammar) []
  obtain ⟨shown, allowed⟩ := shows_of_trail h known trail
  have inside : zone bodies = some (.property kind) :=
    zone_of_standing named (by cases kind <;> decide) allowed
  obtain ⟨i, found⟩ := exists_innermost_of_zone inside
  have current := (shown.registers.property kind i).mpr found
  obtain ⟨p, started⟩ := Option.ne_none_iff_exists'.mp
    (project_ne_none shown (inside ▸ Option.some_ne_none _))
  have there := currentProperty?_ne_none shown (current ▸ Option.some_ne_none _)
  rw [Matcher.currentProperty?_eq current started] at there
  obtain ⟨q, entry⟩ := Option.ne_none_iff_exists'.mp there
  obtain ⟨⟨sound, conforming⟩, -⟩ :=
    visit.stands (exists_charted h).1 (grounded_initial _ _ tokens journal) (stands_initial h known)
  refine ⟨p, i, q, ⟨sound, started⟩, conforming.project p started, current, entry, ?_⟩
  -- another scenario is selected only behind its id, which is not where bodies are
  by_contra selected
  have prefixed := shown.registers.scenarioIndex selected
  rw [inside] at prefixed
  cases prefixed

/-- The keyword of an attribute that has been added chooses it in the rule that takes it. -/
theorem candidates_of_added {kind : PropertyKind} {r : AttributeRules}
    (ht : env.grammar.HasAttributes kind r) {x : Context}
    (passes : Passes env ampleFuel (.symbols [.rule id]) (.initial tokens journal) x)
    {d : AttributeDefinition} (added : d ∈ x.added kind) {rule : RuleId}
    (host : env.grammar.ruleId? (hostName kind d.scenarioSpecific) = some rule)
    (produced : Lexer.Produces (.id d.extension.keyword)) :
    d.extension.pattern r.reference ∈ (LiveGrammar.mk env.grammar x.extensions).patterns rule ∧
      (LiveGrammar.mk env.grammar x.extensions).candidates rule (.id d.extension.keyword) =
        .ok [d.extension.pattern r.reference] := by
  obtain ⟨reference, reads, mirrors, -⟩ := fresh_of_passes h known passes
  obtain rfl : reference = r.reference := Option.some.inj (reads.symm.trans ht.known)
  have listed := mirrors.mem_extensions_iff.mpr ⟨kind, d, added, host, rfl⟩
  have mem : d.extension.pattern r.reference ∈ (LiveGrammar.mk env.grammar x.extensions).patterns rule :=
    List.mem_append_right _ (List.mem_map.mpr ⟨_, List.mem_filter.mpr ⟨listed, beq_self_eq_true _⟩, rfl⟩)
  refine ⟨mem, candidates_of_passes h known passes produced mem ?_⟩
  rw [AttributeExtension.patternAccepts_pattern]
  exact congrArg Except.ok (beq_self_eq_true _)

/-- Wherever an attribute that has been added is ahead in a body, the alternative for it is chosen. -/
theorem chooses_alternative {kind : PropertyKind} {r : AttributeRules}
    (ht : env.grammar.HasAttributes kind r) {x : Context}
    (passes : Passes env ampleFuel (.symbols [.rule id]) (.initial tokens journal) x)
    {d : AttributeDefinition} (added : d ∈ x.added kind) {p : Plan.Project} {scenario : Option String}
    {w : WrittenValue} {s : Nat} {behind : TokenSource}
    (ahead : d.extension.IsAhead p scenario w s x.tokens behind)
    (produced : ∀ token ∈ d.extension.written scenario w, Lexer.Produces token) :
    (∃ journal, choose r.plain env x = (.ok (some (d.extension.alternative r scenario)), { x with journal })) ∧
      (d.scenarioSpecific = true → (LiveGrammar.mk env.grammar x.extensions).candidates r.scenarios
        (.id d.extension.keyword) = .ok [d.extension.pattern r.reference]) := by
  have keyword : Lexer.Produces (.id d.extension.keyword) := produced _ <| by
    unfold AttributeExtension.written
    exact List.mem_append_right _ List.mem_cons_self
  have own {rule : RuleId} := @candidates_of_added env h tokens journal id known kind r ht x passes d added rule
  refine ⟨?_, fun specific => (own (specific ▸ ht.scenarios) keyword).2⟩
  suffices chosen : (LiveGrammar.mk env.grammar x.extensions).candidates r.plain x.tokens.peek =
      .ok [d.extension.alternative r scenario] from run_choose chosen
  have reads := ahead.reads
  unfold AttributeExtension.written at reads produced
  -- the next token is the keyword, which the body or the rule inside of it takes, or the id of a scenario
  cases scenario with
  | none =>
    rw [reads.next.1]
    unfold AttributeExtension.alternative
    cases specific : d.extension.scenarioSpecific with
    | false =>
      have plain : d.scenarioSpecific = false := specific
      exact (own (plain ▸ ht.plain) keyword).2
    | true =>
      have forScenarios : d.scenarioSpecific = true := specific
      exact candidates_of_starts h known passes keyword ht.nested rfl
        (.rule (own (forScenarios ▸ ht.scenarios) keyword).1 rfl (.terminal rfl (beq_self_eq_true _)))
  | some name =>
    have specific := ahead.specific (Option.some_ne_none name)
    rw [reads.next.1]
    unfold AttributeExtension.alternative
    rw [specific]
    have patterns : scenarioIdPattern ∈ (env.grammar.rule r.scenarioId).patterns := by
      rw [ht.scenarioId]
      exact List.mem_cons_self
    exact candidates_of_starts h known passes (produced _ List.mem_cons_self) ht.prefixed rfl
      (.rule (List.mem_append_left _ patterns) rfl (.terminal rfl rfl))

/-- An attribute that has been added and is ahead in a body is matched, and its value is stored. -/
theorem lands_of_visits {kind : PropertyKind} {plain : RuleId}
    (named : env.grammar.ruleId? (hostName kind false) = some plain) {n : Nat} {c : Context}
    (visit : Visits env ampleFuel (.symbols [.rule id]) (.initial tokens journal) n (.alternatives plain) c) :
    ∃ p i q, c.project = some p ∧ p.Conforms ∧ c.property = some (kind, i) ∧
      (p.properties kind).get? i = some q ∧
      ∀ d ∈ c.added kind, ∀ scenario w s behind, d.extension.IsAhead p scenario w s c.tokens behind →
        (∀ token ∈ d.extension.written scenario w, Lexer.Produces token) →
        Limits.parseDepth + w.tokens.length < ampleFuel →
        ∃ a journal', choose plain env c = (.ok (some a), { c with journal := journal' }) ∧
          Lands (d.extension.levels w) none
            ({ c with tokens := behind }.storing p kind i (d.extension.scenario? s) d.id w.value)
            (matchPattern (matchRule n) a) env { c with journal := journal' } := by
  have ht := hasAttributes h kind
  generalize attributeRulesIn env.grammar kind = r at ht
  obtain rfl : plain = r.plain := Option.some.inj (named.symm.trans ht.plain)
  obtain ⟨p, i, q, hosts, conforms, current, entry, outside⟩ := exists_entry_of_visits h known named visit
  refine ⟨p, i, q, hosts.project, conforms, current, entry,
    fun d added scenario w s behind ahead produced bounded => ?_⟩
  obtain ⟨⟨journal', choice⟩, chosen⟩ := chooses_alternative h known ht (.taken visit) added ahead produced
  -- what the matcher has less of here it has used for levels of nesting
  have fuel : Limits.parseDepth + w.tokens.length < n + c.depth := by
    obtain ⟨levels, -⟩ := visit.depth (Action.wellBehaved env)
    rw [show (Context.initial tokens journal).depth = 0 from rfl] at levels
    omega
  have inside := hosts.of_noise c.tokens journal' c.depth c.stop
  have lands := @lands_alternative env p kind i q r d.extension w { c with journal := journal' } behind ht inside
    current entry outside scenario s ahead chosen n fuel
  exact ⟨_, journal', choice, ⟨lands.fits, lands.deep⟩⟩

end

/-! ## Values are stored where they belong -/

/-- Wherever reading comes, it comes by steps, on which attributes have been declared. In the body of a task or a
resource, be it nested, behind other attributes or in a file that is included, let one of those that have been
declared for it be ahead with a value of its kind, and, if it is for scenarios, maybe behind the id of one. Then
matching reads just these tokens and sets this one value of this task or resource, in the scenario that is meant if
the attribute is for scenarios, where the rules do not nest too deep, and elsewhere the depth is what is wrong. No
attribute of the language has the name of one that has been declared. The value may have as many tokens as the
matcher has fuel for, which is far more than a file can have. -/
theorem stores_of_visits {env : Surroundings} (h : grammar = .ok env.grammar) {tokens : TokenSource}
    {journal : Log.Journal} {id : RuleId} (known : env.grammar.ruleId? "project" = some id) :
    (∀ n s c, Visits env ampleFuel (.symbols [.rule id]) (.initial tokens journal) n s c →
      ∃ declared, Declared env (.initial tokens journal) declared c) ∧
    ∀ kind plain n c declared, env.grammar.ruleId? (hostName kind false) = some plain →
      Visits env ampleFuel (.symbols [.rule id]) (.initial tokens journal) n (.alternatives plain) c →
      Declared env (.initial tokens journal) declared c →
      ∃ p i q, c.project = some p ∧ c.property = some (kind, i) ∧ (p.properties kind).get? i = some q ∧
        ∀ d, (kind, d) ∈ declared → (∀ b ∈ Plan.builtinDefinitions kind, b.id ≠ d.id) ∧
          ∀ scenario w s behind, d.extension.IsAhead p scenario w s c.tokens behind →
            (∀ token ∈ d.extension.written scenario w, Lexer.Produces token) →
            Limits.parseDepth + w.tokens.length < ampleFuel →
            ∃ a journal', choose plain env c = (.ok (some a), { c with journal := journal' }) ∧
              if c.depth + d.extension.levels w ≤ Limits.parseDepth then
                ∃ r journal'' stop, p.Sets r kind i (d.extension.scenario? s) d.id w.value ∧
                  matchPattern (matchRule n) a env { c with journal := journal' } = (.ok none,
                    { c with tokens := behind, project := some r, journal := journal'', stop })
              else
                ∃ location y, matchPattern (matchRule n) a env { c with journal := journal' } =
                  (.error (.error ⟨.maxParseDepth Limits.parseDepth, location⟩), y) := by
  refine ⟨fun n s c visit => exists_declared_of_visits h known .here visit,
    fun kind plain n c declared named visit steps => ?_⟩
  obtain ⟨p, i, q, there, conforms, current, entry, lands⟩ := lands_of_visits h known named visit
  refine ⟨p, i, q, there, current, entry, fun d among => ?_⟩
  have added : d ∈ c.added kind := (mem_declared_iff h steps kind d).mp among
  refine ⟨fun b builtin same => ?_, fun scenario w s behind ahead produced bounded => ?_⟩
  · -- names are distinct, and this one is not of the language
    have schema : c.schema kind = (p.properties kind).definitions := by
      rw [Context.schema, there]
      rfl
    obtain ⟨mem, mine⟩ := List.mem_filter.mp added
    rw [schema] at mem
    have both := List.inj_on_of_nodup_map (conforms.sets kind).distinct (conforms.builtin kind builtin) mem same
    have theirs : ∀ b ∈ Plan.builtinDefinitions kind, b.userDefined = false := by cases kind <;> decide
    rw [← both, theirs b builtin] at mine
    cases mine
  · obtain ⟨a, journal', choice, lands⟩ := lands d added scenario w s behind ahead produced bounded
    refine ⟨a, journal', choice, ?_⟩
    split
    · next room =>
      obtain ⟨journal'', stop, run⟩ := lands.fits room
      exact ⟨_, journal'', stop, p.sets_store kind i _ d.id w.value, run⟩
    · next deep =>
      obtain ⟨-, shallow⟩ := visit.depth (Action.wellBehaved env)
      exact lands.deep (Nat.le_trans shallow (Nat.max_le.mpr ⟨Nat.zero_le _, Nat.le_refl _⟩))
        (Nat.lt_of_not_le deep)

/-! ## Tasks with a link -/

/-- The attribute of tasks that a plan adds for links. -/
def home : AttributeDefinition := ⟨"Home", "Home", .reference, false, true, true⟩

/-- A link with a label. -/
def link : WrittenValue := .reference "x" (some ["L"])

/-- A plan that adds the attribute, with as many tasks inside of each other and a link in the innermost one. -/
def linkingPlan (count : Nat) : TokenStream :=
  plainStream <| yearHeader ++
    [.mark .leftBrace, .id "extend", .id "task", .mark .leftBrace, .id "reference", .id "Home", .string "Home",
      .mark .leftBrace, .id "scenariospecific", .mark .rightBrace, .mark .rightBrace, .mark .rightBrace] ++
    nested "t" "T" count ++ home.extension.written none link ++
    List.replicate count (.mark .rightBrace) ++ [.eof]

/-- Whether a state is the one in front of the body of the first task of such a plan. -/
def isOutermost (count : Nat) (c : Context) : Bool :=
  c.depth == 4 && c.property == some (.task, 0) && c.added .task == [home] &&
  c.project.any (fun p => p.tasks.kind == .task && p.tasks.entryTable.headings == [⟨"t", "T", none⟩] &&
    p.tasks.index == [("t", 0)]) &&
  c.tokens.below.isEmpty && c.tokens.top.stream.ahead.map (·.token) ==
    nested "t" "T" (count - 1) ++ (home.extension.written none link ++
      List.replicate count (.mark .rightBrace)) ++ [.eof]

/-- Reading the plans with one task and with many comes to this body. -/
theorem seek_linkingPlan : satisfies (fun t =>
    (t.ruleId? "project").any fun project => (t.ruleId? (hostName .task false)).any fun plain =>
      [1, 332].all fun count =>
        (seek ⟨t, .empty, .default⟩ (fun other _ => other == plain) 60 ampleFuel (.symbols [.rule project])
          (.initial (.ofStream (linkingPlan count) "main.tjp" none) .silent)).any fun (n, _, x) =>
            n != 0 && isOutermost count x) = true := by
  decide +kernel

/-- So there the body is read, and what stands in it is ahead. -/
theorem exists_visits_linkingPlan (count : Nat) (listed : count ∈ [1, 332]) :
    ∃ table id plain n c p own, grammar = .ok table ∧ table.ruleId? "project" = some id ∧
      table.ruleId? (hostName .task false) = some plain ∧
      Visits ⟨table, .empty, .default⟩ ampleFuel (.symbols [.rule id])
        (.initial (.ofStream (linkingPlan count) "main.tjp" none) .silent) n (.alternatives plain) c ∧
      c.depth = 5 ∧ c.Innermost p 0 own ∧ home ∈ c.added .task ∧
      c.tokens.Ahead (nested "t" "T" (count - 1) ++ (home.extension.written none link ++
        List.replicate count (.mark .rightBrace))) := by
  obtain ⟨table, made⟩ := exists_grammar
  have found := of_satisfies seek_linkingPlan made
  obtain ⟨id, known, found⟩ := (Option.any_eq_true _ _).mp found
  obtain ⟨plain, named, both⟩ := (Option.any_eq_true _ _).mp found
  obtain ⟨⟨n, other, x⟩, sought, found⟩ := (Option.any_eq_true _ _).mp (List.all_eq_true.mp both count listed)
  obtain ⟨visit, wanted⟩ := Visits.of_seek sought
  obtain rfl : other = plain := beq_iff_eq.mp wanted
  simp only [isOutermost, Bool.and_eq_true, bne_iff_ne, beq_iff_eq, List.isEmpty_iff] at found
  obtain ⟨fuel, ⟨⟨⟨⟨⟨depth, property⟩, added⟩, entries⟩, below⟩, ahead⟩⟩ := found
  obtain ⟨m, rfl⟩ := Nat.exists_eq_succ_of_ne_zero fuel
  obtain ⟨p, there, entries⟩ := (Option.any_eq_true _ _).mp entries
  obtain ⟨entries, index⟩ := Bool.and_eq_true_iff.mp entries
  obtain ⟨kind, headings⟩ := Bool.and_eq_true_iff.mp entries
  have alone : p.tasks.entryTable.headings = [⟨"t", "T", none⟩] := beq_iff_eq.mp headings
  have within : Visits ⟨table, .empty, .default⟩ (m + 1) (.rule other) x m (.alternatives other)
      { x with depth := x.depth + 1 } := .rule (by rw [depth]; decide) .here
  refine ⟨table, id, other, m, _, p, ⟨"t", "T", none⟩, made, known, named, visit.trans within, ?_, ?_, ?_, ?_⟩
  · rw [depth]
  · refine ⟨there, property, beq_iff_eq.mp kind, by rw [alone]; rfl, fun entry mem => ?_⟩
    rw [beq_iff_eq.mp index] at mem
    obtain rfl := List.mem_singleton.mp mem
    exact Nat.le_refl _
  · have same : home ∈ x.added .task := by
      rw [added]
      exact List.mem_cons_self
    exact same
  · exact ⟨below, ahead⟩

/-- The tokens of the link are those of a text. -/
theorem produces_link : ∀ token ∈ home.extension.written none link, Lexer.Produces token :=
  Lexer.produces_of_found (quickChars "home \"x\" \x7b label \"L\" \x7d") (by decide +kernel)

/-- Where the link is ahead, it stands there with its value. -/
theorem isAhead_link {c : Context} {rest : List Token} (p : Plan.Project)
    (ahead : c.tokens.Ahead (home.extension.written none link ++ rest)) :
    ∃ behind, home.extension.IsAhead p none link 0 c.tokens behind := by
  obtain ⟨behind, reads, -⟩ := ahead.exists_reads (by decide)
  exact ⟨behind, rfl, reads, trivial, fun specific => absurd rfl specific, rfl⟩

/-- In the body of the one task of the plan the link is stored in this task, with the label. -/
theorem stores_of_visits_linkingPlan :
    ∃ table id plain n c declared p i q r a journal d, grammar = .ok table ∧
      table.ruleId? "project" = some id ∧ table.ruleId? "taskAttributes" = some plain ∧
      Visits ⟨table, .empty, .default⟩ ampleFuel (.symbols [.rule id])
        (.initial (.ofStream (linkingPlan 1) "main.tjp" none) .silent) n (.alternatives plain) c ∧
      Declared ⟨table, .empty, .default⟩ (.initial (.ofStream (linkingPlan 1) "main.tjp" none) .silent)
        declared c ∧ (.task, home) ∈ declared ∧
      c.project = some p ∧ c.property = some (.task, i) ∧ p.tasks.get? i = some q ∧
      choose plain ⟨table, .empty, .default⟩ c = (.ok (some a), { c with journal }) ∧
      matchPattern (matchRule n) a ⟨table, .empty, .default⟩ { c with journal } = (.ok none, d) ∧
      d.project = some r ∧ p.Sets r .task i (some 0) "Home" (.reference "x" (some "L")) := by
  obtain ⟨table, id, plain, n, c, _, _, made, known, named, visit, depth, -, added, ahead⟩ :=
    exists_visits_linkingPlan 1 (by decide)
  obtain ⟨steps, stores⟩ := @stores_of_visits ⟨table, .empty, .default⟩ made
    (.ofStream (linkingPlan 1) "main.tjp" none) .silent id known
  obtain ⟨declared, steps⟩ := steps n _ c visit
  have among := (@mem_declared_iff ⟨table, .empty, .default⟩ made c _ _ declared steps .task home).mpr added
  obtain ⟨p, i, q, there, current, entry, uses⟩ := stores .task plain n c declared named visit steps
  obtain ⟨behind, use⟩ := isAhead_link p ahead
  obtain ⟨a, journal, choice, run⟩ := (uses home among).2 none link 0 behind use produces_link (by decide)
  rw [if_pos (by rw [depth]; decide)] at run
  obtain ⟨r, journal', stop, sets, run⟩ := run
  exact ⟨table, id, plain, n, c, declared, p, i, q, r, a, journal, _, made, known, named, visit, steps, among,
    there, current, entry, choice, run, rfl, sets⟩

/-- In the innermost body of the plan with many tasks the rules nest too deep for the link. -/
theorem link_tooDeep_linkingPlan :
    ∃ table id plain n c declared behind a journal location d, grammar = .ok table ∧
      table.ruleId? "project" = some id ∧ table.ruleId? "taskAttributes" = some plain ∧
      Visits ⟨table, .empty, .default⟩ ampleFuel (.symbols [.rule id])
        (.initial (.ofStream (linkingPlan 332) "main.tjp" none) .silent) n (.alternatives plain) c ∧
      Declared ⟨table, .empty, .default⟩ (.initial (.ofStream (linkingPlan 332) "main.tjp" none) .silent)
        declared c ∧ (.task, home) ∈ declared ∧ c.tokens.Reads (home.extension.written none link) behind ∧
      (∀ token ∈ home.extension.written none link, Lexer.Produces token) ∧
      choose plain ⟨table, .empty, .default⟩ c = (.ok (some a), { c with journal }) ∧
      matchPattern (matchRule n) a ⟨table, .empty, .default⟩ { c with journal } =
        (.error (.error ⟨.maxParseDepth 1000, location⟩), d) := by
  obtain ⟨table, id, plain, n, c, p, own, made, known, named, visit, depth, inside, added, ahead⟩ :=
    exists_visits_linkingPlan 332 (by decide)
  obtain ⟨m, d, descent, deeper, ahead⟩ := @visits_descent ⟨table, .empty, .default⟩ made _ _ id known plain
    (taskBodiesIn table) (hasTaskBodies made named) "t" "T" _ 331 n c visit p 0 own inside ahead (by rw [depth]; decide)
  -- on the way to the innermost body nothing that has been declared gets lost
  obtain ⟨later, on⟩ :=
    @exists_declared_of_visits ⟨table, .empty, .default⟩ made c d _ _ id known _ _ _ _ visit descent
  have still : home ∈ d.added .task := by
    rw [@added_of_declared ⟨table, .empty, .default⟩ made c d later on .task]
    exact List.mem_append_left _ added
  obtain ⟨declared, steps⟩ := @exists_declared_of_visits ⟨table, .empty, .default⟩ made _ d _ _ id known _ _ _ _
    .here (visit.trans descent)
  have among := (@mem_declared_iff ⟨table, .empty, .default⟩ made d _ _ declared steps .task home).mpr still
  obtain ⟨q, _, _, _, -, -, -, uses⟩ :=
    @lands_of_visits ⟨table, .empty, .default⟩ made _ _ id known .task plain named m d (visit.trans descent)
  obtain ⟨behind, use⟩ := isAhead_link q ahead
  obtain ⟨a, journal, choice, lands⟩ := uses home still none link 0 behind use produces_link (by decide)
  -- the link takes three levels, and two are left
  rw [depth] at deeper
  obtain ⟨location, e, run⟩ := lands.deep (by rw [deeper]; decide) (by rw [deeper]; decide)
  exact ⟨table, id, plain, m, d, declared, behind, a, journal, location, e, made, known, named,
    visit.trans descent, steps, among, use.reads, produces_link, choice, run⟩

end Language

end Planfile
