import Planfile.Proofs.Extension.AttributeState
import Planfile.Proofs.Matching.Levels

/-!
# Planfile — added attributes are used

An attribute that a plan has added is written as its keyword and its value; one for scenarios may have the id of
a scenario in front. Where this is ahead in the body of a task or a resource, and the rules do not nest too
deep, matching it changes one value of this task or resource and nothing else.

Which alternative the next token chooses is taken for granted here.

Main results:

* `WrittenValue.readsTo` — a value is read as it is written.
* `Matcher.lands_attribute` — an attribute is matched by its alternative, and its value is stored.
* `Matcher.lands_alternative` — so it is by the alternative that the body chooses for it.
-/

namespace Planfile

open Matcher
open Plan (PropertyKind AttributeDefinition AttributeKind AttributeValue)

/-! ## Values as they are written -/

/-- A value of an added attribute as it is written. Behind the text of a reference there may be a body with
labels. -/
inductive WrittenValue where
  | date (value : Calendar.DateTime)
  | text (value : String)
  | reference (url : String) (labels : Option (List String))
  deriving DecidableEq, Repr

/-- The tokens of a label. -/
def labelTokens (label : String) : List Token := [.id "label", .string label]

namespace WrittenValue

/-- The kind of attributes that have such values. -/
def kind : WrittenValue → AttributeKind
  | .date _ => .date
  | .text _ => .text
  | .reference _ _ => .reference

/-- What is meant. Of several labels it is the first. -/
def value : WrittenValue → AttributeValue
  | .date d => .date d
  | .text s => .text s
  | .reference url labels => .reference url (labels.getD []).head?

/-- The tokens of a value. -/
def tokens : WrittenValue → List Token
  | .date d => [.date d]
  | .text s => [.string s]
  | .reference url none => [.string url]
  | .reference url (some labels) =>
    .string url :: .mark .leftBrace :: (labels.flatMap labelTokens ++ [.mark .rightBrace])

/-- Whether a token can follow a value: what is behind a reference without a body must not start one. -/
def CanPrecede : WrittenValue → Token → Prop
  | .reference _ none, next => next.matchesLiteral "\x7b" = false
  | _, _ => True

/-- How many rules are matched inside of each other for a value. -/
def levels : WrittenValue → Nat
  | .date _ | .text _ => 0
  | .reference _ none => 1
  | .reference _ (some _) => 2

/-- What the symbols of a value are matched by. -/
def items : WrittenValue → List MatchedValue
  | .date d => [.token (.date d)]
  | .text s => [.token (.string s)]
  | .reference url labels =>
    [.token (.string url), .rule (labels.bind fun labels => collected (labels.map .str).reverse)]

end WrittenValue

/-! ## References -/

/-- How a label is written. -/
def labelPattern : Pattern := ⟨[.literal "label", .tokenClass .string], some (.value 1)⟩

/-- How the body of a reference is written, where `labels` is the rule for labels. -/
def referencePattern (labels : RuleId) : Pattern :=
  ⟨[.literal "\x7b", .rule labels, .literal "\x7d"], some (.value 1)⟩

/-- Whether the rules for the body of a reference and for labels are those of a grammar. -/
structure GrammarTable.HasReferences (t : GrammarTable) (reference labels : RuleId) : Prop where
  body : t.rule reference = ⟨"referenceBody", [referencePattern labels], true, false⟩
  labels : t.rule labels = ⟨"referenceAttributes", [labelPattern], true, true⟩

section
variable {env : Surroundings} {p : Plan.Project} {reference labels : RuleId}
  (ht : env.grammar.HasReferences reference labels)

/-- Labels are read one after the other, up to the brace. -/
theorem readsLabels : ReadsItems env p labelPattern 0 labelTokens .str fun next => next = .mark .rightBrace where
  terminal := rfl
  starts label := ⟨_, _, rfl, rfl⟩
  stops next last := by
    rw [last]
    rfl
  reads label m c behind hosts reads follows fuel := by
    have symbols : ReadsTo 0 [.literal "label", .token (.string label)] behind
        (matchSymbols (matchRule m) [.literal "label", .tokenClass .string]) env c :=
      .literal_cons "label" rfl reads fun mid journal mark rest =>
        .class_cons .string rfl rest fun mid journal mark rest => .nil rest.eq_of_nil.symm
    exact symbols.pattern rfl fun d _ => ⟨d.journal, rfl⟩

include ht

/-- Labels in braces are the body of a reference. -/
theorem referenceReads (written : List String) :
    RuleReads env p reference 2 (fun _ => collected (written.map .str).reverse)
      (.mark .leftBrace :: (written.flatMap labelTokens ++ [.mark .rightBrace])) fun _ => True := by
  refine .of_alternative (referencePattern labels)
    [.literal "\x7b", .rule (collected (written.map .str).reverse), .literal "\x7d"] (by rw [ht.body]) rfl
    (fun c behind hosts reads => ?_) (fun m c behind hosts reads _ fuel => ?_) fun _ _ d _ => ⟨d.journal, rfl⟩
  · have patterns := LiveGrammar.patterns_of_sound hosts.sound ht.body rfl
    obtain ⟨journal, choice⟩ := run_choose_of_terminals patterns fun q mem => by
      rw [List.mem_singleton.mp mem]
      rfl
    rw [reads.next.1] at choice
    exact ⟨journal, choice⟩
  · refine .literal_cons "\x7b" rfl reads fun mid journal mark others => ?_
    obtain ⟨stop, inner, last⟩ := others.split
    rw [List.length_cons, List.length_append] at fuel
    have one := readsLabels.ruleReads ht.labels rfl written m _ stop
      (hosts.of_noise mid journal c.depth mark) inner last.next.1 (by dsimp only; omega)
    rw [ite_self] at one
    exact one.rule_cons fun journal mark => .last_literal "\x7d" rfl last

/-- In front of any token but a brace there is no body of a reference. -/
theorem referenceAbsent :
    RuleReads env p reference 1 (fun _ => none) [] fun next => next.matchesLiteral "\x7b" = false := by
  intro n c behind hosts reads next fuel
  refine RuleReads.absent ht.body rfl (fun q mem => ?_) n c behind hosts reads ?_ fuel
  · rw [List.mem_singleton.mp mem]
    rfl
  · exact List.find?_cons_of_neg (Bool.eq_false_iff.mp next)

end

/-! ## Values of a property -/

namespace Plan.Property

/-- The value of a name in a scenario, or, where no scenario is given, in all of them. -/
def stored? (q : Property) : Option Nat → String → Option AttributeValue
  | none, id => q.get? id
  | some scenario, id => q.getScenario? scenario id

/-- Sets the value of a name in a scenario, or, where no scenario is given, in all of them. -/
def store (q : Property) (scenario : Option Nat) (id : String) (value : AttributeValue) : Property :=
  match scenario with
  | none => q.set id value
  | some scenario => q.setScenario scenario id value

/-- The table that is set has the value besides its others. -/
theorem getElem?_setAt_self (index : Nat) (id : String) (value : AttributeValue)
    (tables : List Plan.AttributeTable) :
    (setAt index id value tables)[index]? = some ((tables[index]?.getD []).set id value) := by
  induction tables generalizing index with
  | nil => simp [setAt]
  | cons table rest ih =>
    cases index with
    | zero => rfl
    | succ index => exact ih index

/-- All other tables have the values that they had, if they had any. -/
theorem getElem?_setAt_ne {index other : Nat} (h : other ≠ index) (id : String) (value : AttributeValue)
    (tables : List Plan.AttributeTable) :
    (setAt index id value tables)[other]?.getD [] = tables[other]?.getD [] := by
  induction tables generalizing index other with
  | nil =>
    -- the tables in between are empty
    rw [setAt, List.getElem?_append, List.length_replicate, List.getElem?_replicate]
    split
    · rfl
    · rw [List.getElem?_eq_none (by rw [List.length_singleton]; omega)]
      rfl
  | cons table rest ih =>
    cases index with
    | zero =>
      obtain ⟨other, rfl⟩ : ∃ n, other = n + 1 := ⟨other - 1, by omega⟩
      rfl
    | succ index =>
      cases other with
      | zero => rfl
      | succ other => exact ih fun same => h (congrArg (· + 1) same)

theorem getScenario?_eq (q : Property) (scenario : Nat) (id : String) :
    q.getScenario? scenario id = (q.scenarioAttributes[scenario]?.getD []).get? id := by
  unfold getScenario?
  cases q.scenarioAttributes[scenario]? <;> rfl

/-- The value that is set is the one that is found. -/
theorem stored?_store_self (q : Property) (scenario : Option Nat) (id : String) (value : AttributeValue) :
    (q.store scenario id value).stored? scenario id = some value := by
  cases scenario with
  | none => exact AttributeTable.get?_set_self _ _ _
  | some scenario =>
    show (q.setScenario scenario id value).getScenario? scenario id = some value
    rw [getScenario?_eq, setScenario, getElem?_setAt_self, Option.getD_some]
    exact AttributeTable.get?_set_self _ _ _

/-- Under another name, or in another scenario, it is the one of before. -/
theorem stored?_store_ne (q : Property) {scenario other : Option Nat} {id name : String} (value : AttributeValue)
    (h : ¬(other = scenario ∧ name = id)) :
    (q.store scenario id value).stored? other name = q.stored? other name := by
  have table (t : Plan.AttributeTable) (same : other = scenario) : (t.set id value).get? name = t.get? name :=
    AttributeTable.get?_set_ne t value fun named => h ⟨same, named⟩
  cases scenario with
  | none =>
    cases other with
    | none => exact table _ rfl
    | some other => rfl
  | some scenario =>
    cases other with
    | none => rfl
    | some other =>
      show (q.setScenario scenario id value).getScenario? other name = q.getScenario? other name
      rw [getScenario?_eq, getScenario?_eq, setScenario]
      by_cases same : other = scenario
      · subst same
        rw [getElem?_setAt_self, Option.getD_some]
        exact table _ rfl
      · rw [getElem?_setAt_ne same]

end Plan.Property

/-- The state in which a value of a task or a resource has been set. -/
def Context.storing (c : Context) (p : Plan.Project) (kind : PropertyKind) (i : Nat) (scenario : Option Nat)
    (id : String) (value : AttributeValue) : Context :=
  { c with project := some (p.setProperties kind ((p.properties kind).modify i (·.store scenario id value))) }

/-! ## An attribute -/

/-- Where the value of an attribute belongs. -/
def AttributeExtension.scenario? (e : AttributeExtension) (scenario : Nat) : Option Nat :=
  if e.scenarioSpecific then some scenario else none

/-- The value of an attribute is stored where it belongs, in the task or the resource whose body is read. -/
theorem Matcher.run_store {env : Surroundings} {c : Context} {p : Plan.Project} {kind : PropertyKind} {i : Nat}
    {q : Plan.Property} (there : c.project = some p) (current : c.property = some (kind, i))
    (entry : (p.properties kind).get? i = some q) (e : AttributeExtension) (value : AttributeValue) :
    (if e.scenarioSpecific then setScenarioAttribute e.id value else modifyProperty (·.set e.id value)) env c =
      (.ok (), c.storing p kind i (e.scenario? c.scenarioIndex) e.id value) := by
  cases specific : e.scenarioSpecific <;>
    simp [run_bind, setScenarioAttribute, modifyProperty, orFail, current, there, entry, Context.storing,
      AttributeExtension.scenario?, specific, Plan.Property.store]

section
variable {env : Surroundings} {p : Plan.Project} {kind : PropertyKind} {i : Nat} {q : Plan.Property}
  {reference labels : RuleId} {e : AttributeExtension} {w : WrittenValue} (fits : e.kind = w.kind)
  {m : Nat} {c : Context} {behind : TokenSource}

include fits

/-- What the symbols of an attribute are matched by is taken for the value that is meant. -/
theorem WrittenValue.extensionValue_items (location : Location) :
    extensionValue e.kind ⟨.literal e.keyword :: w.items, location⟩ = .ok w.value := by
  rw [fits]
  cases w with
  | date d => rfl
  | text s => rfl
  | reference url written =>
    cases written with
    | none => rfl
    | some written =>
      have collects : Values.list ⟨[.literal e.keyword, .token (.string url),
          .rule (collected (written.map .str).reverse)], location⟩ 2 = written.map .str :=
        (items_collected _).trans (List.reverse_reverse _)
      have texts : strings (written.map .str) = written := by
        simp [strings, List.filterMap_map, Value.str?]
      have label := congrArg (AttributeValue.reference url ·.head?)
        ((congrArg strings collects).trans texts)
      exact congrArg Except.ok label

variable (ht : env.grammar.HasReferences reference labels) (hosts : c.Hosts env p)
  (reads : c.tokens.Reads (.id e.keyword :: w.tokens) behind) (next : w.CanPrecede behind.peek)
  (fuel : Limits.parseDepth + w.tokens.length < m + c.depth)

include ht hosts reads next fuel

/-- An attribute is read as it is written. -/
theorem WrittenValue.readsTo :
    ReadsTo w.levels (.literal e.keyword :: w.items) behind
      (matchSymbols (matchRule m) (e.pattern reference).symbols) env c := by
  have symbols : (e.pattern reference).symbols = .literal e.keyword :: e.tailSymbols reference := rfl
  rw [symbols]
  refine .literal_cons e.keyword (beq_self_eq_true _) reads fun mid journal mark rest => ?_
  have inside := hosts.of_noise mid journal c.depth mark
  unfold AttributeExtension.tailSymbols
  rw [fits]
  cases w with
  | date d => exact .class_cons .date rfl rest fun _ _ _ last => .nil last.eq_of_nil.symm
  | text s => exact .class_cons .string rfl rest fun _ _ _ last => .nil last.eq_of_nil.symm
  | reference url written =>
    cases written with
    | none =>
      -- there is no body, so the rule for it has to find that out
      refine .class_cons .string rfl rest fun mid journal mark last => .last_rule ?_
      exact referenceAbsent ht m _ behind (hosts.of_noise mid journal c.depth mark) last next
        (by dsimp only [tokens, List.length_cons, List.length_nil] at fuel ⊢; omega)
    | some written =>
      refine .class_cons .string rfl rest fun mid journal mark last => .last_rule ?_
      exact referenceReads ht written m _ behind (hosts.of_noise mid journal c.depth mark) last trivial
        (by dsimp only [tokens, List.length_cons] at fuel ⊢; omega)

variable (current : c.property = some (kind, i)) (entry : (p.properties kind).get? i = some q)

include current entry

/-- An attribute is matched by its alternative, and its value is stored. -/
theorem Matcher.lands_attribute :
    Lands w.levels none ({ c with tokens := behind }.storing p kind i (e.scenario? c.scenarioIndex) e.id w.value)
      (matchPattern (matchRule m) (e.pattern reference)) env c := by
  have symbols := w.readsTo fits ht hosts reads next fuel
  refine symbols.lands.pattern rfl rfl fun journal stop => ⟨journal, stop, ?_⟩
  have value := WrittenValue.extensionValue_items fits c.tokens.location
  have stores := @run_store env { c with tokens := behind, journal, stop } p kind i q hosts.project current
    entry e w.value
  -- the action has been made when the attribute was declared, with its id, its kind and the flag
  show (ExtendAction.store e.id e.kind e.scenarioSpecific).perform _ env _ = _
  rw [ExtendAction.perform, value, take, run_bind, run_pure]
  dsimp only at stores ⊢
  cases specific : e.scenarioSpecific <;> rw [specific] at stores
  · rw [if_neg Bool.false_ne_true] at stores ⊢
    rw [run_bind, stores]
    rfl
  · rw [if_pos rfl] at stores ⊢
    rw [run_bind, stores]
    rfl

omit reads fuel in
/-- An attribute for scenarios is matched by the rule that takes these. -/
theorem Matcher.lands_scenarioRule {n : Nat} {scenarios : RuleId}
    (single : (env.grammar.rule scenarios).repeatable = false)
    (chosen : (LiveGrammar.mk env.grammar c.extensions).candidates scenarios (.id e.keyword) =
      .ok [e.pattern reference])
    (reads : c.tokens.Reads (.id e.keyword :: w.tokens) behind)
    (fuel : Limits.parseDepth + w.tokens.length < n + c.depth) :
    Lands (w.levels + 1) none
      ({ c with tokens := behind }.storing p kind i (e.scenario? c.scenarioIndex) e.id w.value)
      (Matcher.matchRule n scenarios) env c := by
  refine .rule (by omega) fun m same shallow => ?_
  subst same
  rw [← reads.next.1] at chosen
  obtain ⟨journal, choice⟩ := @run_choose scenarios env { c with depth := c.depth + 1 } _ chosen
  have run : matchAlternatives (Matcher.matchRule m) m scenarios env { c with depth := c.depth + 1 } =
      matchPattern (Matcher.matchRule m) (e.pattern reference) env { c with depth := c.depth + 1, journal } := by
    rw [run_matchAlternatives_of_single single, choice]
    rfl
  have inside := hosts.of_noise c.tokens journal (c.depth + 1) c.stop
  have one := lands_attribute (m := m) fits ht inside reads next (by dsimp only; omega) current entry
  exact .of_run journal run (.of_noise journal c.stop one)

end

/-! ## Alternatives of a body -/

/-- The rules by which the added attributes of a kind are read. -/
structure AttributeRules where
  plain : RuleId
  scenarios : RuleId
  scenarioId : RuleId
  reference : RuleId
  labels : RuleId

/-- How the id of a scenario is written in front of an attribute. -/
def scenarioIdPattern : Pattern := ⟨[.tokenClass .idWithColon], some (.scenario .select)⟩

/-- Whether the rules by which added attributes are read are those of a grammar. -/
structure GrammarTable.HasAttributes (t : GrammarTable) (kind : PropertyKind) (r : AttributeRules) : Prop where
  plain : t.ruleId? (hostName kind false) = some r.plain
  scenarios : t.ruleId? (hostName kind true) = some r.scenarios
  nested : ⟨[.rule r.scenarios], none⟩ ∈ (t.rule r.plain).patterns
  prefixed : ⟨[.rule r.scenarioId, .rule r.scenarios], some (.property .leaveScenario)⟩ ∈
    (t.rule r.plain).patterns
  single : (t.rule r.scenarios).repeatable = false
  scenarioId : t.rule r.scenarioId = ⟨"scenarioId", [scenarioIdPattern], false, false⟩
  known : t.ruleId? "referenceBody" = some r.reference
  references : t.HasReferences r.reference r.labels

/-- The scenario for which an attribute is meant: the first one, unless the id of another is in front. -/
def Plan.Project.meantScenario? (p : Plan.Project) : Option String → Option Nat
  | none => some 0
  | some id => p.scenarioIndex? id

namespace AttributeExtension

variable (e : AttributeExtension)

/-- The tokens of an attribute with a value, in front of which there may be the id of a scenario. -/
def written (scenario : Option String) (w : WrittenValue) : List Token :=
  (scenario.map Token.idWithColon).toList ++ .id e.keyword :: w.tokens

/-- The alternative of a body that an attribute is read by. -/
def alternative (r : AttributeRules) (scenario : Option String) : Pattern :=
  match e.scenarioSpecific, scenario with
  | false, _ => e.pattern r.reference
  | true, none => ⟨[.rule r.scenarios], none⟩
  | true, some _ => ⟨[.rule r.scenarioId, .rule r.scenarios], some (.property .leaveScenario)⟩

/-- How many rules are matched inside of each other for an attribute. -/
def levels (w : WrittenValue) : Nat := w.levels + if e.scenarioSpecific then 1 else 0

/-- Whether an attribute with a value of its kind is ahead, maybe behind the id of a scenario, and where its
value belongs. -/
structure IsAhead (p : Plan.Project) (scenario : Option String) (w : WrittenValue) (s : Nat)
    (tokens behind : TokenSource) : Prop where
  fits : e.kind = w.kind
  reads : tokens.Reads (e.written scenario w) behind
  next : w.CanPrecede behind.peek
  /-- An id stands in front of attributes for scenarios only. -/
  specific : scenario ≠ none → e.scenarioSpecific = true
  meant : p.meantScenario? scenario = some s

end AttributeExtension

section
variable {env : Surroundings} {p : Plan.Project} {kind : PropertyKind} {i : Nat} {q : Plan.Property}
  {r : AttributeRules} {e : AttributeExtension} {w : WrittenValue} {c : Context} {behind : TokenSource}

/-- The id of a scenario in front of an attribute selects the scenario. -/
theorem Matcher.lands_scenarioId (ht : env.grammar.HasAttributes kind r) (hosts : c.Hosts env p) {id : String}
    {s : Nat} (known : p.scenarioIndex? id = some s) {n : Nat} (reads : c.tokens.Reads [.idWithColon id] behind)
    (fuel : Limits.parseDepth < n + c.depth) :
    Lands 1 none { c with tokens := behind, scenarioIndex := s } (matchRule n r.scenarioId) env c := by
  refine .rule (by omega) fun m same shallow => ?_
  have inside := hosts.of_noise c.tokens c.journal (c.depth + 1) c.stop
  have patterns := LiveGrammar.patterns_of_sound inside.sound ht.scenarioId rfl
  obtain ⟨journal, choice⟩ := run_choose_of_terminals patterns fun q mem => by
    rw [List.mem_singleton.mp mem]
    rfl
  have run : matchAlternatives (matchRule m) m r.scenarioId env { c with depth := c.depth + 1 } =
      matchPattern (matchRule m) scenarioIdPattern env { c with depth := c.depth + 1, journal } := by
    rw [run_matchAlternatives_of_single (by rw [ht.scenarioId]), choice, reads.next.1]
    rfl
  refine .of_run journal run ?_
  have symbols : ReadsTo 0 [.token (.idWithColon id)] behind
      (matchSymbols (matchRule m) scenarioIdPattern.symbols) env { c with depth := c.depth + 1, journal } :=
    .class_cons (c := { c with depth := c.depth + 1, journal }) .idWithColon rfl reads
      fun _ _ _ rest => .nil rest.eq_of_nil.symm
  refine symbols.lands.pattern rfl rfl fun journal stop => ⟨journal, stop, ?_⟩
  simp [Action.perform, ScenarioAction.perform, take, Values.string, Values.typed, Values.value?, Values.get?,
    MatchedValue.value?, Value.ofToken?, Value.str?, scenarioIndex, run_bind, run_map, project, orFail,
    hosts.project, known]

/-- An attribute is matched by the alternative of the body that is for it, and its value is stored in the
scenario that is meant. -/
theorem Matcher.lands_alternative (ht : env.grammar.HasAttributes kind r) (hosts : c.Hosts env p)
    (current : c.property = some (kind, i)) (entry : (p.properties kind).get? i = some q)
    (outside : c.scenarioIndex = 0) {scenario : Option String} {s : Nat}
    (ahead : e.IsAhead p scenario w s c.tokens behind)
    (chosen : e.scenarioSpecific = true → (LiveGrammar.mk env.grammar c.extensions).candidates r.scenarios
      (.id e.keyword) = .ok [e.pattern r.reference])
    {m : Nat} (fuel : Limits.parseDepth + w.tokens.length < m + c.depth) :
    Lands (e.levels w) none ({ c with tokens := behind }.storing p kind i (e.scenario? s) e.id w.value)
      (matchPattern (matchRule m) (e.alternative r scenario)) env c := by
  obtain ⟨fits, reads, next, specific, meant⟩ := ahead
  unfold AttributeExtension.levels AttributeExtension.alternative
  cases scenario with
  | none =>
    obtain rfl : s = c.scenarioIndex := (Option.some.inj meant).symm.trans outside.symm
    cases plain : e.scenarioSpecific with
    | false => exact lands_attribute fits ht.references hosts reads next fuel current entry
    | true =>
      have one := lands_scenarioRule fits ht.references hosts next current entry ht.single (chosen plain) reads
        fuel
      exact (one.last_rule rfl).pattern_none rfl rfl
  | some id =>
    have forScenarios := specific (Option.some_ne_none id)
    rw [forScenarios]
    obtain ⟨mid, first, rest⟩ := reads.split
    have one := lands_scenarioId (n := m) ht hosts meant first (by omega)
    -- behind the id the attribute is read as it is without
    have two (journal : Log.Journal) (stop : Option StopMark) :=
      @lands_scenarioRule env p kind i q r.reference r.labels e w fits
        { c with tokens := mid, scenarioIndex := s, journal, stop } behind ht.references
        ⟨⟨hosts.sound.extensions, hosts.sound.target⟩, hosts.project⟩ next current entry m r.scenarios ht.single
        (chosen forScenarios) rest fuel
    have both : Lands (max 1 (w.levels + 1)) [.rule none, .rule none]
        ({ c with tokens := behind, scenarioIndex := s }.storing p kind i (e.scenario? s) e.id w.value)
        (matchSymbols (matchRule m) [.rule r.scenarioId, .rule r.scenarios]) env c :=
      one.rule_cons rfl rfl fun journal stop => .of_noise journal stop ((two journal stop).last_rule rfl)
    rw [Nat.max_eq_right (Nat.le_add_left 1 _)] at both
    refine Lands.pattern rfl both (by rfl) fun journal stop => ⟨journal, stop, ?_⟩
    -- then the first scenario is meant again
    have left : c.scenarioIndex = 0 := outside
    cases c
    subst left
    rfl

end
end Planfile
