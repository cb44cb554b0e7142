import Planfile.Proofs.Grammar.Determinism
import Planfile.Proofs.Matching.Choice
import Planfile.Proofs.Schema.Action
import Planfile.Proofs.Typing.Language

/-!
# Planfile — every project conforms to its schemas

In the language, the rules for what tasks and resources have stand in bodies of their kind alone, and
what they set has an entry in the schema. So whatever plan makes a project, with files that it includes
and attributes that it adds, each value in the project is one that the schema describes.

Main results:

* `Matcher.leads_matchSymbols`, `Matcher.leads_matchPattern` — the steps.
* `Matcher.led_matchRule` — rules have their effects, however deep they nest.
* `GrammarTable.follows_of_check` — where the check passes, rules have their effects.
* `Language.conforms_of_plan` — every project conforms to its schemas.
-/

/-!
## Every state conforms

A grammar whose rules have the effects that are said of them keeps to the schemas: wherever a rule
that can stand in a place has been matched there, the state conforms, and it is where the effect of the
rule says. For what the plan has added so far this holds as well, because it fits the schema.
-/

namespace Planfile

namespace Matcher

section
variable {t : GrammarTable} {effects : Effects} {matchRule : RuleId → Matcher (Option Value)}

/-- Whether a computation has an effect in a place, and leaves a state that conforms, wherever it comes
to its end. -/
def Leads (t : GrammarTable) (effects : Effects) (k : Place) (e : Effect) (m : Matcher α) : Prop :=
  ∀ env c a d, env.grammar = t → c.Conforming effects → c.place = k → e.Ready c →
    m env c = (.ok a, d) → d.Conforming effects ∧ e.Leads c d

/-- Whether rules have their effects. -/
def Led (t : GrammarTable) (effects : Effects) (matchRule : RuleId → Matcher (Option Value)) : Prop :=
  ∀ id k e, effects id k = some e → Leads t effects k e (matchRule id)

/-- A symbol has its effect. -/
theorem leads_matchSymbol (hm : Led t effects matchRule) {s : Symbol} {k : Place} {e : Effect}
    (h : s.effect? effects k = some e) : Leads t effects k e (matchSymbol matchRule s) := by
  intro env c item d he hc place ready run
  have terminal {a : Terminal} (hs : s.terminal? = some a) :
      d.Conforming effects ∧ Effect.stay.Leads c d := by
    obtain ⟨-, -, rfl⟩ := eq_of_run_terminal matchRule hs run
    exact hc.of_same rfl rfl rfl rfl
  cases s with
  | literal text =>
    cases h
    exact terminal rfl
  | tokenClass class? =>
    cases h
    exact terminal rfl
  | rule id =>
    obtain ⟨v, matched, -⟩ := exists_of_run_map run
    exact hm id k e h env c v d he hc place ready matched

/-- Symbols one after the other have their effect. -/
theorem leads_matchSymbols (hm : Led t effects matchRule) {symbols : List Symbol} {k : Place}
    {e : Effect} (h : effectAlong? effects k symbols = some e) :
    Leads t effects k e (matchSymbols matchRule symbols) := by
  induction symbols generalizing k e with
  | nil =>
    intro env c items d _ hc _ _ run
    cases h
    cases run
    exact ⟨hc, .refl c⟩
  | cons s symbols ih =>
    intro env c items d he hc place ready run
    obtain ⟨first, hf, rest⟩ := Option.bind_eq_some_iff.mp h
    obtain ⟨others, ho, joined⟩ := Option.bind_eq_some_iff.mp rest
    obtain ⟨item, x, one, more⟩ := exists_of_run_bind run
    obtain ⟨behind, more, -⟩ := exists_of_run_map more
    obtain ⟨conforms, leads⟩ := leads_matchSymbol hm hf env c item x he hc place
      (Effect.ready_of_andThen joined ready) one
    -- the other symbols stand where the first one leads
    have next : x.place = first.placeAfter k := place ▸ Effect.place_of_leads leads
    obtain ⟨still, goesOn⟩ := ih ho env x behind d he conforms next
      (Effect.ready_behind joined ready leads) more
    exact ⟨still, Effect.leads_andThen joined leads goesOn⟩

/-- What is done at the end of a pattern has its effect behind that of the symbols. Going back from a
body that they have entered leads to where they started. -/
theorem leads_endOf (ht : t.Follows effects) {a : Action} {k : Place} {e f : Effect}
    (h : a.endOf? k f = some e) {env : Surroundings} {c x d : Context} {v : Values}
    {value : Option Value} (he : env.grammar = t) (hx : x.Conforming effects) (place : c.place = k)
    (ready : e.Ready c) (leads : f.Leads c x)
    (run : a.perform matchRule v env x = (.ok value, d)) : d.Conforming effects ∧ e.Leads c d := by
  rw [Action.endOf?] at h
  by_cases closing : a = .property .close
  · subst closing
    rw [if_pos rfl] at h
    cases f with
    | enter kind =>
      cases h
      obtain ⟨_, y, closed, last⟩ := exists_of_run_bind run
      cases last
      exact leads_closeProperty leads hx closed
    | stay => cases h
    | start => cases h
  · rw [if_neg closing] at h
    obtain ⟨g, hg, joined⟩ := Option.bind_eq_some_iff.mp h
    have there : x.place = f.placeAfter k := place ▸ Effect.place_of_leads leads
    rw [← there] at hg
    obtain ⟨conforms, goesOn⟩ :=
      a.leads_perform v ht he hx hg (Effect.ready_behind joined ready leads) run
    exact ⟨conforms, Effect.leads_andThen joined leads goesOn⟩

/-- A pattern has its effect. -/
theorem leads_matchPattern (ht : t.Follows effects) (hm : Led t effects matchRule) {p : Pattern}
    {k : Place} {e : Effect} (h : p.effect? effects k = some e) :
    Leads t effects k e (matchPattern matchRule p) := by
  intro env c v d he hc place ready run
  rw [run_matchPattern] at run
  obtain ⟨items, x, symbols, acted⟩ := exists_of_run_bind run
  obtain ⟨f, hf, rest⟩ := Option.bind_eq_some_iff.mp h
  rw [performed] at acted
  cases action : p.action with
  | none =>
    rw [action] at rest acted
    cases rest
    cases acted
    exact leads_matchSymbols hm hf env c items _ he hc place ready symbols
  | some a =>
    rw [action] at rest acted
    have readyFirst : f.Ready c := by
      dsimp only at rest
      rw [Action.endOf?] at rest
      split at rest
      · exact Effect.ready_of_back rest
      · obtain ⟨g, -, joined⟩ := Option.bind_eq_some_iff.mp rest
        exact Effect.ready_of_andThen joined ready
    obtain ⟨conforms, leads⟩ := leads_matchSymbols hm hf env c items x he hc place readyFirst symbols
    obtain ⟨_, y, reported, acted⟩ := exists_of_run_bind acted
    -- what is reported is in the journal alone
    obtain ⟨still, stays⟩ : y.Conforming effects ∧ Onward x y := by
      cases reported
      exact conforms.of_same rfl rfl rfl rfl
    have behind := Effect.leads_andThen (Effect.andThen?_stay f) leads stays
    exact leads_endOf ht rest he still place ready behind acted

/-- What a plan has added has the effect of its rule. -/
theorem leads_added {c : Context} {p : Pattern} {id : RuleId} (hm : Led t effects matchRule)
    {env : Surroundings} (he : env.grammar = t) (hc : c.Conforming effects)
    (added : (id, p) ∈ c.extensions) {e : Effect} (h : effects id c.place = some e)
    {v : Option Value} {d : Context} (run : matchPattern matchRule p env c = (.ok v, d)) :
    d.Conforming effects ∧ e.Leads c d := by
  obtain ⟨q, there, kind, name, valueKind, specific, action, addable, described, onlyIn, symbols⟩ :=
    hc.extensions (id, p) added
  obtain ⟨place, rfl⟩ := onlyIn c.place e h
  rw [run_matchPattern] at run
  obtain ⟨items, x, matched, acted⟩ := exists_of_run_bind run
  obtain ⟨conforms, onward⟩ :=
    leads_matchSymbols hm symbols env c items x he hc place (fun h => by cases h) matched
  rw [performed, action] at acted
  obtain ⟨_, y, reported, acted⟩ := exists_of_run_bind acted
  obtain ⟨still, stays⟩ : y.Conforming effects ∧ Onward x y := by
    cases reported
    exact conforms.of_same rfl rfl rfl rfl
  have goesOn : Onward c y := onward.trans stays
  -- the entry that describes the value is still in the schema
  obtain ⟨r, hr, grows⟩ := goesOn.project q there
  have entry : ∀ p, y.project = some p →
      Plan.Describes (p.properties kind).definitions specific name valueKind := by
    intro p hp
    rw [hr] at hp
    cases hp
    exact described.mono (grows kind).definitions
  have inside : y.place = some kind := goesOn.place.trans place
  obtain ⟨stored, last⟩ := (moves_store still inside addable entry _).of_ok acted
  exact ⟨stored, goesOn.trans last⟩

/-- Choosing changes nothing about tasks and resources. -/
theorem onward_of_choose {env : Surroundings} {id : RuleId} {c d : Context} {chosen : Option Pattern}
    (hc : c.Conforming effects) (choice : choose id env c = (.ok chosen, d)) :
    d.Conforming effects ∧ Onward c d := by
  obtain ⟨⟨journal, rfl⟩, -⟩ := exists_of_run_choose choice
  exact hc.of_same rfl rfl rfl rfl

/-- An alternative that is in force has the effect of its rule. -/
theorem leads_of_mem (ht : t.Follows effects) (hm : Led t effects matchRule) {env : Surroundings}
    (he : env.grammar = t) {c d : Context} (hc : c.Conforming effects) {id : RuleId} {p : Pattern}
    {e : Effect} (h : effects id c.place = some e) (ready : e.Ready c)
    (mem : p ∈ (LiveGrammar.mk t c.extensions).patterns id) {v : Option Value}
    (run : matchPattern matchRule p env c = (.ok v, d)) : d.Conforming effects ∧ e.Leads c d := by
  rcases List.mem_append.mp mem with declared | added
  · have own := ht.patterns id c.place e h p declared
    exact leads_matchPattern ht hm own env c v d he hc rfl ready run
  · obtain ⟨⟨other, q⟩, mine, rfl⟩ := List.mem_map.mp added
    obtain ⟨listed, named⟩ := List.mem_filter.mp mine
    obtain rfl : other = id := beq_iff_eq.mp named
    exact leads_added hm he hc listed h run

/-- An alternative that has been chosen has the effect of its rule. -/
theorem leads_chosen (ht : t.Follows effects) (hm : Led t effects matchRule) {env : Surroundings}
    (he : env.grammar = t) {c x d : Context} (hc : c.Conforming effects) {id : RuleId} {p : Pattern}
    {e : Effect} (h : effects id c.place = some e) (ready : e.Ready c)
    (choice : choose id env c = (.ok (some p), x)) {v : Option Value}
    (run : matchPattern matchRule p env x = (.ok v, d)) : d.Conforming effects ∧ e.Leads c d := by
  obtain ⟨hx, onward⟩ := onward_of_choose hc choice
  obtain ⟨⟨journal, rfl⟩, mem⟩ := exists_of_run_choose choice
  have readyThere := Effect.ready_behind (Effect.stay_andThen? e) ready onward
  obtain ⟨conforms, leads⟩ :=
    leads_of_mem ht hm he hx (onward.place ▸ h) readyThere (he ▸ mem p rfl) run
  exact ⟨conforms, Effect.leads_andThen (Effect.stay_andThen? e) onward leads⟩

/-- A rule that is repeated stays in its place. -/
theorem onward_of_repeats (ht : t.Follows effects) (hm : Led t effects matchRule) {env : Surroundings}
    (he : env.grammar = t) {id : RuleId} {mayStop : Bool} {c d : Context} (hc : c.Conforming effects)
    (h : effects id c.place = some .stay) (run : Repeats matchRule id env mayStop c d) :
    d.Conforming effects ∧ Onward c d := by
  induction run with
  | stop choice =>
    -- where the rule has stopped is noted beside what tasks and resources have
    obtain ⟨chosen, onward⟩ := onward_of_choose hc choice
    exact onward.of_same chosen rfl rfl rfl rfl
  | next choice matched _ ih =>
    obtain ⟨conforms, onward⟩ : _ ∧ Onward _ _ :=
      leads_chosen ht hm he hc h (fun h => by cases h) choice matched
    obtain ⟨still, goesOn⟩ := ih conforms (onward.place ▸ h)
    exact ⟨still, onward.trans goesOn⟩

/-- The alternatives of a rule have its effect. -/
theorem leads_matchAlternatives (ht : t.Follows effects) (hm : Led t effects matchRule) (fuel : Nat) :
    Led t effects (matchAlternatives matchRule fuel) := by
  intro id k e h env c v d he hc place ready run
  subst he place
  rcases cases_of_run_matchAlternatives run with
    ⟨repeatable, all, -, repeated⟩ | ⟨-, optional, -, choice⟩ | ⟨-, p, x, choice, matched⟩
  · obtain rfl := ht.stays id c.place e h (.inr repeatable)
    exact onward_of_repeats ht hm rfl hc h (repeats_of_run repeated)
  · obtain rfl := ht.stays id c.place e h (.inl optional)
    exact onward_of_choose hc choice
  · exact leads_chosen ht hm rfl hc h ready choice matched

end

/-- Rules have their effects, however deep they nest. -/
theorem led_matchRule {t : GrammarTable} {effects : Effects} (ht : t.Follows effects) (fuel : Nat) :
    Led t effects (matchRule fuel) := by
  -- by induction on how deep rules may still nest
  induction fuel with
  | zero =>
    intro id k e _ env c v d _ _ _ _ run
    cases run
  | succ fuel ih =>
    intro id k e h env c v d he hc place ready run
    obtain ⟨-, x, alternatives, rfl⟩ := exists_of_run_matchRule run
    -- the depth is no part of what conforms
    obtain ⟨deeper, down⟩ : ({ c with depth := c.depth + 1 } : Context).Conforming effects ∧
        Onward c { c with depth := c.depth + 1 } := hc.of_same rfl rfl rfl rfl
    obtain ⟨conforms, leads⟩ :=
      leads_matchAlternatives ht ih fuel id k e h env _ v x he deeper place ready alternatives
    obtain ⟨still, up⟩ : ({ x with depth := x.depth - 1 } : Context).Conforming effects ∧
        Onward x { x with depth := x.depth - 1 } := conforms.of_same rfl rfl rfl rfl
    have below := Effect.leads_andThen (Effect.stay_andThen? e) down leads
    exact ⟨still, Effect.leads_andThen (Effect.andThen?_stay e) below up⟩

end Matcher

end Planfile

/-! ## The rules of the language -/

namespace Planfile

open Plan (PropertyKind)

namespace GrammarTable

/-! ## Checking a grammar -/

/-- All places. -/
def allPlaces : List Place := [none, some .task, some .resource]

theorem mem_allPlaces (k : Place) : k ∈ allPlaces := by
  cases k with
  | none => decide
  | some kind => cases kind <;> decide

section
variable (t : GrammarTable) (effects : Effects)

/-- Whether a rule is found to have its effect in a place, if it can stand there. -/
def checkEffect (id : RuleId) (k : Place) : Bool :=
  (effects id k).all fun e =>
    (t.rule id).patterns.all (·.effect? effects k == some e) &&
      (!((t.rule id).optional || (t.rule id).repeatable) || e == .stay)

/-- Whether rules are found to have their effects. -/
def checkEffects : Bool :=
  (List.range t.rules.size).all (fun i => allPlaces.all (t.checkEffect effects ⟨i⟩)) &&
    bodyRules.all (fun r => (t.ruleId? r.1).all fun id =>
      allPlaces.all fun k => (effects id k).all fun e => k == some r.2 && e == .stay) &&
    (t.ruleId? "referenceBody").all fun id => allPlaces.all fun k => effects id k == some .stay

variable {t effects}

/-- Where the check passes, rules have their effects. -/
theorem follows_of_check (h : t.checkEffects effects = true) : t.Follows effects := by
  rw [checkEffects, Bool.and_eq_true, Bool.and_eq_true, List.all_eq_true, List.all_eq_true] at h
  obtain ⟨⟨rules, bodies⟩, reference⟩ := h
  have checked := @rule_eq_default_or_of_all t (fun id => allPlaces.all (t.checkEffect effects id))
    fun i known => rules i (List.mem_range.mpr known)
  -- a check of all places is one of any place
  have inPlace {check : Place → Bool} (h : allPlaces.all check = true) (k : Place) : check k = true :=
    List.all_eq_true.mp h k (mem_allPlaces k)
  refine ⟨fun id k e h p hp => ?_, fun id k e h flags => ?_, fun r hr id known k e h => ?_,
    fun id known k => ?_⟩
  · rcases checked id with absent | passed
    · rw [absent] at hp
      cases hp
    · have rule := inPlace passed k
      rw [checkEffect, h, Option.all_some, Bool.and_eq_true] at rule
      exact beq_iff_eq.mp (List.all_eq_true.mp rule.1 p hp)
  · rcases checked id with absent | passed
    · rw [absent] at flags
      rcases flags with optional | repeatable
      · cases optional
      · cases repeatable
    · have rule := inPlace passed k
      rw [checkEffect, h, Option.all_some, Bool.and_eq_true] at rule
      rcases flags with optional | repeatable
      · simpa [optional] using rule.2
      · simpa [repeatable] using rule.2
  · have body := bodies r hr
    rw [known, Option.all_some] at body
    have passed := inPlace body k
    rw [h, Option.all_some, Bool.and_eq_true, beq_iff_eq, beq_iff_eq] at passed
    exact passed
  · rw [known, Option.all_some] at reference
    exact beq_iff_eq.mp (inPlace reference k)

end

end GrammarTable

namespace Language

/-- The rules that can stand in some places only, and their effects. All others can stand in any place
and stay there. -/
def places : List (String × List Place × Effect) := [
  ("project", [none], .start), ("projectHeader", [none], .start), ("properties", [none], .stay),
  ("task", [none, some .task], .stay), ("taskHeader", [none, some .task], .enter .task),
  ("taskBody", [some .task], .stay), ("taskAttributes", [some .task], .stay),
  ("taskScenarioAttributes", [some .task], .stay),
  ("resource", [none, some .resource], .stay),
  ("resourceHeader", [none, some .resource], .enter .resource),
  ("resourceBody", [some .resource], .stay), ("resourceAttributes", [some .resource], .stay),
  ("resourceScenarioAttributes", [some .resource], .stay),
  ("workinghours", [none, some .resource], .stay)]

/-- The effects of the rules of the language. -/
def effectsIn (t : GrammarTable) : Effects := fun id k =>
  match places.lookup (t.rule id).name with
  | none => some .stay
  | some (allowed, e) => if allowed.contains k then some e else none

/-- The rules of the language are found to have their effects, and a project starts outside of
bodies. -/
theorem check_effects :
    satisfies (fun t =>
      t.checkEffects (effectsIn t) &&
        (t.ruleId? "project").any (effectsIn t · none == some .start)) = true := by
  decide +kernel

/-- The rules of the language have their effects, and a project starts outside of bodies. -/
theorem exists_follows {table : GrammarTable} (h : grammar = .ok table) :
    table.Follows (effectsIn table) ∧
      ∃ id, table.ruleId? "project" = some id ∧ effectsIn table id none = some .start := by
  have found := of_satisfies check_effects h
  obtain ⟨checked, project⟩ := Bool.and_eq_true_iff.mp found
  refine ⟨GrammarTable.follows_of_check checked, ?_⟩
  obtain ⟨id, known, starts⟩ := (Option.any_eq_true _ _).mp project
  exact ⟨id, known, beq_iff_eq.mp starts⟩

open Matcher

/-- Before the first token there is nothing that could contradict a schema. -/
theorem conforming_initial (effects : Effects) (tokens : TokenSource) (journal : Log.Journal) :
    (Context.initial tokens journal).Conforming effects where
  project p hp := by cases hp
  extensions e he := by cases he
  target x hx := by cases hx

/-- Whatever plan makes a project, the ids of its schemas are distinct, and every value that a task or
a resource has, be it set, inherited, or one of an attribute that the plan has added, has the entry of
its name, is of the kind of the entry, and is a value of scenarios exactly if the entry is for these. -/
theorem conforms_of_plan {env : Surroundings} (h : grammar = .ok env.grammar) {tokens : TokenSource}
    {journal : Log.Journal} {p : Plan.Project} {c : Context}
    (run : plan env (Context.initial tokens journal) = (.ok p, c)) (kind : PropertyKind) :
    ((p.properties kind).definitions.map (·.id)).Nodup ∧
      ∀ q ∈ (p.properties kind).properties, ∀ id value, q.Stores id value →
        ∃ d ∈ (p.properties kind).definitions, d.id = id ∧ d.kind = value.kind ∧
          (q.HasPlain id ↔ d.scenarioSpecific = false) ∧
          (q.HasScenario id ↔ d.scenarioSpecific = true) := by
  obtain ⟨follows, id, known, starts⟩ := exists_follows h
  obtain ⟨v, d, parsed, -, there, -⟩ := exists_of_run_plan known run
  have initial := conforming_initial (effectsIn env.grammar) tokens journal
  -- the rule for projects starts one, at a time when there is none
  have led := led_matchRule follows ampleFuel id none .start starts
  obtain ⟨conforming, -⟩ := led env _ v d rfl initial rfl (fun _ => rfl) parsed
  have conforms := (conforming.project p there).sets kind
  exact ⟨conforms.distinct, fun q hq id value stored => conforms.exists_definition hq stored⟩

/-- A plan that adds two attributes to tasks, of which the first is inherited and the second is for
scenarios. -/
def annotatedPlan : TokenStream :=
  plainStream <| yearHeader ++
    [.mark .leftBrace, .id "extend", .id "task", .mark .leftBrace,
      .id "text", .id "Note", .string "A note", .mark .leftBrace, .id "inherit", .mark .rightBrace,
      .id "date", .id "Due", .string "Due date", .mark .leftBrace, .id "scenariospecific",
      .mark .rightBrace, .mark .rightBrace, .mark .rightBrace,
    .id "task", .id "work", .string "Work", .mark .leftBrace, .id "note", .string "first",
      .id "priority", .integer 700,
      .id "task", .id "a", .string "A", .mark .leftBrace, .id "due",
      .date ⟨2024, 6, 1, 0, 0, 0⟩, .mark .rightBrace, .mark .rightBrace,
    .id "resource", .id "team", .string "Team", .eof]

/-- The plan makes a project, in which the inner task has three values: two that it inherits and one
that is its own. -/
theorem run_annotatedPlan :
    satisfies (fun t =>
      (plan ⟨t, .empty, .default⟩
          (.initial (.ofStream annotatedPlan "main.tjp" none) .silent)).1.toOption.any fun p =>
        p.tasks.properties[1]?.any fun q =>
          q.attributes == [("Note", .text "first")] &&
            q.scenarioAttributes ==
              [[("Due", .date ⟨2024, 6, 1, 0, 0, 0⟩), ("priority", .integer 700)]]) = true := by
  decide +kernel

/-- The values of the inner task have their entries. -/
theorem conforms_of_plan_annotatedPlan :
    ∃ table p c, grammar = .ok table ∧
      plan ⟨table, .empty, .default⟩ (.initial (.ofStream annotatedPlan "main.tjp" none) .silent) =
        (.ok p, c) ∧
      ∃ q ∈ p.tasks.properties, q.Stores "Note" (.text "first") ∧
        ∃ d ∈ p.tasks.definitions, d.id = "Note" ∧ d.kind = .text ∧
          (q.HasPlain "Note" ↔ d.scenarioSpecific = false) ∧
          (q.HasScenario "Note" ↔ d.scenarioSpecific = true) := by
  obtain ⟨table, p, c, made, run, tasks⟩ := exists_run_of_check run_annotatedPlan
  obtain ⟨q, inner, values⟩ := (Option.any_eq_true _ _).mp tasks
  rw [Bool.and_eq_true, beq_iff_eq] at values
  have mem : q ∈ p.tasks.properties := Array.mem_of_getElem? inner
  have stored : q.Stores "Note" (.text "first") := by
    refine .inl ?_
    rw [values.1]
    exact List.mem_singleton_self _
  have entry := (@conforms_of_plan ⟨table, .empty, .default⟩ made _ _ p c run .task).2 q mem
    "Note" (.text "first") stored
  exact ⟨table, p, c, made, run, q, mem, stored, entry⟩

end Language

end Planfile
