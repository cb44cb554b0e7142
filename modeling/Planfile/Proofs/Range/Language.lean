import Planfile.Proofs.Course.Invariant
import Planfile.Proofs.Course.Language
import Planfile.Proofs.Course.Progress
import Planfile.Proofs.Range.Action

/-!
# Planfile — every project is in range

In the language, what actions trust to be guarded is guarded: the dates of tasks and reports come from
rules that compare them with the time of the project, and added attributes have names with a capital
letter. The times of day are those that a text can be split into, so none is behind the end of the day.
So all along the way through a plan the values of its project are within their bounds. Among them is the
length of a tick, which is what lengths of time are divided by where a plan gives them.

Main results:

* `GrammarTable.trusting_of_check` — where the check passes, actions trust rules that guard their values.
* `Visits.inRange` — wherever matching comes, the project is in range.
* `Language.ranged_of_visits` — wherever matching comes, the project is within its bounds.
* `Session.ranged_of_process` — so is every project that a session makes.
-/

/-!
## Ranges along the way

What an action trusts to be guarded comes from a rule of which every alternative guards its value: this is
a check of the grammar. Then a project that is read stays in range at any time, and whatever has been
matched gives a value that is in order and is what its rule guards it for.
-/

namespace Planfile

open Matcher
open Calendar (Interval)

/-! ## Grammars -/

namespace GrammarTable

variable (t : GrammarTable)

/-- Whether every alternative of a rule guards its value, those that a plan can add included. -/
def Guards (id : RuleId) (g : Guard) : Prop :=
  ∀ p, t.Offers id p → ∃ a, p.action = some a ∧ a.guard? = some g

/-- Whether actions trust only rules that guard their values, and no rule stores an added attribute from
the start. -/
structure Trusting : Prop where
  trusts : ∀ id, ∀ p ∈ (t.rule id).patterns, ∀ a, p.action = some a → ∀ i g, a.trusts? = some (i, g) →
    ∃ other, p.symbols[i]? = some (.rule other) ∧ t.Guards other g
  stores : ∀ id, ∀ p ∈ (t.rule id).patterns, p.NamesCapital

/-- Whether every alternative of a rule is found to guard its value, and a plan cannot add others. -/
def checkGuards (id : RuleId) (g : Guard) : Bool :=
  (t.rule id).patterns.all (fun p => p.action.any fun a => a.guard? == some g) &&
    extendableNames.all fun name => t.ruleId? name != some id

/-- Whether the action of an alternative is found to trust a rule that guards its value. -/
def checkTrust (p : Pattern) : Bool :=
  p.action.all fun a =>
    (a.trusts?.all fun (i, g) => match p.symbols[i]? with
      | some (.rule id) => t.checkGuards id g
      | _ => false) &&
    match a with
    | .extend (.store _ _ _) => false
    | _ => true

/-- Whether actions are found to trust only rules that guard their values. -/
def checkTrusting : Bool :=
  (List.range t.rules.size).all fun i => (t.rule ⟨i⟩).patterns.all t.checkTrust

variable {t}

theorem guards_of_check {id : RuleId} {g : Guard} (h : t.checkGuards id g = true) : t.Guards id g := by
  obtain ⟨all, fixed⟩ := Bool.and_eq_true_iff.mp h
  rintro p (declared | ⟨⟨name, mem, known⟩, -⟩)
  · obtain ⟨a, action, guards⟩ := (Option.any_eq_true _ _).mp (List.all_eq_true.mp all p declared)
    exact ⟨a, action, beq_iff_eq.mp guards⟩
  · have other := List.all_eq_true.mp fixed name mem
    rw [known] at other
    simp at other

/-- Where the check passes, actions trust only rules that guard their values. -/
theorem trusting_of_check (h : t.checkTrusting = true) : t.Trusting := by
  have checked (id : RuleId) {p : Pattern} (hp : p ∈ (t.rule id).patterns) : t.checkTrust p = true := by
    rcases @rule_eq_default_or_of_all t (fun id => (t.rule id).patterns.all t.checkTrust)
      (fun i known => List.all_eq_true.mp h i (List.mem_range.mpr known)) id with absent | passed
    · rw [absent] at hp
      cases hp
    · exact List.all_eq_true.mp passed p hp
  refine ⟨fun id p hp a ha i g trusts => ?_, fun id p hp name kind specific ha => ?_⟩
  · have found := checked id hp
    rw [checkTrust, ha, Option.all_some, trusts, Option.all_some] at found
    obtain ⟨guards, -⟩ := Bool.and_eq_true_iff.mp found
    dsimp only at guards
    split at guards
    · next other symbol => exact ⟨other, symbol, guards_of_check guards⟩
    · cases guards
  · have found := checked id hp
    rw [checkTrust, ha, Option.all_some] at found
    exact absurd (Bool.and_eq_true_iff.mp found).2 Bool.false_ne_true

/-- An attribute that a plan adds trusts nothing. -/
theorem Trusting.trusts_of_offers (h : t.Trusting) {id : RuleId} {p : Pattern} (offered : t.Offers id p)
    {a : Action} (action : p.action = some a) {i : Nat} {g : Guard} (trusts : a.trusts? = some (i, g)) :
    ∃ other, p.symbols[i]? = some (.rule other) ∧ t.Guards other g := by
  rcases offered with declared | ⟨-, e, -, -, stores⟩
  · exact h.trusts id p declared a action i g trusts
  · cases action.symm.trans stores
    cases trusts

end GrammarTable

/-! ## Values of symbols -/

/-- Whether the value of a symbol is in order, and is what its rule guards it for, if the symbol is a
reference to a rule. -/
structure Value.Safe (t : GrammarTable) (time : Option Interval) (s : Symbol) (v : Option Value) : Prop where
  inOrder : ItemsInOrder v
  passes : ∀ id g, s = .rule id → t.Guards id g → ∀ x, v = some x → x.Passes time g

namespace Value

variable {t : GrammarTable} {time later : Option Interval} {s : Symbol}

/-- What passes while a project is read passes later as well. -/
theorem Passes.mono {x : Value} {g : Guard} (h : x.Passes time g)
    (le : ∀ i, time = some i → later = some i) : x.Passes later g := by
  unfold Passes at h ⊢
  split at h
  · obtain ⟨i, there, within⟩ := h
    exact ⟨i, le i there, within⟩
  · obtain ⟨i, there, covers⟩ := h
    exact ⟨i, le i there, covers⟩
  · exact h
  · trivial

theorem Safe.mono {v : Option Value} (h : Safe t time s v) (le : ∀ i, time = some i → later = some i) :
    Safe t later s v :=
  ⟨h.inOrder, fun id g rule guards x hx => (h.passes id g rule guards x hx).mono le⟩

theorem safe_none : Safe t time s none :=
  ⟨itemsInOrder_none, fun _ _ _ _ x hx => by cases hx⟩

/-- A list is not looked at as a date, and is in order if its members are. -/
theorem safe_collected {items : List Value} (h : ∀ x ∈ items, Safe t time s (some x)) :
    Safe t time s (collected items) := by
  refine ⟨itemsInOrder_collected fun x hx => (h x hx).inOrder, fun id g _ _ x hx => ?_⟩
  unfold collected at hx
  split at hx <;> cases hx
  cases g <;> trivial

/-- The value of a token is in order. -/
theorem safe_terminal {a : Terminal} (hs : s.terminal? = some a) {token : Token}
    (h : ItemsInOrder (ofToken? token)) : Safe t time s (a.matched token).value? := by
  refine ⟨?_, fun id g rule => ?_⟩
  · cases a with
    | literal text => exact itemsInOrder_self rfl trivial
    | tokenClass c => exact h
  · rw [rule] at hs
    cases hs

end Value

/-! ## Matched parts -/

section
variable {ofRule : RuleId → Shape} {effects : Effects} {env : Surroundings} {start : TokenSource}

/-- A project in range with values that are safe, while tokens of some source are read. -/
def ranges (env : Surroundings) (start : TokenSource) : Assertions where
  ask c := c.InRange ∧ start.Reaches env.preferences env.files c.tokens
  follows c d := ∀ t, c.time? = some t → d.time? = some t
  fits p := p.NamesCapital
  serves c s v := Value.Safe env.grammar c.time? s v

variable (ht : env.grammar.Trusting) (typed : env.grammar.Typed ofRule)
  (anchored : TokenSource.Anchored env.preferences env.files start start)
  (main : ∀ t ∈ start.top.stream.all, Lexer.Formed t.token)

include ht typed

/-- An action that can be performed keeps the project in range, and gives a value that is safe. -/
theorem Prepared.inRange {p : Pattern} {v : Values} {c d : Context}
    (h : Prepared env.grammar ofRule effects p v c) (names : p.NamesCapital) (hc : c.InRange)
    (safe : List.Forall₂ (fun s item => Value.Safe env.grammar c.time? s item.value?) p.symbols v.items)
    {matchRule : RuleId → Matcher (Option Value)} {x : Option Value}
    (acted : performed matchRule p v.location v.items env c = (.ok x, d)) :
    c.StaysInRange d ∧ ∀ id, env.grammar.Offers id p → Value.Safe env.grammar d.time? (.rule id) x := by
  rcases cases_of_run_performed acted with ⟨-, ⟨⟩, rfl⟩ | ⟨a, journal, ha, acted⟩
  · exact ⟨.refl hc, fun _ _ => Value.safe_none⟩
  · obtain ⟨id, offered⟩ := h.offered
    obtain ⟨s, judged, -⟩ := offered.typed typed
    rw [Pattern.gives?, ha] at judged
    have hv : v.InOrder := by
      intro i
      rcases Values.cases_value safe i with ⟨s, -, holds⟩ | ⟨-, none⟩
      · exact holds.inOrder
      · rw [none]
        exact Value.itemsInOrder_none
    have trusted : ∀ i g, a.trusts? = some (i, g) → ∀ x, v.value? i = some x → x.Passes c.time? g := by
      intro i g trusts
      obtain ⟨other, symbol, guards⟩ := ht.trusts_of_offers offered ha trusts
      rcases Values.cases_value safe i with ⟨s, found, holds⟩ | ⟨missing, -⟩
      · cases symbol.symm.trans found
        exact holds.passes other g rfl guards
      · cases symbol.symm.trans missing
    -- the journal has no range
    have noted : c.StaysInRange { c with journal } := hc.of_gauges rfl
    have stays := noted.trans (Action.staysInRange_of_run noted.inRange (h.allows a ha) judged hv trusted
      (fun id kind specific same => names id kind specific (same ▸ ha)) acted)
    refine ⟨stays, fun id offered => ⟨Action.gives_inOrder hv judged env _ x d acted, ?_⟩⟩
    intro other g rule guards
    cases rule
    obtain ⟨b, hb, guard⟩ := guards p offered
    cases ha.symm.trans hb
    exact Action.passes_of_run guard acted

include anchored main

/-- That all is in range is an invariant. -/
theorem valueInvariant_ranges : ValueInvariant ofRule effects env (ranges env start) where
  refl _ _ time := time
  trans first second t time := second t (first t time)
  mono follows safe := safe.mono follows
  noise {c} hc journal depth stop := by
    obtain ⟨inRange, reaches⟩ := hc
    -- the depth, the journal and the mark have no range
    have stays : c.StaysInRange { c with journal, depth, stop } := inRange.of_gauges rfl
    exact ⟨⟨stays.inRange, reaches⟩, stays.time⟩
  next {c} hc notEof := by
    obtain ⟨inRange, reaches⟩ := hc
    have stays : c.StaysInRange (c.next env) := inRange.of_gauges rfl
    exact ⟨⟨stays.inRange, (stateInvariant_reaches ofRule effects env start).next c notEof reaches⟩,
      stays.time⟩
  chosen {c id p} hc among := by
    rcases List.mem_append.mp among with declared | added
    · exact ht.stores id p declared
    · obtain ⟨e, mine, rfl⟩ := List.mem_map.mp added
      exact hc.1.added e (List.mem_filter.mp mine).1
  terminal hc hs _ := by
    have here := TokenSource.anchored_of_reaches anchored hc.2
    exact Value.safe_terminal hs (Value.itemsInOrder_ofToken? (here.formed_peek main))
  absent _ _ _ := Value.safe_none
  collected _ safe := Value.safe_collected safe
  performed {matchRule p v x c d} prepared names hc safe acted := by
    obtain ⟨inRange, reaches⟩ := hc
    obtain ⟨stays, gives⟩ := prepared.inRange ht typed names inRange safe acted
    have goesOn :=
      (stateInvariant_reaches ofRule effects env start).performed matchRule p v c prepared reaches
    rw [acted] at goesOn
    exact ⟨⟨⟨stays.inRange, goesOn⟩, stays.time⟩, gives⟩

/-- Wherever matching comes, the project is in range. -/
theorem Visits.inRange (follows : env.grammar.Follows effects) {n m : Nat} {s s' : Stage}
    {journal : Log.Journal} {x : Context} (visit : Visits env n s (.initial start journal) m s' x)
    (grounded : (Context.initial start journal).Grounded env.grammar effects)
    (stands : s.Stands env.grammar ofRule effects (.initial start journal)) {p : Plan.Project}
    (there : x.project = some p) : p.InRange := by
  have initial : (ranges env start).ask (.initial start journal) :=
    ⟨Context.inRange_initial start journal, .start⟩
  obtain ⟨inRange, -⟩ :=
    (valueInvariant_ranges ht typed anchored main).of_visits ⟨typed, follows⟩ visit grounded stands initial
  exact inRange.project p there

end

end Planfile

/-! ## The rules of the language -/

namespace Planfile

open Matcher

namespace Language

/-- Actions of the language are found to trust only rules that guard their values. -/
theorem check_trusting : satisfies (·.checkTrusting) = true := by
  decide +kernel

/-- Actions of the language trust only rules that guard their values. -/
theorem trusting {table : GrammarTable} (h : grammar = .ok table) : table.Trusting := by
  have found := of_satisfies check_trusting h
  exact GrammarTable.trusting_of_check found

/-- Wherever matching comes on the way through a plan, the project is within its bounds. -/
theorem ranged_of_visits {env : Surroundings} (h : grammar = .ok env.grammar) {tokens : TokenSource}
    {journal : Log.Journal} {id : RuleId} (known : env.grammar.ruleId? "project" = some id)
    (anchored : TokenSource.Anchored env.preferences env.files tokens tokens)
    (main : ∀ t ∈ tokens.top.stream.all, Lexer.Formed t.token) {n : Nat} {s : Stage} {x : Context}
    (visit : Visits env ampleFuel (.symbols [.rule id]) (.initial tokens journal) n s x)
    {p : Plan.Project} (there : x.project = some p) : p.Ranged := by
  obtain ⟨charted, -⟩ := exists_charted h
  have start := grounded_initial env.grammar (effectsIn env.grammar) tokens journal
  obtain ⟨grounded, -⟩ := visit.stands charted start (stands_initial h known)
  have inRange := visit.inRange (trusting h) charted.typed anchored main charted.follows start
    (stands_initial h known) there
  exact inRange.ranged (grounded.conforming.project p there)

end Language

namespace Session

/-- The project of a plan that a session processes is within its bounds, and so is the project of every
state that matching has come to on the way. -/
theorem ranged_of_process {s s' : Session} {input : PlanInput} {r : Processed}
    (h : s.process input = (.ok r, s')) :
    r.project.Ranged ∧ ∃ start grammar journal c id, s.source input = .ok start ∧
      Language.grammar = .ok grammar ∧ grammar.ruleId? "project" = some id ∧
      plan ⟨grammar, s.files, s.preferences⟩ (.initial start journal) = (.ok r.project, c) ∧
      ∀ n stage x p, Visits ⟨grammar, s.files, s.preferences⟩ ampleFuel (.symbols [.rule id])
          (.initial start journal) n stage x → x.project = some p → p.Ranged := by
  obtain ⟨content, main, source, name, path, grammar, journal, c, -, lexed, there, made, run, -⟩ :=
    exists_plan_of_process_ok (congrArg Prod.fst h)
  let start := TokenSource.ofStream (.ofTokens main source) name path
  let env : Surroundings := ⟨grammar, s.files, s.preferences⟩
  obtain ⟨-, id, known, -⟩ := Language.exists_charted made
  -- the tokens ahead are those of texts that have been split
  have anchored : TokenSource.Anchored env.preferences env.files start start :=
    TokenSource.anchored_ofStream lexed source name path
  have formed : ∀ t ∈ start.top.stream.all, Lexer.Formed t.token := fun t ht =>
    Lexer.formed_of_produces ⟨_, _, main, t.span, lexed, ht⟩
  have ranged : ∀ n stage x p, Visits env ampleFuel (.symbols [.rule id]) (.initial start journal)
      n stage x → x.project = some p → p.Ranged := fun n stage x p visit project =>
    Language.ranged_of_visits made known anchored formed visit project
  obtain ⟨x, visit, project, -⟩ := Language.visits_of_plan known run
  exact ⟨ranged _ _ x _ visit project, start, grammar, journal, c, id, there, made, known, run, ranged⟩

/-- The text of a plan with values at their bounds: one task starts with the project and the other ends
with it, the inner one has inherited the greatest priority, and on Fridays work is done until midnight. -/
def boundedPlan : String :=
  "project p \"P\" \"1\" 2024-01-01 - 2025-01-01 \x7b timingresolution 30 min \x7d\n" ++
  "vacation \"New Year\" 2024-01-01 - 2024-01-02\n" ++
  "resource dev \"Dev\" \x7b vacation 2024-07-01 + 14 d workinghours fri 16:00 - 24:00 \x7d\n" ++
  "task a \"A\" \x7b priority 1000 start 2024-01-01 task b \"B\" \x7b end 2025-01-01 \x7d \x7d\n" ++
  "export \"list\" \x7b period 2024-02-01 - 2024-04-01 end 2025-01-01 \x7d"

/-- It is processed, and its project has these values. -/
theorem exists_process_boundedPlan :
    ∃ r s', quiet.process (.text "main.tjp" boundedPlan) = (.ok r, s') ∧
      r.project.settings.scheduleGranularity = 1800 ∧
      (∃ q ∈ r.project.tasks.properties, q.Stores "priority" (.integer 1000) ∧
        q.Stores "end" (.date r.project.stop)) ∧
      ∃ q ∈ r.project.resources.properties, ∃ hours, q.Stores "workinghours" (.workingHours hours) ∧
        hours.on 5 = [⟨57600, 86400⟩] := by
  let hours := Calendar.WorkingHours.office.set 5 [⟨57600, 86400⟩]
  let check (p : Plan.Project) : Bool := p.settings.scheduleGranularity == 1800 &&
    (p.tasks.properties[1]?.any fun q => q.scenarioAttributes ==
      [[("end", .date p.stop), ("forward", .boolean false), ("priority", .integer 1000)]]) &&
    p.resources.properties[0]?.any (·.attributes == [("workinghours", .workingHours hours)])
  obtain ⟨outcome, s', run, passed⟩ := Language.exists_process_of_check quiet "main.tjp" boundedPlan
    (fun outcome => outcome.toOption.any fun r => check r.project) (by decide +kernel)
  cases outcome with
  | error e => cases passed
  | ok r =>
    obtain ⟨front, resources⟩ := Bool.and_eq_true_iff.mp passed
    obtain ⟨granularity, tasks⟩ := Bool.and_eq_true_iff.mp front
    obtain ⟨task, inner, values⟩ := (Option.any_eq_true _ _).mp tasks
    obtain ⟨resource, first, own⟩ := (Option.any_eq_true _ _).mp resources
    rw [beq_iff_eq] at granularity values own
    refine ⟨r, s', run, granularity, ⟨task, Array.mem_of_getElem? inner, ?_, ?_⟩,
      resource, Array.mem_of_getElem? first, hours, ?_, rfl⟩
    · exact .inr ⟨_, values ▸ List.mem_singleton_self _, by simp⟩
    · exact .inr ⟨_, values ▸ List.mem_singleton_self _, by simp⟩
    · exact .inl (own ▸ List.mem_singleton_self _)

/-- Its values are within their bounds. -/
theorem ranged_of_process_boundedPlan :
    ∃ r s', quiet.process (.text "main.tjp" boundedPlan) = (.ok r, s') ∧
      r.project.settings.scheduleGranularity = 1800 ∧
      (∃ q ∈ r.project.tasks.properties, q.Stores "priority" (.integer 1000) ∧
        q.Stores "end" (.date r.project.stop)) ∧
      (∃ q ∈ r.project.resources.properties, ∃ hours, q.Stores "workinghours" (.workingHours hours) ∧
        hours.on 5 = [⟨57600, 86400⟩]) ∧ r.project.Ranged := by
  obtain ⟨r, s', run, granularity, task, resource⟩ := exists_process_boundedPlan
  obtain ⟨ranged, -⟩ := ranged_of_process run
  exact ⟨r, s', run, granularity, task, resource, ranged⟩

end Session

end Planfile
