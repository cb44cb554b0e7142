import Planfile.Proofs.Course.Invariant
import Planfile.Proofs.Course.Language
import Planfile.Proofs.Reference.Action

/-!
# Planfile — every project is intact

In the language, the lists of flags and of resources are made of names that have been looked up. So
whatever plan makes a project, all that the project refers to is there: the flags of tasks and resources
and those in expressions, the candidates of allocations, the tasks below which reports start, and the
scenarios of tables, of attributes in expressions, of orders and of reports.

Main results:

* `GrammarTable.casts_of_check` — where the check passes, rules have their roles.
* `Course.stays` — a rule that has been matched keeps references.
* `Language.intact_of_plan` — every project is intact.
-/

/-!
## References along the way

Rules have roles such that whatever is taken for a name has been looked up as one before. Then all that
has been matched, whatever it is, has kept references and gives values that serve in the roles of their
rules.
-/

namespace Planfile

open Matcher
open Plan (Known)

/-- The role of the strings of each rule, if they have one. -/
abbrev Roles := RuleId → Option Role

section
variable (roles : Roles)

/-- The role of a symbol. -/
def Symbol.role? : Symbol → Option Role
  | .rule id => roles id
  | _ => none

/-- The roles of the symbols of an alternative. -/
def Pattern.role? (p : Pattern) (i : Nat) : Option Role := p.symbols[i]?.bind (·.role? roles)

/-- Whether the rules of a grammar have some roles: their alternatives give what they say, and actions
get names for what they take for names. -/
structure GrammarTable.Casts (t : GrammarTable) : Prop where
  gives : ∀ id r, roles id = some r → ∀ p ∈ (t.rule id).patterns,
    ∃ a, p.action = some a ∧ a.role? (p.role? roles) = some r
  names : ∀ id, ∀ p ∈ (t.rule id).patterns, ∀ a, p.action = some a → ∀ i r,
    a.naming? = some (i, r) → p.role? roles i = some r
  extendable : ∀ id, t.IsExtendable id → roles id = none

/-! ## Checking a grammar -/

/-- Whether an alternative of a rule is found to give what it says and to get what it takes. -/
def Pattern.checkRoles (role : Option Role) (p : Pattern) : Bool :=
  role.all (fun r => p.action.any fun a => a.role? (p.role? roles) == some r) &&
    p.action.all fun a => a.naming?.all fun (i, r) => p.role? roles i == some r

/-- Whether rules are found to have their roles. -/
def GrammarTable.checkRoles (t : GrammarTable) : Bool :=
  (List.range t.rules.size).all (fun i =>
      (t.rule ⟨i⟩).patterns.all (·.checkRoles roles (roles ⟨i⟩))) &&
    extendableNames.all fun name => (t.ruleId? name).all fun id => roles id == none

end

section
variable {t : GrammarTable} {roles : Roles}

/-- Where the check passes, rules have their roles. -/
theorem GrammarTable.casts_of_check (h : t.checkRoles roles = true) : t.Casts roles := by
  obtain ⟨rules, extendable⟩ := Bool.and_eq_true_iff.mp h
  have checked (id : RuleId) {p : Pattern} (hp : p ∈ (t.rule id).patterns) :
      p.checkRoles roles (roles id) = true := by
    rcases @rule_eq_default_or_of_all t
      (fun id => (t.rule id).patterns.all (·.checkRoles roles (roles id)))
      (fun i known => List.all_eq_true.mp rules i (List.mem_range.mpr known)) id with absent | passed
    · rw [absent] at hp
      cases hp
    · exact List.all_eq_true.mp passed p hp
  refine ⟨fun id r hr p hp => ?_, fun id p hp a ha i r naming => ?_, fun id takes => ?_⟩
  · obtain ⟨gives, -⟩ := Bool.and_eq_true_iff.mp (checked id hp)
    rw [hr, Option.all_some] at gives
    obtain ⟨a, ha, role⟩ := (Option.any_eq_true _ _).mp gives
    exact ⟨a, ha, beq_iff_eq.mp role⟩
  · obtain ⟨-, names⟩ := Bool.and_eq_true_iff.mp (checked id hp)
    rw [ha, Option.all_some, naming, Option.all_some] at names
    exact beq_iff_eq.mp names
  · obtain ⟨name, mem, known⟩ := takes
    have own := List.all_eq_true.mp extendable name mem
    rw [known, Option.all_some] at own
    exact beq_iff_eq.mp own

/-- The alternatives of a rule, those that a plan can add included, give what the rule says. -/
theorem GrammarTable.Casts.serves (ht : t.Casts roles) {id : RuleId} {p : Pattern}
    (offered : t.Offers id p) {a : Action} (ha : p.action = some a) {k : Known} {v : Option Value}
    (h : Value.Serves k (a.role? (p.role? roles)) v) : Value.Serves k (roles id) v := by
  intro x hx
  obtain ⟨intact, names⟩ := h x hx
  refine ⟨intact, fun r hr => names r ?_⟩
  rcases offered with declared | ⟨extendable, -⟩
  · obtain ⟨b, hb, role⟩ := ht.gives id r hr p declared
    cases ha.symm.trans hb
    exact role
  · rw [ht.extendable id extendable] at hr
    cases hr

/-- Added attributes take nothing for names. -/
theorem GrammarTable.Casts.naming (ht : t.Casts roles) {id : RuleId} {p : Pattern}
    (offered : t.Offers id p) {a : Action} (ha : p.action = some a) {i : Nat} {r : Role}
    (naming : a.naming? = some (i, r)) : p.role? roles i = some r := by
  rcases offered with declared | ⟨-, e, -, -, action⟩
  · exact ht.names id p declared a ha i r naming
  · cases ha.symm.trans action
    cases naming

end

/-! ## Matched parts -/

section
variable {ofRule : RuleId → Shape} {effects : Effects} {env : Surroundings} {roles : Roles}

/-- References in the state, and values that serve in the roles of their symbols. -/
def references (roles : Roles) : Assertions where
  ask := Context.Intact
  follows c d := c.known.Within d.known
  fits _ := True
  serves c s v := Value.Serves c.known (s.role? roles) v

/-- The values of an alternative serve in the roles of its symbols. -/
theorem Values.serve_of_symbols {k : Known} {p : Pattern} {v : Values}
    (h : List.Forall₂ (fun s item => Value.Serves k (s.role? roles) item.value?) p.symbols v.items) :
    v.Serve k (p.role? roles) := by
  intro i
  unfold Pattern.role?
  rcases Values.cases_value h i with ⟨s, found, serves⟩ | ⟨-, none⟩
  · rw [found]
    exact serves
  · rw [none]
    exact Value.serves_none

/-- A terminal gives a text, a number or a time. -/
theorem serves_terminal {k : Known} {s : Symbol} {a : Terminal} (hs : s.terminal? = some a)
    (token : Token) : Value.Serves k (s.role? roles) (a.matched token).value? := by
  cases s with
  | literal text =>
    cases hs
    exact Value.serves_of_intact trivial
  | tokenClass c =>
    cases hs
    exact Value.serves_ofToken? token
  | rule id => cases hs

variable (ht : env.grammar.Casts roles) (typed : env.grammar.Typed ofRule)

include ht typed

/-- An action that can be performed keeps references, and gives what the rule of its alternative says. -/
theorem Prepared.stays {p : Pattern} {v : Values} {c d : Context}
    (h : Prepared env.grammar ofRule effects p v c) (hc : c.Intact)
    (hv : v.Serve c.known (p.role? roles)) {matchRule : RuleId → Matcher (Option Value)}
    {x : Option Value} (acted : performed matchRule p v.location v.items env c = (.ok x, d)) :
    c.StaysIntact d ∧ ∀ id, env.grammar.Offers id p → Value.Serves d.known (roles id) x := by
  rcases cases_of_run_performed acted with ⟨-, ⟨⟩, rfl⟩ | ⟨a, journal, ha, acted⟩
  · exact ⟨.refl hc, fun _ _ => Value.serves_none⟩
  · obtain ⟨id, offered⟩ := h.offered
    obtain ⟨s, gives, -⟩ := offered.typed typed
    rw [Pattern.gives?, ha] at gives
    -- the journal is no reference
    have noted : c.StaysIntact { c with journal } := hc.of_same rfl rfl rfl rfl
    obtain ⟨stays, serves⟩ := Action.stays_of_run_perform noted.intact (h.allows a ha) gives h.suits hv
      (fun i r naming => ht.naming offered ha naming) acted
    exact ⟨noted.trans stays, fun id offered => ht.serves offered ha serves⟩

/-- That references are good is an invariant. -/
theorem valueInvariant_references : ValueInvariant ofRule effects env (references roles) where
  refl _ := .refl _
  trans first second := first.trans second
  mono le serves := serves.mono le
  noise {c} hc journal depth stop := by
    -- the depth, the journal and the mark are no references
    have stays : c.StaysIntact { c with journal, depth, stop } := hc.of_same rfl rfl rfl rfl
    exact ⟨stays.intact, stays.within⟩
  next {c} hc _ := by
    have stays : c.StaysIntact (c.next env) := hc.of_same rfl rfl rfl rfl
    exact ⟨stays.intact, stays.within⟩
  chosen _ _ := trivial
  terminal _ hs _ := serves_terminal hs _
  absent _ _ _ := Value.serves_none
  collected _ serves := Value.serves_collected serves
  performed prepared _ hc serves acted := by
    obtain ⟨stays, gives⟩ := prepared.stays ht typed hc (Values.serve_of_symbols serves) acted
    exact ⟨⟨stays.intact, stays.within⟩, gives⟩

/-- A rule that has been matched keeps references, and gives a value that serves in its role. -/
theorem Course.stays {id : RuleId} {c d : Context} {v : Option Value}
    (course : Course ofRule effects env (.rule id) c v d) (hc : c.Intact) :
    c.StaysIntact d ∧ Value.Serves d.known (roles id) v := by
  obtain ⟨⟨intact, within⟩, serves⟩ := (valueInvariant_references ht typed).of_course course hc trivial
  exact ⟨⟨intact, within⟩, serves⟩

end

end Planfile

/-! ## The rules of the language -/

namespace Planfile.Language

open Matcher

/-- The rules whose strings are names. -/
def namingRules : List (String × Role) := [
  ("flag", .flag), ("moreFlagList", .flag), ("flagList", .flag), ("resourceId", .resource),
  ("moreResourceIds", .resource), ("resourceIds", .resource)]

/-- The roles of the rules of the language. -/
def rolesIn (t : GrammarTable) : Roles := fun id => namingRules.lookup (t.rule id).name

/-- The rules of the language are found to have their roles. -/
theorem check_roles :
    satisfies (fun t => t.checkRoles (rolesIn t)) = true := by
  decide +kernel

/-- The rules of the language have their roles. -/
theorem casts {table : GrammarTable} (h : grammar = .ok table) : table.Casts (rolesIn table) := by
  have found := of_satisfies check_roles h
  exact GrammarTable.casts_of_check found

/-- Whatever plan makes a project, all that the project refers to is there. Flags are declared, and those
of a task or a resource are different. An allocation has a candidate, and its candidates are resources. A
report starts below a task. Wherever there is the number of a scenario, at any nesting of an expression,
there is the scenario. -/
theorem intact_of_plan {env : Surroundings} (h : grammar = .ok env.grammar) {tokens : TokenSource}
    {journal : Log.Journal} {p : Plan.Project} {c : Context}
    (run : plan env (Context.initial tokens journal) = (.ok p, c)) : p.Intact := by
  obtain ⟨charted, -⟩ := exists_charted h
  obtain ⟨id, v, d, -, course, -, there, -⟩ := course_of_plan h run
  obtain ⟨stays, -⟩ := course.stays (casts h) charted.typed (Context.intact_initial tokens journal)
  exact stays.intact.project p there

/-- A plan with two scenarios, in which a task has flags and an allocation with an alternative, and a
report starts at this task and hides what has a flag or has started in the second scenario. -/
def referringPlan : TokenStream :=
  plainStream <| yearHeader ++
    [.mark .leftBrace, .id "scenario", .id "plan", .string "Plan", .mark .leftBrace,
      .id "scenario", .id "late", .string "Late", .mark .rightBrace, .mark .rightBrace,
    .id "flags", .id "a", .mark .comma, .id "b",
    .id "resource", .id "dev", .string "Dev", .id "resource", .id "ops", .string "Ops",
    .id "task", .id "work", .string "Work", .mark .leftBrace,
      .id "flags", .id "a", .mark .comma, .id "b", .mark .comma, .id "a",
      .id "allocate", .id "dev", .mark .leftBrace, .id "alternative", .id "ops", .mark .rightBrace,
      .mark .rightBrace,
    .id "export", .string "list", .mark .leftBrace, .id "taskroot", .id "work",
      .id "hidetask", .mark .leftParen, .id "a", .mark .pipe, .absoluteId "late.start",
      .mark .rightParen, .mark .ampersand, .mark .tilde, .id "b", .mark .rightBrace, .eof]

/-- The plan makes a project with what it says. -/
theorem run_referringPlan :
    satisfies (fun t =>
      (plan ⟨t, .empty, .default⟩
          (.initial (.ofStream referringPlan "main.tjp" none) .silent)).1.toOption.any fun p =>
        p.reports.any (·.element.taskRoot == some "work") &&
          p.tasks.properties[0]?.any fun q => q.scenarioAttributes ==
            [[("allocate", .allocations [⟨["dev", "ops"], .minLoaded, false, false⟩]),
              ("flags", .flags ["a", "b"])]]) = true := by
  decide +kernel

/-- What the project refers to is there, such as what its task is allocated to. -/
theorem intact_of_plan_referringPlan :
    ∃ table p c, grammar = .ok table ∧
      plan ⟨table, .empty, .default⟩ (.initial (.ofStream referringPlan "main.tjp" none) .silent) =
        (.ok p, c) ∧
      p.Intact ∧ ∃ q ∈ p.tasks.properties,
        q.Stores "allocate" (.allocations [⟨["dev", "ops"], .minLoaded, false, false⟩]) := by
  obtain ⟨table, p, c, made, run, content⟩ := exists_run_of_check run_referringPlan
  obtain ⟨-, tasks⟩ := Bool.and_eq_true_iff.mp content
  obtain ⟨q, first, values⟩ := (Option.any_eq_true _ _).mp tasks
  rw [beq_iff_eq] at values
  have stored : q.Stores "allocate" (.allocations [⟨["dev", "ops"], .minLoaded, false, false⟩]) := by
    refine .inr ?_
    rw [values]
    exact ⟨_, List.mem_singleton_self _, List.mem_cons_self⟩
  exact ⟨table, p, c, made, run,
    @intact_of_plan ⟨table, .empty, .default⟩ made _ _ p c run, q, Array.mem_of_getElem? first, stored⟩

end Planfile.Language
