import Planfile.Proofs.Body.Language
import Planfile.Proofs.Course.Progress
import Planfile.Proofs.Course.Region
import Planfile.Proofs.Statement.Language
import Planfile.Proofs.Subtree.Action

/-!
# Planfile — a task touches nothing but its own subtree

A statement that adds a task or a resource is a header, a body and a way back. In the body stand attributes,
which are about the entry of the header, and further statements of this kind, which add entries below it. So
by induction on the tree of how a statement has been matched, it changes nothing of what was there before
but the list of the children of the entry in whose body it stands.

In the language, files are not included in the bodies of tasks and resources, and nothing that stands there is
about the whole project. So wherever a task is read, whatever stands in its body, the plan is behind it what
it was before, with one more task and those below it.

Main results:

* `Course.gains` — a statement that adds a task or a resource adds an entry below the current one.
* `Language.gains_of_visits` — reading a task, or a resource, adds an entry below the current one, and changes
  nothing else.
-/

namespace Planfile

open Matcher
open Plan (PropertyKind)

section
variable {clauses : RuleId → Clause} {inside : RuleId → Bool} {env : Surroundings} {c d x : Context}

/-- Whether a part of a body is about the entry of the body. -/
def Confined (c d : Context) : Prop :=
  ∀ kind i, c.property = some (kind, i) → Stays kind i c d

namespace Confined

theorem refl (c : Context) : Confined c c :=
  fun kind i _ => .refl kind i c

theorem trans (h : Confined c x) (hx : Confined x d) : Confined c d := by
  intro kind i current
  have first := h kind i current
  exact first.trans (hx kind i (first.property.trans current))

/-- The tokens ahead, the journal and the depth are no part of an entry. -/
theorem of_noise {tokens : TokenSource} {journal : Log.Journal} {depth : Nat} {stop : Option StopMark}
    (h : Confined { c with tokens, journal, depth, stop } d) : Confined c d := by
  intro kind i current
  have stays := h kind i current
  exact ⟨stays.property, stays.otherParts, stays.entries⟩

theorem noise (h : Confined c d) (tokens : TokenSource) (journal : Log.Journal) (depth : Nat)
    (stop : Option StopMark) : Confined c { d with tokens, journal, depth, stop } := by
  intro kind i current
  have stays := h kind i current
  exact ⟨stays.property, stays.otherParts, stays.entries⟩

end Confined

/-! ## Parts -/

/-- What a rule does that is for something. Files are not included in bodies, and reports do not stand
there. -/
def Clause.Does (c d : Context) : Clause → Prop
  | .plain => Confined c d
  | .header kind => Opens kind c d
  | .statement kind => Gains kind c d
  | .inclusion | .report => False

/-- What a part does. -/
def Part.Does (clauses : RuleId → Clause) (env : Surroundings) : Part → Context → Context → Prop
  | .rule id, c, d => (clauses id).Does c d
  | .repetition id _, c, d => clauses id = .plain → Confined c d
  | .pattern p, c, d => ∀ id, env.grammar.Offers id p → (clauses id).Does c d
  | .symbols ss, c, d => (headless clauses ss = true → Confined c d) ∧
    ∀ header body kind, ss = .rule header :: body → clauses header = .header kind →
      headless clauses body = true → ∃ x, Opens kind c x ∧ Confined x d

/-- A rule that is no header is about the entry in whose body it stands. -/
theorem Clause.Does.confined {id : RuleId} (h : (clauses id).Does c d)
    (other : (Symbol.rule id).head? clauses = none) : Confined c d := by
  cases clause : clauses id with
  | plain =>
    rw [clause] at h
    exact h
  | header kind =>
    simp only [Symbol.head?, clause] at other
    cases other
  | statement kind =>
    rw [clause] at h
    exact fun _ _ current => Gains.stays h current
  | inclusion | report =>
    rw [clause] at h
    exact h.elim

/-- What a rule does is not about the depth, the journal and the like. -/
theorem Clause.Does.noise {clause : Clause} (c : Context) {journal : Log.Journal} {before : Nat}
    (h : clause.Does { c with journal, depth := before } d) (depth : Nat) :
    clause.Does c { d with depth } := by
  cases clause with
  | plain => exact (Confined.of_noise h).noise _ _ _ _
  | header kind =>
    have opens : Opens kind _ _ := h
    exact ⟨opens.property, opens.place, opens.started, opens.otherParts, opens.entries⟩
  | statement kind =>
    have gains : Gains kind _ _ := h
    exact ⟨gains.property, gains.place, gains.started, gains.otherParts, gains.entries⟩
  | inclusion | report => exact h

variable {ofRule : RuleId → Shape} {effects : Effects} {reference : RuleId}
  (formed : env.grammar.Formed clauses) (encloses : env.grammar.Encloses inside Action.isOfBody)
  (known : env.grammar.ruleId? "referenceBody" = some reference)

namespace Part.Does

variable {id : RuleId} {p : Pattern}

include formed known

/-- An alternative does what its rule is for. -/
theorem pattern (within : p.isWithin inside Action.isOfBody = true) {items : List MatchedValue}
    {v : Option Value} {location : Location} {matchRule : RuleId → Matcher (Option Value)}
    (course : Course ofRule effects env (.symbols p.symbols) c items x)
    (prepared : Prepared env.grammar ofRule effects p ⟨items, location⟩ x)
    (acted : performed matchRule p location items env x = (.ok v, d))
    (h : (Part.symbols p.symbols).Does clauses env c x) : (Part.pattern p).Does clauses env c d := by
  intro id offered
  have form := formed.offers known offered
  have own := (Bool.and_eq_true_iff.mp within).2
  cases clause : clauses id with
  | plain =>
    rw [clause] at form
    obtain ⟨headless, plain⟩ := form
    refine (h.1 headless).trans ?_
    rcases cases_of_run_performed acted with ⟨-, ⟨⟩, rfl⟩ | ⟨a, journal, action, acted⟩
    · exact .refl _
    · rw [action, Option.all_some] at own
      have stays : Confined { x with journal } d := fun kind i current =>
        Action.stays_of_run _ own (plain a action) current acted
      exact .of_noise stays
  | header kind =>
    rw [clause] at form
    obtain rfl : p = headerPattern kind := form
    have terminals : (headerPattern kind).symbols.map (·.terminal?) =
        [Terminal.literal kind.word, .tokenClass .id, .tokenClass .string].map some := rfl
    obtain ⟨_, tokens, journal, -, -, rfl, -⟩ := course.of_terminals terminals
    obtain ⟨noted, run⟩ :=
      exists_run_performed matchRule (p := headerPattern kind) rfl location items env _
    rw [run] at acted
    have opens : Opens kind { c with tokens, journal := noted } d :=
      .of_header ⟨items, location⟩ (prepared.allows _ rfl).place_of_header acted
    exact ⟨opens.property, opens.place, opens.started, opens.otherParts, opens.entries⟩
  | statement kind =>
    rw [clause] at form
    obtain ⟨header, body, rfl, heads, headless⟩ := form
    obtain ⟨y, opens, inBody⟩ := h.2 header body kind rfl heads headless
    have closes : (statementPattern header body).action = some (.property .close) := rfl
    obtain ⟨journal, run⟩ := exists_run_performed matchRule closes location items env x
    rw [run] at acted
    have stays := inBody.noise x.tokens journal x.depth x.stop kind _ opens.property
    exact opens.closed ⟨items, location⟩ stays acted
  | inclusion =>
    -- no file is included in a body
    rw [clause] at form
    obtain rfl : p = includeStatement := form
    cases own
  | report =>
    -- and no report stands there
    rw [clause] at form
    obtain ⟨type, rfl, -⟩ := form
    cases own

omit formed known in
/-- A rule does what it is for, and symbols behind it are about the entry of the body. -/
theorem rule {symbols : List Symbol} (first : (Part.rule id).Does clauses env c x)
    (rest : (Part.symbols symbols).Does clauses env x d) :
    (Part.symbols (.rule id :: symbols)).Does clauses env c d := by
  refine ⟨fun headless => ?_, fun header body kind same heads headless => ?_⟩
  · obtain ⟨other, others⟩ := Bool.and_eq_true_iff.mp headless
    exact (Clause.Does.confined first (beq_iff_eq.mp other)).trans (rest.1 others)
  · cases same
    rw [Part.Does, heads] at first
    exact ⟨x, first, rest.1 headless⟩

end Part.Does

include formed encloses known

/-- A part of a body does what it is for. -/
theorem Course.does {part : Part} {o : part.Outcome} (course : Course ofRule effects env part c o d)
    (within : part.isWithin inside Action.isOfBody = true) : part.Does clauses env c d := by
  induction course with
  | @repeated id c d values repeatable _ ih =>
    have plain := formed.plain_of (.inr repeatable)
    have repeats : Clause.plain.Does { c with depth := c.depth + 1 } d := ih within plain
    rw [Part.Does, plain]
    exact repeats.noise c _
  | @absent id c d optional choice =>
    obtain ⟨⟨journal, rfl⟩, -⟩ := exists_of_run_choose choice
    rw [Part.Does, formed.plain_of (.inl optional)]
    exact (Confined.refl c).noise c.tokens journal _ c.stop
  | @once id c x d p v choice offered _ ih =>
    obtain ⟨⟨journal, rfl⟩, -⟩ := exists_of_run_choose choice
    exact (ih (encloses id within p offered) id offered).noise c _
  | @stop id c d choice =>
    obtain ⟨⟨journal, rfl⟩, -⟩ := exists_of_run_choose choice
    exact fun _ => (Confined.refl c).noise c.tokens journal c.depth _
  | @next id mayStop c x y d p v values choice offered _ _ ih ih' =>
    obtain ⟨⟨journal, rfl⟩, -⟩ := exists_of_run_choose choice
    intro plain
    have first := ih (encloses id within p offered) id offered
    rw [plain] at first
    -- a repeated rule is plain, so each round stays inside of the entry
    have confined : Confined { c with journal } y := first
    exact (confined.of_noise (c := c)).trans (ih' within plain)
  | pattern course prepared acted ih =>
    have symbols := (Bool.and_eq_true_iff.mp within).1
    exact .pattern formed known within course prepared acted (ih symbols)
  | nil => exact ⟨fun _ => .refl _, fun _ _ _ same => by cases same⟩
  | @terminal s a symbols c d items hs fits _ ih =>
    have rest := ih (Bool.and_eq_true_iff.mp within).2
    refine ⟨fun headless => ?_, fun header body kind same => ?_⟩
    · exact (rest.1 (Bool.and_eq_true_iff.mp headless).2).of_noise
    · cases same
      cases hs
  | reference _ _ ih ih' =>
    obtain ⟨first, others⟩ := Bool.and_eq_true_iff.mp within
    exact .rule (ih first) (ih' others)

end

end Planfile

namespace Planfile.Language

open Matcher
open Plan (PropertyKind)

/-! ## In the language -/

/-- The rules that can stand in the body of a task or a resource, and others of values alone. -/
def isOfBodies (t : GrammarTable) (id : RuleId) : Bool :=
  ! ["project", "projectHeader", "projectBody", "projectBodyAttributes", "properties", "include",
    "scenario", "scenarioHeader", "scenarioBody", "scenarioAttributes",
    "extendProperty", "extendBody", "extendAttributes",
    "report", "reportHeader", "reportBody", "reportAttributes", "columnDefs", "moreColumnDefs", "columnDef",
    "columnId", "columnBody", "columnOptions"].contains (t.rule id).name

/-- The rules of the bodies of tasks and resources are found to refer to none but themselves. -/
theorem check_ofBodies :
    satisfies (fun t =>
      t.checkWithin (isOfBodies t) Action.isOfBody) = true := by
  decide +kernel

/-- The rules of the bodies of tasks and resources refer to none but themselves. -/
theorem encloses_ofBodies {table : GrammarTable} (h : grammar = .ok table) :
    table.Encloses (isOfBodies table) Action.isOfBody := by
  have found := of_satisfies check_ofBodies h
  exact GrammarTable.encloses_of_check (fun _ _ _ => rfl) found

section
variable {env : Surroundings} (h : grammar = .ok env.grammar) {tokens : TokenSource}
  {journal : Log.Journal} {id : RuleId} (known : env.grammar.ruleId? "project" = some id)

include h known

/-- Wherever matching comes, the entry whose body is read is there. -/
theorem lt_size_of_visits {n : Nat} {s : Stage} {c : Context}
    (visit : Visits env ampleFuel (.symbols [.rule id]) (.initial tokens journal) n s c)
    {kind : PropertyKind} {i : Nat} (inside : c.property = some (kind, i)) :
    i < (c.entries kind).size := by
  obtain ⟨bodies, trail⟩ := visit.exists_trail (layoutIn env.grammar) []
  obtain ⟨shown, -⟩ := shows_of_trail h known trail
  obtain ⟨above, entry⟩ :=
    shown.holds.exists_entry ((shown.registers.property kind i).mp inside)
  have listed : i < (c.openScopes.above (.property kind)).length := (List.getElem?_eq_some_iff.mp entry).1
  unfold Context.openScopes at listed
  unfold Context.entries
  cases there : c.project with
  | none =>
    rw [there] at listed
    exact absurd listed (Nat.not_lt_zero i)
  | some p =>
    rw [there] at listed
    simpa [Plan.PropertySet.entryTable] using listed

/-- Wherever a task is read, or a resource, it stands in no body or in one of its kind. What is current there
is current behind it, the grammar is the same, and so are scenarios, settings, reports, both schemas and all
entries of the other kind. Of the entries that were there before none has changed, but that the current one has
got one more child as its last one: the entry of the statement, which comes behind all others. Whatever else is
new comes behind it and is below it. -/
theorem gains_of_visits {kind : PropertyKind} {rule : RuleId}
    (named : env.grammar.ruleId? kind.word = some rule) {n : Nat} {c : Context}
    (visit : Visits env ampleFuel (.symbols [.rule id]) (.initial tokens journal) n (.rule rule) c)
    {v : Option Value} {d : Context} (run : matchRule n rule env c = (.ok v, d)) :
    c.property.all (·.1 = kind) = true ∧ d.property = c.property ∧ d.extensions = c.extensions ∧
    d.extendTarget = c.extendTarget ∧
    ∃ p q, c.project = some p ∧ d.project = some q ∧
      q.scenarios = p.scenarios ∧ q.settings = p.settings ∧ q.reports = p.reports ∧
      (∀ other, (q.properties other).definitions = (p.properties other).definitions) ∧
      (∀ other, other ≠ kind → q.properties other = p.properties other) ∧
      (∀ i, c.property = some (kind, i) → i < (p.properties kind).length) ∧
      Plan.Adds (c.property.map (·.2)) (p.properties kind).properties (q.properties kind).properties := by
  obtain ⟨charted, -⟩ := exists_charted h
  obtain ⟨reference, body⟩ := charted.typed.extensible.reference
  obtain ⟨grounded, e, he, ready⟩ :=
    visit.stands charted (grounded_initial _ _ tokens journal) (stands_initial h known)
  have course := Course.of_run charted n rule c v d e grounded he ready run
  have within : isOfBodies env.grammar rule = true := by
    rw [isOfBodies, GrammarTable.name_of_ruleId? named]
    cases kind <;> decide
  have clause : clausesIn env.grammar rule = .statement kind := by
    rw [clausesIn, GrammarTable.name_of_ruleId? named]
    cases kind <;> decide
  have does := course.does (formed h) (encloses_ofBodies h) body within
  rw [Part.Does, clause] at does
  have gains : Gains kind c d := does
  obtain ⟨p, there⟩ := Option.ne_none_iff_exists'.mp gains.started
  obtain ⟨index, behind⟩ := Context.project_of_otherParts gains.otherParts there
  -- where it stands in a body the entry of the body is the one above
  have current : openProperty? c kind = c.property.map (·.2) := by
    have place := Context.property_of_place gains.place
    rw [← place]
    cases openProperty? c kind <;> rfl
  refine ⟨gains.place, gains.property, congrArg OtherParts.extensions gains.otherParts,
    congrArg OtherParts.target gains.otherParts, p, _, there, behind, ?_, ?_, ?_, fun other => ?_,
    fun other different => ?_, fun i inside => ?_, ?_⟩
  · cases kind <;> rfl
  · cases kind <;> rfl
  · cases kind <;> rfl
  · cases kind <;> cases other <;> rfl
  · rw [Plan.Project.withEntries, Plan.Project.properties_setProperties, if_neg (Ne.symm different)]
  · have listed := lt_size_of_visits h known visit inside
    rwa [Context.entries_of_project there] at listed
  · have entries := gains.entries
    rw [current, Context.entries_of_project there] at entries
    rwa [Plan.Project.properties_withEntries]

end

/-- A plan with a task that has a length and two other ones in its body, of which the second one has another
one in its own. -/
def branchingPlan : TokenStream :=
  plainStream <| yearHeader ++
    [.id "task", .id "a", .string "A", .mark .leftBrace,
      .id "task", .id "b", .string "B",
      .id "task", .id "c", .string "C", .mark .leftBrace, .id "priority", .integer 7,
        .id "task", .id "d", .string "D", .mark .rightBrace,
      .id "length", .integer 5, .id "d", .mark .rightBrace, .eof]

/-- Where a task is read in the body of another one that has a child already. -/
def isSecondChild (task id : RuleId) (c : Context) : Bool :=
  id == task && c.currentProperty?.any (·.children == [1])

/-- The plan has such a task. It is read in the body of the first one, and there are two more tasks then. -/
theorem seek_branchingPlan :
    satisfies (fun t =>
      (t.ruleId? "project").any fun id => (t.ruleId? "task").any fun task =>
        (seek ⟨t, .empty, .default⟩ (isSecondChild task) 40 ampleFuel (.symbols [.rule id])
          (.initial (.ofStream branchingPlan "main.tjp" none) .silent)).any fun (n, _, c) =>
            let r := matchRule n task ⟨t, .empty, .default⟩ c
            r.1.isOk && c.property == some (.task, 0) && (c.entries .task).size == 2 &&
              (r.2.entries .task).size == 4) = true := by
  decide +kernel

/-- Reading it changes no task of before but the first one. -/
theorem gains_of_visits_branchingPlan :
    ∃ table id task n c v d p q, grammar = .ok table ∧ table.ruleId? "project" = some id ∧
      table.ruleId? PropertyKind.task.word = some task ∧
      Visits ⟨table, .empty, .default⟩ ampleFuel (.symbols [.rule id])
        (.initial (.ofStream branchingPlan "main.tjp" none) .silent) n (.rule task) c ∧
      matchRule n task ⟨table, .empty, .default⟩ c = (.ok v, d) ∧
      c.project = some p ∧ d.project = some q ∧ p.tasks.length = 2 ∧ q.tasks.length = 4 ∧
      d.property = some (.task, 0) ∧ q.resources = p.resources ∧
      Plan.Adds (some 0) p.tasks.properties q.tasks.properties := by
  obtain ⟨table, made⟩ := exists_grammar
  have found := of_satisfies seek_branchingPlan made
  obtain ⟨id, known, found⟩ := (Option.any_eq_true _ _).mp found
  obtain ⟨task, named, found⟩ := (Option.any_eq_true _ _).mp found
  obtain ⟨⟨n, other, c⟩, sought, found⟩ := (Option.any_eq_true _ _).mp found
  obtain ⟨visit, wanted⟩ := Visits.of_seek sought
  obtain rfl : other = task := beq_iff_eq.mp (Bool.and_eq_true_iff.mp wanted).1
  simp only [Bool.and_eq_true, beq_iff_eq] at found
  obtain ⟨⟨⟨ends, inside⟩, before⟩, behind⟩ := found
  obtain ⟨v, d, run⟩ := exists_of_isOk ends
  rw [run] at behind
  obtain ⟨-, property, -, -, p, q, there, still, -, -, -, -, others, -, adds⟩ :=
    @gains_of_visits ⟨table, .empty, .default⟩ made _ _ id known .task other named n c visit v d run
  rw [Context.entries_of_project there] at before
  rw [Context.entries_of_project still] at behind
  rw [inside] at property adds
  exact ⟨table, id, other, n, c, v, d, p, q, made, known, named, visit, run, there, still, before, behind,
    property, others .resource (by decide), adds⟩

end Planfile.Language
