import Planfile.Proofs.Entry.Links

/-!
# Planfile — relative ids of tasks

A relative id is read from both ends of the tree at once: each `!` is taken off its front and leads one level
up. Who has read all of them is either at a task, below which the rest of the id is, or has just left a root, and
then the rest is an id of its own. One `!` more than there are levels is one too many.

The id of a task says where this is, so what comes out can be said of the ids alone. It takes that a task below
another one has an id that starts with the id of that one, wherever a plan is being read.

Main results:

* `PropertySet.LiesAt.climb_of_le`, `PropertySet.LiesAt.climb_of_lt` — climbing leads along the path of a task.
* `PropertySet.LiesAt.resolveRelative?_of_gt` and its like — what a relative id stands for.
* `PropertySet.exists_liesAt` — in linked entries each task lies at the end of a path.
* `Language.relativeTask_of_visits` — relative ids, wherever a plan is being read.
-/

namespace Planfile.Plan.PropertySet

/-! ## Paths -/

/-- Whether a task lies at the end of a path, which has a part for each level from a root down, and has the
path for its id. -/
inductive LiesAt (tasks : PropertySet) : List String → Nat → Prop
  | root {i : Nat} {q : Property} (entry : tasks.get? i = some q) (top : q.parent = none) :
    LiesAt tasks [q.id] i
  | child {path : List String} {own : String} {i k : Nat} {q : Property} (above : LiesAt tasks path k)
    (entry : tasks.get? i = some q) (parent : q.parent = some k)
    (named : q.id = ".".intercalate (path ++ [own])) : LiesAt tasks (path ++ [own]) i

namespace LiesAt

variable {tasks : PropertySet} {path : List String} {i : Nat}

/-- A path has at least one part. -/
theorem length_pos (h : tasks.LiesAt path i) : 0 < path.length := by
  cases h <;> simp

/-- The path is the id. -/
theorem id_eq (h : tasks.LiesAt path i) {q : Property} (entry : tasks.get? i = some q) :
    q.id = ".".intercalate path := by
  cases h with
  | root entry' top =>
    obtain rfl := Option.some.inj (entry'.symm.trans entry)
    exact String.intercalate_singleton.symm
  | child above entry' parent named =>
    obtain rfl := Option.some.inj (entry'.symm.trans entry)
    exact named

theorem exists_entry (h : tasks.LiesAt path i) : ∃ q, tasks.get? i = some q := by
  cases h with
  | root entry top => exact ⟨_, entry⟩
  | child above entry parent named => exact ⟨_, entry⟩

/-- At a text that does not start with `!`, climbing has come to its end. -/
theorem climb_of_head {rest : List Char} (plain : rest.head? ≠ some '!') (current : Option Nat) :
    climb tasks current rest = (current, rest) := by
  unfold climb
  split
  · exact absurd rfl plain
  · rfl

/-- With a `!` for each level or more, climbing leaves the tree, and what is over is left. -/
theorem climb_of_le (h : tasks.LiesAt path i) {n : Nat} (far : path.length ≤ n) {rest : List Char} :
    climb tasks (some i) (List.replicate n '!' ++ rest) =
      (none, List.replicate (n - path.length) '!' ++ rest) := by
  -- by induction on the path, whose last level takes the first `!`
  induction h generalizing n with
  | root entry top =>
    obtain ⟨n, rfl⟩ := Nat.exists_eq_succ_of_ne_zero (Nat.ne_of_gt far)
    rw [List.replicate_succ, List.cons_append, Plan.climb, entry, Option.bind_some, top, climb_none]
    rfl
  | @child path own i k q above entry parent named ih =>
    rw [List.length_append, List.length_singleton] at far ⊢
    obtain ⟨n, rfl⟩ := Nat.exists_eq_succ_of_ne_zero (Nat.ne_of_gt (Nat.lt_of_lt_of_le (Nat.succ_pos _) far))
    rw [List.replicate_succ, List.cons_append, Plan.climb, entry, Option.bind_some, parent,
      ih (Nat.le_of_succ_le_succ far), Nat.succ_sub_succ]

/-- With fewer, it leads to the task that lies so many levels above. -/
theorem climb_of_lt (h : tasks.LiesAt path i) {n : Nat} (near : n < path.length) {rest : List Char}
    (plain : rest.head? ≠ some '!') :
    ∃ k, tasks.LiesAt (path.take (path.length - n)) k ∧
      climb tasks (some i) (List.replicate n '!' ++ rest) = (some k, rest) := by
  induction h generalizing n with
  | root entry top =>
    obtain rfl : n = 0 := Nat.lt_one_iff.mp near
    exact ⟨_, .root entry top, climb_of_head plain _⟩
  | @child path own i k q above entry parent named ih =>
    cases n with
    | zero =>
      refine ⟨i, ?_, climb_of_head plain _⟩
      rw [Nat.sub_zero, List.take_length]
      exact .child above entry parent named
    | succ n =>
      rw [List.length_append, List.length_singleton] at near ⊢
      obtain ⟨j, there, climbs⟩ := ih (Nat.lt_of_succ_lt_succ near)
      refine ⟨j, ?_, ?_⟩
      · rwa [Nat.succ_sub_succ, List.take_append_of_le_length (Nat.sub_le _ _)]
      · rw [List.replicate_succ, List.cons_append, Plan.climb, entry, Option.bind_some, parent]
        exact climbs

end LiesAt

/-! ## Relative ids -/

/-- The text of so many `!`. -/
def bangs (n : Nat) : String := String.ofList (List.replicate n '!')

variable {tasks : PropertySet} {path : List String} {i n : Nat} {rest : String}

theorem toList_bangs_append (n : Nat) (rest : String) :
    (bangs n ++ rest).toList = List.replicate n '!' ++ rest.toList := by
  rw [String.toList_append, bangs, String.toList_ofList]

/-- Outside of tasks there is no level to leave, so that one `!` is too many. -/
theorem resolveRelative?_outside (tasks : PropertySet) (some_bang : 0 < n) (rest : String) :
    resolveRelative? tasks none (bangs n ++ rest) = none := by
  obtain ⟨n, rfl⟩ := Nat.exists_eq_succ_of_ne_zero (Nat.ne_of_gt some_bang)
  rw [resolveRelative?, toList_bangs_append, climb_none]
  rfl

/-- More `!` than there are levels are too many. -/
theorem LiesAt.resolveRelative?_of_lt (h : tasks.LiesAt path i) (far : path.length < n) (rest : String) :
    resolveRelative? tasks (some i) (bangs n ++ rest) = none := by
  obtain ⟨excess, some_excess⟩ := Nat.exists_eq_succ_of_ne_zero (Nat.sub_ne_zero_of_lt far)
  rw [resolveRelative?, toList_bangs_append, h.climb_of_le (Nat.le_of_lt far), some_excess]
  rfl

/-- With one for each level the id is that of a root. -/
theorem LiesAt.resolveRelative?_of_eq (h : tasks.LiesAt path i) (plain : rest.toList.head? ≠ some '!') :
    resolveRelative? tasks (some i) (bangs path.length ++ rest) = some rest := by
  rw [resolveRelative?, toList_bangs_append, h.climb_of_le (Nat.le_refl _), Nat.sub_self,
    List.replicate_zero, List.nil_append]
  split
  · next starts =>
    rw [(Prod.mk.inj starts).2] at plain
    exact absurd rfl plain
  · next same =>
    cases same
    rw [Option.bind_none, String.ofList_toList]

/-- With fewer the id is below the task that lies so many levels above. -/
theorem LiesAt.resolveRelative?_of_gt (h : tasks.LiesAt path i) (near : n < path.length)
    (plain : rest.toList.head? ≠ some '!') :
    resolveRelative? tasks (some i) (bangs n ++ rest) =
      some (".".intercalate (path.take (path.length - n)) ++ "." ++ rest) := by
  obtain ⟨k, above, climbs⟩ := h.climb_of_lt near plain
  obtain ⟨a, entry⟩ := above.exists_entry
  rw [resolveRelative?, toList_bangs_append, climbs]
  split
  · next starts =>
    rw [(Prod.mk.inj starts).2] at plain
    exact absurd rfl plain
  · next same =>
    cases same
    rw [Option.bind_some, entry, String.ofList_toList, ← above.id_eq entry]

end Planfile.Plan.PropertySet

namespace Planfile

open Matcher
open Plan.PropertySet (bangs)

/-! ## Along the way through a plan -/

/-- In linked entries each task lies at the end of a path. -/
theorem Plan.PropertySet.exists_liesAt {r : EntryLists} (linked : r.Linked) {tasks : Plan.PropertySet}
    (same : r.headings .task = tasks.entryTable.headings) {i : Nat} {q : Plan.Property}
    (entry : tasks.get? i = some q) : ∃ path, tasks.LiesAt path i := by
  have heading {i : Nat} {q : Plan.Property} (entry : tasks.get? i = some q) :
      (r.headings .task)[i]? = some q.heading := by
    rw [same, tasks.getElem?_headings, entry, Option.map_some]
  -- by strong induction on the place, since parents come before their children
  induction i using Nat.strongRecOn generalizing q with
  | ind i ih =>
    cases top : q.parent with
    | none => exact ⟨_, .root entry top⟩
    | some k =>
      obtain ⟨a, own, above, named⟩ := linked.path i q.heading k (heading entry) top
      rw [same, tasks.getElem?_headings] at above
      obtain ⟨b, there, rfl⟩ := Option.map_eq_some_iff.mp above
      have before : k < i := linked.parent_lt .task i q.heading k (heading entry) top
      obtain ⟨path, lies⟩ := ih k before there
      refine ⟨path ++ [own], .child lies entry top ?_⟩
      have some_part : path ≠ [] := List.ne_nil_of_length_pos lies.length_pos
      rw [String.intercalate_append_of_ne_nil some_part (List.cons_ne_nil _ _), String.intercalate_singleton,
        ← lies.id_eq there]
      exact named

/-! ## What is read of a relative id -/

/-- A relative id is looked up from the task whose body is read. -/
theorem Matcher.run_relativeTask (env : Surroundings) {c : Context} {p : Plan.Project}
    (there : c.project = some p) (id : String) :
    relativeTask id env c =
      match Plan.resolveRelative? p.tasks (openProperty? c .task) id with
      | some full => (.ok full, c)
      | none => (.error (.error ⟨.semantic .tooManyBangs, c.tokens.lastLocation⟩), c) := by
  have project : Matcher.project env c = (.ok p, c) := by
    simp [Matcher.project, run_bind, there, orFail]
  rw [relativeTask, run_bind, project]
  cases found : Plan.resolveRelative? p.tasks (openProperty? c .task) id <;>
    simp [run_bind, found, orFail, fail, failAt]

end Planfile

namespace Planfile.Language

open Matcher
open Plan.PropertySet (bangs)

/-! ## In the language -/

section
variable {env : Surroundings} (h : grammar = .ok env.grammar) {tokens : TokenSource}
  {journal : Log.Journal} {id : RuleId} (known : env.grammar.ruleId? "project" = some id)

include h known

/-- Wherever matching comes, each task lies at the end of a path, which has a part for each level from a root
down to the task and is its id. In the body of the task a relative id with more `!` than the path has parts is
refused. With as many it stands for what is behind them, and with fewer, for what is behind them, below the
task that the path leads to without so many of its last parts. In the body of a resource, and in no body, each
relative id is refused. -/
theorem relativeTask_of_visits {n : Nat} {s : Stage} {c : Context}
    (visit : Visits env ampleFuel (.symbols [.rule id]) (.initial tokens journal) n s c)
    {p : Plan.Project} (there : c.project = some p) :
    (∀ i q, p.tasks.get? i = some q → ∃ path, p.tasks.LiesAt path i ∧ q.id = ".".intercalate path) ∧
    (∀ i path, p.tasks.LiesAt path i → ∀ k rest, 0 < k → rest.toList.head? ≠ some '!' →
      let d := { c with property := some (.task, i) }
      let refused := (.error ⟨.semantic .tooManyBangs, c.tokens.lastLocation⟩ : Stop)
      (path.length < k → relativeTask (bangs k ++ rest) env d = (.error refused, d)) ∧
      (k = path.length → relativeTask (bangs k ++ rest) env d = (.ok rest, d)) ∧
      (k < path.length → relativeTask (bangs k ++ rest) env d =
        (.ok (".".intercalate (path.take (path.length - k)) ++ "." ++ rest), d))) ∧
    (∀ property, property.all (·.1 = .resource) = true → ∀ k rest, 0 < k →
      let d := { c with property }
      relativeTask (bangs k ++ rest) env d =
        (.error (.error ⟨.semantic .tooManyBangs, c.tokens.lastLocation⟩), d)) ∧
    SemanticFault.tooManyBangs.message = "Too many '!' for relative task in this context" := by
  refine ⟨fun i q entry => ?_, fun i path lies k rest _ plain => ?_, fun property outside k rest some_bang => ?_, rfl⟩
  · have same : c.entryLists.headings .task = p.tasks.entryTable.headings := by
      rw [Context.entryLists_of_project there]
      rfl
    obtain ⟨path, lies⟩ := Plan.PropertySet.exists_liesAt (linked_of_visits h known visit) same entry
    exact ⟨path, lies, lies.id_eq entry⟩
  · have looked := run_relativeTask env (c := { c with property := some (.task, i) }) there (bangs k ++ rest)
    have current : openProperty? { c with property := some (.task, i) } .task = some i := rfl
    rw [current] at looked
    refine ⟨fun far => ?_, fun same => ?_, fun near => ?_⟩
    · rwa [lies.resolveRelative?_of_lt far] at looked
    · subst same
      rwa [lies.resolveRelative?_of_eq plain] at looked
    · rwa [lies.resolveRelative?_of_gt near plain] at looked
  · have looked := run_relativeTask env (c := { c with property }) there (bangs k ++ rest)
    -- in the body of a resource and in none there is no current task to go up from
    have current : openProperty? { c with property } .task = none := by
      unfold openProperty?
      cases property with
      | none => rfl
      | some current =>
        rw [Option.all_some, decide_eq_true_iff] at outside
        dsimp only
        rw [outside]
        rfl
    rwa [current, Plan.PropertySet.resolveRelative?_outside _ some_bang] at looked

end

/-- A plan with a task in the body of another one. -/
def nestedTaskPlan : TokenStream :=
  plainStream <| yearHeader ++
    [.id "task", .id "house", .string "House", .mark .leftBrace,
      .id "task", .id "roof", .string "Roof", .mark .rightBrace, .eof]

/-- Running the plan gives a task, and one below it. -/
theorem run_nestedTaskPlan :
    satisfies (fun t =>
      (plan ⟨t, .empty, .default⟩
        (.initial (.ofStream nestedTaskPlan "main.tjp" none) .silent)).1.toOption.any fun p =>
          (p.tasks.get? 0).map (fun q => (q.id, q.parent)) == some ("house", none) &&
            (p.tasks.get? 1).map (fun q => (q.id, q.parent)) == some ("house.roof", some 0)) = true := by
  decide +kernel

/-- In the body of the lower one, one `!` leads to what is below the other one, two lead to a root, and three
are too many. -/
theorem relativeTask_of_visits_nestedTaskPlan :
    ∃ table id c p d, grammar = .ok table ∧ table.ruleId? "project" = some id ∧
      Visits ⟨table, .empty, .default⟩ ampleFuel (.symbols [.rule id])
        (.initial (.ofStream nestedTaskPlan "main.tjp" none) .silent) ampleFuel (.symbols []) c ∧
      c.project = some p ∧ d = { c with property := some (.task, 1) } ∧
      p.tasks.LiesAt ["house", "roof"] 1 ∧
      relativeTask "!wall" ⟨table, .empty, .default⟩ d = (.ok "house.wall", d) ∧
      relativeTask "!!wall" ⟨table, .empty, .default⟩ d = (.ok "wall", d) ∧
      (relativeTask "!!!wall" ⟨table, .empty, .default⟩ d).1 =
        .error (.error ⟨.semantic .tooManyBangs, c.tokens.lastLocation⟩) := by
  obtain ⟨table, p, e, made, run, passed⟩ := exists_run_of_check run_nestedTaskPlan
  obtain ⟨-, id, known, -⟩ := exists_charted made
  obtain ⟨c, visit, there, -⟩ := @visits_of_plan ⟨table, .empty, .default⟩ _ _ _ known _ _ run
  simp only [Bool.and_eq_true, beq_iff_eq, Option.map_eq_some_iff] at passed
  obtain ⟨⟨house, first, ids⟩, roof, second, ids'⟩ := passed
  obtain ⟨named, top⟩ := Prod.mk.inj ids
  obtain ⟨named', parent⟩ := Prod.mk.inj ids'
  have lies : p.tasks.LiesAt ["house", "roof"] 1 := by
    have above : p.tasks.LiesAt ["house"] 0 := named ▸ .root first top
    exact .child above second parent (named'.trans (by decide))
  obtain ⟨-, below, -⟩ := relativeTask_of_visits made known visit there
  have looked (k : Nat) (some_bang : 0 < k) := below 1 _ lies k "wall" some_bang (by decide)
  exact ⟨table, id, c, p, _, made, known, visit, there, rfl, lies, (looked 1 (by decide)).2.2 (by decide),
    (looked 2 (by decide)).2.1 rfl, congrArg Prod.fst ((looked 3 (by decide)).1 (by decide))⟩

end Planfile.Language
