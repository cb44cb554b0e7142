import Planfile.Proofs.Allocation.Statement
import Planfile.Proofs.Hours.Table
import Planfile.Proofs.Statement.Derivation

/-!
# Planfile — what is allocated to tasks

Each task holds allocations for each scenario. A statement about allocations adds to those of the task in whose
body it stands, for the scenario that has been chosen for it, or for the first one. A task starts with what the
one around it holds at that moment, and no statement in its body reaches the one around.

A scenario is chosen by its id, for one attribute. Its number is that of the id among those that are there, and
these are those that have been declared; as long as none has been declared there is that of the start.

Main results:

* `AllocationTable.run_body` — what the statements in the body of a task make of what it holds.
* `AllocationTable.of_run` — what the statements of a plan make of what its tasks hold.
-/

namespace Planfile

open Plan (Allocation AllocationStatement PropertyKind)

/-! ## The scenario that is meant -/

/-- What is said that matters to allocations. -/
inductive AllocationNote where
  /-- A scenario is declared. -/
  | declares (scenario : String)
  /-- The next attribute is meant for a scenario. -/
  | chooses (scenario : String)
  /-- What comes next is meant for the first scenario again. -/
  | leaves
  | allocates (statements : List AllocationStatement)
  /-- There is another attribute of a task. -/
  | other
  deriving DecidableEq, Repr

/-- Which scenarios there are and which one is meant. -/
@[ext] structure ScenarioChoice where
  /-- The ids of the scenarios. -/
  ids : List String
  /-- Whether the scenario of the start has given way to those that are declared. -/
  replaced : Bool
  /-- The number of the scenario that is meant. -/
  chosen : Nat

namespace ScenarioChoice

/-- The choice of the start. -/
def initial : ScenarioChoice := ⟨["plan"], false, 0⟩

/-- The first scenario is meant. -/
def first (c : ScenarioChoice) : ScenarioChoice := { c with chosen := 0 }

/-- What becomes of the choice by what is said. -/
def next (c : ScenarioChoice) : AllocationNote → ScenarioChoice
  | .declares scenario =>
    { c with ids := (if c.replaced then c.ids else []) ++ [scenario], replaced := true }
  | .chooses scenario => { c with chosen := c.ids.idxOf scenario }
  | .leaves => c.first
  | .allocates _ | .other => c

end ScenarioChoice

/-- What is allocated for each scenario by what is said. -/
def AllocationNote.adds (c : ScenarioChoice) : AllocationNote → Nat → List Allocation
  | .allocates statements, scenario => if c.chosen = scenario then statements.map (·.allocation) else []
  | _, _ => []

/-! ## Tasks -/

/-- A task with what it holds for each scenario. -/
@[ext] structure TaskAllocations where
  heading : Heading
  held : Nat → List Allocation

/-- The task with something more for each scenario. -/
def TaskAllocations.adding (added : Nat → List Allocation) (d : TaskAllocations) : TaskAllocations :=
  { d with held := fun scenario => d.held scenario ++ added scenario }

@[simp] theorem TaskAllocations.adding_nil : adding (fun _ => []) = id := by
  funext d
  simp [adding]

/-- What is added later is behind what has been added before. -/
theorem TaskAllocations.adding_adding (first second : Nat → List Allocation) :
    adding second ∘ adding first = adding fun scenario => first scenario ++ second scenario := by
  funext d
  simp [adding]

namespace Nest

/-- The choice behind some statements. -/
def after : ScenarioChoice → Nest BodyHead AllocationNote → ScenarioChoice
  | c, .nil => c
  | c, .tells s rest => rest.after (c.next s)
  | c, .node _ body rest => rest.after (body.after c.first)

/-- What some statements allocate for each scenario where they stand, in their order. What is in the bodies
between them is not among it. -/
def allocated : ScenarioChoice → Nest BodyHead AllocationNote → Nat → List Allocation
  | _, .nil, _ => []
  | c, .tells s rest, scenario => s.adds c scenario ++ rest.allocated (c.next s) scenario
  | c, .node _ body rest, scenario => rest.allocated (body.after c.first) scenario

/-- The tasks of some statements in the order of the statements, where `next` tasks stand before them. If they
are in the body of a task, this one has a number and an id, and it holds something by now, with which the tasks
in its body start. -/
def taskAllocations : (above : Option (Nat × String)) → (held : Nat → List Allocation) → ScenarioChoice →
    (next : Nat) → Nest BodyHead AllocationNote → List TaskAllocations
  | _, _, _, _, .nil => []
  | above, held, c, next, .tells s rest =>
    rest.taskAllocations above (fun scenario => held scenario ++ s.adds c scenario) (c.next s) next
  | above, held, c, next, .node ⟨.resource, _, _⟩ body rest =>
    rest.taskAllocations above held (body.after c.first) next
  | above, held, c, next, .node ⟨.task, id, name⟩ body rest =>
    let full := Forest.fullId .task (above.map (·.2)) id
    let inside := body.taskAllocations (some (next, full)) held c.first (next + 1)
    TaskAllocations.adding (body.allocated c.first) ⟨⟨full, name, above.map (·.1)⟩, held⟩ ::
      (inside ++ rest.taskAllocations above held (body.after c.first) (next + 1 + inside.length))

end Nest

/-! ## What a plan keeps -/

/-- What is kept of allocations while a plan is read. -/
@[ext] structure AllocationTable where
  choice : ScenarioChoice
  /-- The task or the resource whose body is read. -/
  current : Option (PropertyKind × Nat)
  tasks : List TaskAllocations
  /-- For each resource the number of the one above. -/
  resources : List (Option Nat)

namespace AllocationTable

/-- The table of the start. -/
def initial : AllocationTable := ⟨.initial, none, [], []⟩

/-- A new task below the current one. It starts with what this one holds. -/
def newTask (r : AllocationTable) (id name : String) : TaskAllocations :=
  let above := r.current.bind (r.tasks[·.2]?)
  ⟨⟨Forest.fullId .task (above.map (·.heading.id)) id, name, r.current.map (·.2)⟩,
    fun scenario => (above.map (·.held scenario)).getD []⟩

/-- The table with a new task or resource below the current one, whose body is read next. -/
def enter (r : AllocationTable) : BodyHead → AllocationTable
  | ⟨.task, id, name⟩ =>
    { r with
      choice := r.choice.first, current := some (.task, r.tasks.length)
      tasks := r.tasks ++ [r.newTask id name] }
  | ⟨.resource, _, _⟩ =>
    { r with
      choice := r.choice.first, current := some (.resource, r.resources.length)
      resources := r.resources ++ [r.current.map (·.2)] }

/-- The task or the resource around the current one. -/
def around (r : AllocationTable) : Option (PropertyKind × Nat) :=
  match r.current with
  | none => none
  | some (.task, i) => (r.tasks[i]?.bind (·.heading.parent)).map (.task, ·)
  | some (.resource, i) => (r.resources[i]?.bind id).map (.resource, ·)

/-- What becomes of the table by a note. In a body only tasks and resources of the same kind can be added, and
only in that of a task something is allocated. -/
def step (r : AllocationTable) : Note BodyHead AllocationNote → Option AllocationTable
  | .opens head => if r.current.all (·.1 = head.kind) then some (r.enter head) else none
  | .closes => some { r with current := r.around }
  | .tells (.allocates statements) =>
    match r.current with
    | some (.task, i) =>
      if i < r.tasks.length then
        some { r with
          tasks := r.tasks.modify i (.adding ((AllocationNote.allocates statements).adds r.choice)) }
      else none
    | _ => none
  | .tells s => some { r with choice := r.choice.next s }

section
variable {tasks : List TaskAllocations} {i : Nat} {d : TaskAllocations} {added : Nat → List Allocation}

theorem getElem?_modify_adding (there : tasks[i]? = some d) :
    (tasks.modify i (.adding added))[i]? = some (d.adding added) := by
  rw [List.getElem?_modify_eq, there]
  rfl

/-- A task in front of others is where it is. -/
theorem modify_append_of_lt (inside : i < tasks.length) (f : TaskAllocations → TaskAllocations)
    (others : List TaskAllocations) : (tasks ++ others).modify i f = tasks.modify i f ++ others := by
  rw [List.modify_eq_set_getElem?, List.modify_eq_set_getElem?, List.getElem?_append_left inside,
    List.getElem?_eq_getElem inside]
  simp [inside]

/-- The one behind all others is where they end. -/
theorem modify_last (tasks : List TaskAllocations) (d : TaskAllocations)
    (f : TaskAllocations → TaskAllocations) : (tasks ++ [d]).modify tasks.length f = tasks ++ [f d] := by
  simp [List.modify_eq_set_getElem?]

end

/-! ## Runs -/

variable {c : ScenarioChoice} {tasks : List TaskAllocations} {resources : List (Option Nat)}

/-- In the body of a task whatever is said adds to what this one holds. -/
theorem step_tells {i : Nat} {d : TaskAllocations} (there : tasks[i]? = some d) (s : AllocationNote) :
    step ⟨c, some (.task, i), tasks, resources⟩ (.tells s) =
      some ⟨c.next s, some (.task, i), tasks.modify i (.adding (s.adds c)), resources⟩ := by
  have nothing : tasks.modify i (.adding fun _ => []) = tasks := by
    rw [TaskAllocations.adding_nil, List.modify_id]
  cases s with
  | allocates statements => exact if_pos (List.getElem?_eq_some_iff.mp there).1
  | _ => exact congrArg (fun tasks => some (AllocationTable.mk _ _ tasks _)) nothing.symm

/-- Elsewhere nothing is allocated. -/
theorem eq_of_step_tells {current : Option (PropertyKind × Nat)} (elsewhere : ∀ i, current ≠ some (.task, i))
    {s : AllocationNote} {r : AllocationTable}
    (said : step ⟨c, current, tasks, resources⟩ (.tells s) = some r) :
    r = ⟨c.next s, current, tasks, resources⟩ ∧ s.adds c = fun _ => [] := by
  cases s with
  | allocates statements =>
    rcases current with _ | ⟨_ | _, i⟩
    · cases said
    · exact absurd rfl (elsewhere i)
    · cases said
  | _ =>
    cases said
    exact ⟨rfl, rfl⟩

/-- In the body of a resource there are resources only, and nothing is allocated. -/
theorem run_resource {n : Nest BodyHead AllocationNote} {i : Nat} (inside : i < resources.length)
    {r : AllocationTable} (run : n.notes.foldlM step ⟨c, some (.resource, i), tasks, resources⟩ = some r) :
    ∃ more, r = ⟨n.after c, some (.resource, i), tasks, resources ++ more⟩ := by
  -- by induction on the nest: `ih` is for the body of a statement, `ih'` for what comes behind it
  induction n generalizing c i resources r with
  | nil =>
    cases run
    exact ⟨[], by rw [List.append_nil]; rfl⟩
  | tells s rest ih =>
    obtain ⟨u, said, run⟩ := Nest.exists_of_run_tells run
    obtain ⟨rfl, -⟩ := eq_of_step_tells (by simp) said
    exact ih inside run
  | node head body rest ih ih' =>
    obtain ⟨u, v, w, opens, within, closes, run⟩ := Nest.exists_of_run_node run
    obtain ⟨kind, id, name⟩ := head
    cases kind with
    | task => cases opens
    | resource =>
      cases opens
      obtain ⟨more, rfl⟩ := ih (by simp) within
      -- the end of the body goes back to the resource around
      have back : step ⟨body.after c.first, some (.resource, resources.length), tasks,
          resources ++ [some i] ++ more⟩ .closes =
            some ⟨body.after c.first, some (.resource, i), tasks, resources ++ [some i] ++ more⟩ := by
        simp [step, around]
      cases back.symm.trans closes
      obtain ⟨others, rfl⟩ := ih' (by simp; omega) run
      exact ⟨some i :: (more ++ others), by simp [Nest.after]⟩

/-- In the body of a task there are tasks only, which come behind all others and start with what this one holds
at that moment, and what is allocated is added to what this one holds. -/
theorem run_body {n : Nest BodyHead AllocationNote} {i : Nat} {d : TaskAllocations}
    (there : tasks[i]? = some d) {r : AllocationTable}
    (run : n.notes.foldlM step ⟨c, some (.task, i), tasks, resources⟩ = some r) :
    r = ⟨n.after c, some (.task, i), tasks.modify i (.adding (n.allocated c)) ++
      n.taskAllocations (some (i, d.heading.id)) d.held c tasks.length, resources⟩ := by
  -- by induction on the nest, where the tasks of before are any list in which this one has its number
  induction n generalizing c i d tasks r with
  | nil =>
    cases run
    have nothing : Nest.allocated c .nil = fun _ => [] := rfl
    rw [nothing, TaskAllocations.adding_nil, List.modify_id, Nest.taskAllocations, List.append_nil]
    rfl
  | tells s rest ih =>
    obtain ⟨u, said, run⟩ := Nest.exists_of_run_tells run
    cases (step_tells there s).symm.trans said
    rw [ih (getElem?_modify_adding there) run, List.modify_modify_eq, TaskAllocations.adding_adding,
      List.length_modify]
    rfl
  | node head body rest ih ih' =>
    obtain ⟨u, v, w, opens, within, closes, run⟩ := Nest.exists_of_run_node run
    obtain ⟨kind, id, name⟩ := head
    cases kind with
    | resource => cases opens
    | task =>
      have inside := (List.getElem?_eq_some_iff.mp there).1
      -- the new task starts with what this one holds
      let start : TaskAllocations := ⟨⟨Forest.fullId .task (some d.heading.id) id, name, some i⟩, d.held⟩
      have starts : newTask ⟨c, some (.task, i), tasks, resources⟩ id name = start := by
        simp [newTask, there, start]
      cases opens
      simp only [enter, starts] at within
      obtain rfl := ih (List.getElem?_concat_length) within
      rw [modify_last, List.append_assoc, List.singleton_append] at closes
      have back : step ⟨body.after c.first, some (.task, tasks.length), tasks ++
          start.adding (body.allocated c.first) :: body.taskAllocations (some (tasks.length,
            start.heading.id)) d.held c.first (tasks ++ [start]).length, resources⟩ .closes =
          some ⟨body.after c.first, some (.task, i), tasks ++
            start.adding (body.allocated c.first) :: body.taskAllocations (some (tasks.length,
              start.heading.id)) d.held c.first (tasks ++ [start]).length, resources⟩ := by
        simp [step, around, start, TaskAllocations.adding]
      cases back.symm.trans closes
      -- the end of its body goes back to this one, which holds what it has held
      have still : (tasks ++ start.adding (body.allocated c.first) :: body.taskAllocations
          (some (tasks.length, start.heading.id)) d.held c.first (tasks ++ [start]).length)[i]? = some d := by
        rw [List.getElem?_append_left inside, there]
      rw [ih' still run, modify_append_of_lt inside, Nest.taskAllocations]
      simp [Nest.after, Nest.allocated, start, Nat.add_assoc, Nat.add_comm]

/-- Outside of all bodies tasks and resources come behind all others, and nothing is allocated. -/
theorem run_outside {n : Nest BodyHead AllocationNote} {r : AllocationTable}
    (run : n.notes.foldlM step ⟨c, none, tasks, resources⟩ = some r) :
    ∃ more, r =
      ⟨n.after c, none, tasks ++ n.taskAllocations none (fun _ => []) c tasks.length, resources ++ more⟩ := by
  induction n generalizing c tasks resources r with
  | nil =>
    cases run
    exact ⟨[], by rw [Nest.taskAllocations, List.append_nil, List.append_nil]; rfl⟩
  | tells s rest ih =>
    obtain ⟨u, said, run⟩ := Nest.exists_of_run_tells run
    obtain ⟨rfl, nothing⟩ := eq_of_step_tells (by simp) said
    obtain ⟨more, rfl⟩ := ih run
    exact ⟨more, by rw [Nest.taskAllocations, nothing]; rfl⟩
  | node head body rest _ ih =>
    obtain ⟨u, v, w, opens, within, closes, run⟩ := Nest.exists_of_run_node run
    obtain ⟨kind, id, name⟩ := head
    cases opens
    cases kind with
    | resource =>
      -- in the body of a resource there are resources only, so no task is added
      obtain ⟨inner, rfl⟩ := run_resource (by simp) within
      have back : step ⟨body.after c.first, some (.resource, resources.length), tasks,
          resources ++ [none] ++ inner⟩ .closes =
            some ⟨body.after c.first, none, tasks, resources ++ [none] ++ inner⟩ := by
        simp [step, around]
      cases back.symm.trans closes
      obtain ⟨more, rfl⟩ := ih run
      exact ⟨none :: (inner ++ more), by simp [Nest.after, Nest.taskAllocations]⟩
    | task =>
      -- the task is the last one when its body begins, which then adds to it and behind it
      let start : TaskAllocations := ⟨⟨id, name, none⟩, fun _ => []⟩
      obtain rfl := run_body (List.getElem?_concat_length (a := start)) within
      rw [modify_last, List.append_assoc, List.singleton_append] at closes
      have back : step ⟨body.after c.first, some (.task, tasks.length), tasks ++
          start.adding (body.allocated c.first) :: body.taskAllocations (some (tasks.length, id))
            (fun _ => []) c.first (tasks ++ [start]).length, resources⟩ .closes =
          some ⟨body.after c.first, none, tasks ++
            start.adding (body.allocated c.first) :: body.taskAllocations (some (tasks.length, id))
              (fun _ => []) c.first (tasks ++ [start]).length, resources⟩ := by
        simp [step, around, start, TaskAllocations.adding]
      cases back.symm.trans closes
      obtain ⟨more, rfl⟩ := ih run
      exact ⟨more, by simp [Nest.after, Nest.taskAllocations, start, Forest.fullId, Nat.add_assoc,
        Nat.add_comm]⟩

/-- What the statements of a plan make of what its tasks hold. -/
theorem of_run {n : Nest BodyHead AllocationNote} {r : AllocationTable}
    (run : n.notes.foldlM step initial = some r) :
    r.tasks = n.taskAllocations none (fun _ => []) .initial 0 := by
  obtain ⟨more, rfl⟩ := run_outside run
  rfl

end AllocationTable

end Planfile
