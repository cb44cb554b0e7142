import Planfile.Calendar.WorkingHours
import Planfile.Plan.Attribute
import Planfile.Proofs.Statement.Note

/-!
# Planfile — statements about working hours

A statement names some days and says when work is done on them. Of several statements in one scope the last
one that names a day counts for it, and a day that none names is as it was at the start of the scope.

There is one scope outside of all bodies, which starts with the hours of an office, and one for each body of
a resource. A resource starts with the hours that the one around it has at that moment, and if it has none of
its own, the first statement in the body starts with those of the project. While the body is read no statement
reaches the project, so these are the same for all statements of the body.

Main results:

* `WorkingHours.settled_cons` — what a statement does to the hours of its scope.
* `HoursTable.of_run` — what the statements of a plan make of its hours.
-/

namespace Planfile

namespace Calendar

/-! ## Days -/

/-- A day that is named, or the days from one to another. -/
structure DaySpan where
  first : Fin 7
  last : Option (Fin 7)
  deriving DecidableEq, Repr

namespace DaySpan

/-- Whether a day is among those that are named. If the other day comes first in the week, they go on past
its end. -/
def covers (s : DaySpan) (day : Fin 7) : Bool :=
  match s.last with
  | none => day = s.first
  | some last => if s.first ≤ last then s.first ≤ day && day ≤ last else s.first ≤ day || day ≤ last

/-- The set of the days that are named. -/
def daySet (s : DaySpan) : DaySet := .range s.first (s.last.getD s.first)

theorem getElem_daySet (s : DaySpan) (day : Fin 7) : s.daySet[day] = s.covers day := by
  have one : ∀ first day : Fin 7, (DaySet.range first first)[day] = decide (day = first) := by decide
  have several : ∀ first last day : Fin 7, (DaySet.range first last)[day] =
      if first ≤ last then first ≤ day && day ≤ last else first ≤ day || day ≤ last := by decide
  obtain ⟨first, last⟩ := s
  cases last with
  | none => exact one first day
  | some last => exact several first last day

end DaySpan

/-! ## Statements -/

/-- A statement about working hours: the days, and the ranges of each of them. -/
structure HoursStatement where
  days : List DaySpan
  ranges : List TimeRange
  deriving DecidableEq, Repr

namespace HoursStatement

/-- Whether a statement is about a day. -/
def covers (s : HoursStatement) (day : Fin 7) : Bool := s.days.any (·.covers day)

/-- The set of the days of a statement. -/
def daySet (s : HoursStatement) : DaySet := (s.days.map (·.daySet)).foldl .union .empty

theorem getElem_daySet (s : HoursStatement) (day : Fin 7) : s.daySet[day] = s.covers day := by
  have joined (spans : List DaySpan) (days : DaySet) :
      ((spans.map (·.daySet)).foldl .union days)[day] = (days[day] || spans.any (·.covers day)) := by
    induction spans generalizing days with
    | nil => simp
    | cons span spans ih =>
      have first := span.getElem_daySet day
      have union : (days.union span.daySet)[day] = (days[day] || span.daySet[day]) :=
        DaySet.getElem_union day.isLt
      rw [List.map_cons, List.foldl_cons, ih, union, first, List.any_cons, Bool.or_assoc]
  have empty : (DaySet.empty)[day] = false := by simp [DaySet.empty]
  rw [daySet, joined, empty, Bool.false_or, covers]

end HoursStatement

namespace WorkingHours

variable {w : WorkingHours} {s : HoursStatement} {ss : List HoursStatement}

/-- The hours of a scope behind some statements, where it has started with some others: the last statement
about a day counts for it, and a day that no statement is about is as before. -/
def settled (w : WorkingHours) (ss : List HoursStatement) : WorkingHours :=
  ⟨Vector.ofFn fun day => ((ss.filter (·.covers day)).getLast?.map (·.ranges)).getD (w.on day)⟩

theorem on_settled (w : WorkingHours) (ss : List HoursStatement) (day : Fin 7) :
    (w.settled ss).on day = ((ss.filter (·.covers day)).getLast?.map (·.ranges)).getD (w.on day) := by
  simp [on, settled]

/-- Hours with the same ranges on each day are the same. -/
theorem ext_on {w v : WorkingHours} (h : ∀ day : Fin 7, w.on day = v.on day) : w = v := by
  obtain ⟨days⟩ := w
  obtain ⟨others⟩ := v
  refine congrArg _ (Vector.ext fun day inside => ?_)
  simpa [on, inside] using h ⟨day, inside⟩

@[simp] theorem settled_nil (w : WorkingHours) : w.settled [] = w :=
  ext_on fun day => w.on_settled [] day

/-- A statement sets its days, and those that follow go on from there. -/
theorem settled_cons (w : WorkingHours) (s : HoursStatement) (ss : List HoursStatement) :
    w.settled (s :: ss) = (w.setAll s.daySet s.ranges).settled ss := by
  refine ext_on fun day => ?_
  have set : (w.setAll s.daySet s.ranges).on day = if s.covers day then s.ranges else w.on day := by
    rw [on_setAll day.isLt, ← s.getElem_daySet]
    rfl
  rw [on_settled, on_settled, set, List.filter_cons]
  split
  · rw [List.getLast?_cons]
    cases (ss.filter (·.covers day)).getLast? <;> rfl
  · rfl

/-- Statements go on from those before them. -/
theorem settled_append (w : WorkingHours) (before ss : List HoursStatement) :
    w.settled (before ++ ss) = (w.settled before).settled ss := by
  induction before generalizing w with
  | nil => rw [settled_nil, List.nil_append]
  | cons s before ih => rw [List.cons_append, settled_cons, ih, settled_cons]

end WorkingHours

end Calendar

open Calendar (WorkingHours HoursStatement)
open Plan (PropertyKind)

/-! ## The hours of a plan -/

/-- The header of a task or a resource. -/
structure BodyHead where
  kind : PropertyKind
  id : String
  name : String
  deriving DecidableEq, Repr

/-- A resource with its id, the number of the one above, and its hours, if it has any of its own. -/
@[ext] structure ResourceHours where
  id : String
  parent : Option Nat
  hours : Option WorkingHours
  deriving DecidableEq, Repr

/-- The hours of a resource behind some statements of its body. It starts with those that it has inherited,
if there are any, and until the first statement has none of its own otherwise. -/
def ownHours (project : WorkingHours) (inherited : Option WorkingHours) (ss : List HoursStatement) :
    Option WorkingHours :=
  if ss = [] then inherited else some ((inherited.getD project).settled ss)

@[simp] theorem ownHours_nil (project : WorkingHours) (inherited : Option WorkingHours) :
    ownHours project inherited [] = inherited := rfl

/-- A further statement goes on from the hours of before, and where there are none from those of the
project. -/
theorem ownHours_append (project : WorkingHours) (inherited : Option WorkingHours)
    (before : List HoursStatement) (s : HoursStatement) :
    ownHours project inherited (before ++ [s]) =
      some (((ownHours project inherited before).getD project).setAll s.daySet s.ranges) := by
  have single (w : WorkingHours) : w.settled [s] = w.setAll s.daySet s.ranges := by
    rw [WorkingHours.settled_cons, WorkingHours.settled_nil]
  rw [ownHours, if_neg (by simp), WorkingHours.settled_append, single, ownHours]
  split
  · next none => rw [none, WorkingHours.settled_nil]
  · rfl

namespace Nest

/-- The resources of some statements in the body of a resource, in the order of the statements. This one is
the `parent`-th and has started with some hours, some statements of its body are behind already, and `next`
resources are there. -/
def innerResources (project : WorkingHours) : (parent : Nat) → (inherited : Option WorkingHours) →
    (before : List HoursStatement) → (next : Nat) → Nest BodyHead HoursStatement → List ResourceHours
  | _, _, _, _, .nil => []
  | parent, inherited, before, next, .tells s rest =>
    rest.innerResources project parent inherited (before ++ [s]) next
  | parent, inherited, before, next, .node head body rest =>
    let start := ownHours project inherited before
    ⟨head.id, some parent, ownHours project start body.direct⟩ ::
      (body.innerResources project next start [] (next + 1) ++
        rest.innerResources project parent inherited before (next + 1 + body.size))

/-- The resources of some statements outside of all bodies, where the project has started with some hours,
some statements are behind already, and `next` resources are there. -/
def outerResources (start : WorkingHours) : (before : List HoursStatement) → (next : Nat) →
    Nest BodyHead HoursStatement → List ResourceHours
  | _, _, .nil => []
  | before, next, .tells s rest => rest.outerResources start (before ++ [s]) next
  | before, next, .node ⟨.task, _, _⟩ _ rest => rest.outerResources start before next
  | before, next, .node ⟨.resource, id, _⟩ body rest =>
    let project := start.settled before
    ⟨id, none, ownHours project none body.direct⟩ ::
      (body.innerResources project next none [] (next + 1) ++
        rest.outerResources start before (next + 1 + body.size))

/-- Each statement in the body of a resource that has a body adds a resource. -/
theorem length_innerResources (n : Nest BodyHead HoursStatement) (project : WorkingHours) (parent : Nat)
    (inherited : Option WorkingHours) (before : List HoursStatement) (next : Nat) :
    (n.innerResources project parent inherited before next).length = n.size := by
  induction n generalizing parent inherited before next with
  | nil => rfl
  | tells s rest ih => exact ih _ _ _ _
  | node head body rest ih ih' =>
    simp only [innerResources, List.length_cons, List.length_append, ih, ih', size]
    omega

end Nest

/-! ## What a plan keeps -/

/-- What is kept of working hours while a plan is read. -/
@[ext] structure HoursTable where
  /-- The task or the resource whose body is read. -/
  current : Option (PropertyKind × Nat)
  /-- For each task the number of the one above. -/
  tasks : List (Option Nat)
  resources : List ResourceHours
  project : WorkingHours

namespace HoursTable

/-- The table of the start. -/
def initial : HoursTable := ⟨none, [], [], .office⟩

/-- The table with a new task or resource below the current one, whose body is read next. A resource starts
with the hours of the one around. -/
def enter (r : HoursTable) : BodyHead → HoursTable
  | ⟨.task, _, _⟩ =>
    { r with
      current := some (.task, r.tasks.length), tasks := r.tasks ++ [r.current.map (·.2)] }
  | ⟨.resource, id, _⟩ =>
    { r with
      current := some (.resource, r.resources.length)
      resources := r.resources ++
        [⟨id, r.current.map (·.2), (r.current.bind (r.resources[·.2]?)).bind (·.hours)⟩] }

/-- The task or the resource around the current one. -/
def around (r : HoursTable) : Option (PropertyKind × Nat) :=
  match r.current with
  | none => none
  | some (.task, i) => (r.tasks[i]?.bind id).map (.task, ·)
  | some (.resource, i) => (r.resources[i]?.bind (·.parent)).map (.resource, ·)

/-- What becomes of the table by a note. In a body only tasks and resources of the same kind can be added,
and in that of a task nothing is said about hours. -/
def step (r : HoursTable) : Note BodyHead HoursStatement → Option HoursTable
  | .opens head => if r.current.all (·.1 = head.kind) then some (r.enter head) else none
  | .closes => some { r with current := r.around }
  | .tells s =>
    match r.current with
    | none => some { r with project := r.project.setAll s.daySet s.ranges }
    | some (.task, _) => none
    | some (.resource, i) =>
      if i < r.resources.length then
        some { r with
          resources := r.resources.modify i fun resource =>
            { resource with hours := some ((resource.hours.getD r.project).setAll s.daySet s.ranges) } }
      else none

/-- Resources where one of them has other hours. -/
def assigned (resources : List ResourceHours) (i : Nat) (hours : Option WorkingHours) : List ResourceHours :=
  resources.modify i fun resource => { resource with hours }

section
variable {resources : List ResourceHours} {i : Nat} {hours : Option WorkingHours}

@[simp] theorem length_assigned (resources : List ResourceHours) (i : Nat) (hours : Option WorkingHours) :
    (assigned resources i hours).length = resources.length := List.length_modify _ _ _

theorem lt_of_hours (there : (resources[i]?).map (·.hours) = some hours) : i < resources.length := by
  obtain ⟨resource, found, -⟩ := Option.map_eq_some_iff.mp there
  exact (List.getElem?_eq_some_iff.mp found).1

/-- The hours that a resource has are those that are assigned to it. -/
theorem hours_assigned (inside : i < resources.length) :
    ((assigned resources i hours)[i]?).map (·.hours) = some hours := by
  simp [assigned, inside]

/-- Where it has these hours already, nothing changes. -/
theorem assigned_self (same : (resources[i]?).map (·.hours) = some hours) :
    assigned resources i hours = resources := by
  obtain ⟨resource, found, rfl⟩ := Option.map_eq_some_iff.mp same
  obtain ⟨inside, rfl⟩ := List.getElem?_eq_some_iff.mp found
  refine List.ext_getElem (length_assigned _ _ _) fun j _ _ => ?_
  simp only [assigned, List.getElem_modify]
  split
  · next same =>
    subst same
    rfl
  · rfl

/-- The hours that are assigned last count. -/
theorem assigned_assigned (others : Option WorkingHours) :
    assigned (assigned resources i others) i hours = assigned resources i hours := by
  simp [assigned, List.modify_modify_eq, Function.comp_def]

/-- Other hours can be found from those that are there. -/
theorem modify_eq_assigned (same : (resources[i]?).map (·.hours) = some hours)
    (f : Option WorkingHours → Option WorkingHours) :
    resources.modify i (fun resource => { resource with hours := f resource.hours }) =
      assigned resources i (f hours) := by
  obtain ⟨resource, found, rfl⟩ := Option.map_eq_some_iff.mp same
  unfold assigned
  rw [List.modify_eq_set_getElem?, List.modify_eq_set_getElem?, found]
  rfl

/-- A resource in front of others is where it is. -/
theorem assigned_append (inside : i < resources.length) (others : List ResourceHours) :
    assigned (resources ++ others) i hours = assigned resources i hours ++ others := by
  unfold assigned
  rw [List.modify_eq_set_getElem?, List.modify_eq_set_getElem?, List.getElem?_append_left inside,
    List.getElem?_eq_getElem inside]
  simp [inside]

/-- The one behind all others is assigned its hours. -/
theorem assigned_last (resources : List ResourceHours) (resource : ResourceHours)
    (hours : Option WorkingHours) :
    assigned (resources ++ [resource]) resources.length hours = resources ++ [{ resource with hours }] := by
  simp [assigned, List.modify_eq_set_getElem?]

end

/-! ## Runs -/

/-- In the body of a task there are tasks only, and nothing is said about hours. -/
theorem run_task {n : Nest BodyHead HoursStatement} {i : Nat} {tasks : List (Option Nat)}
    (inside : i < tasks.length) {resources : List ResourceHours} {project : WorkingHours} {r : HoursTable}
    (run : n.notes.foldlM step ⟨some (.task, i), tasks, resources, project⟩ = some r) :
    ∃ more, r = ⟨some (.task, i), tasks ++ more, resources, project⟩ := by
  induction n generalizing i tasks r with
  | nil =>
    cases run
    exact ⟨[], by rw [List.append_nil]⟩
  | tells s rest =>
    obtain ⟨u, said, -⟩ := Nest.exists_of_run_tells run
    cases said
  | node head body rest ih ih' =>
    obtain ⟨u, v, w, opens, within, closes, run⟩ := Nest.exists_of_run_node run
    obtain ⟨kind, id, name⟩ := head
    cases kind with
    | resource => cases opens
    | task =>
      cases opens
      obtain ⟨more, rfl⟩ := ih (by simp) within
      -- the end of the body goes back to the task around
      have back : step ⟨some (.task, tasks.length), tasks ++ [some i] ++ more, resources, project⟩ .closes =
          some ⟨some (.task, i), tasks ++ [some i] ++ more, resources, project⟩ := by
        simp [step, around]
      cases back.symm.trans closes
      obtain ⟨others, rfl⟩ := ih' (by simp; omega) run
      exact ⟨some i :: (more ++ others), by simp⟩

/-- Where the body of a resource comes to its end, it has its last hours, and the one above is current. -/
theorem closes_resource (tasks : List (Option Nat)) (resources others : List ResourceHours)
    (resource : ResourceHours) (hours : Option WorkingHours) (project : WorkingHours) :
    step ⟨some (.resource, resources.length), tasks,
        assigned (resources ++ [resource]) resources.length hours ++ others, project⟩ .closes =
      some ⟨resource.parent.map (.resource, ·), tasks, resources ++ { resource with hours } :: others,
        project⟩ := by
  rw [assigned_last, List.append_assoc, List.singleton_append]
  simp [step, around]

/-- In the body of a resource there are resources only, which come behind all others, and the statements are
about this one. -/
theorem run_body {n : Nest BodyHead HoursStatement} {project : WorkingHours} {i : Nat}
    {inherited : Option WorkingHours} {before : List HoursStatement} {resources : List ResourceHours}
    (there : (resources[i]?).map (·.hours) = some (ownHours project inherited before))
    {tasks : List (Option Nat)} {r : HoursTable}
    (run : n.notes.foldlM step ⟨some (.resource, i), tasks, resources, project⟩ = some r) :
    r = ⟨some (.resource, i), tasks,
      assigned resources i (ownHours project inherited (before ++ n.direct)) ++
        n.innerResources project i inherited before resources.length, project⟩ := by
  induction n generalizing i inherited before resources r with
  | nil =>
    cases run
    rw [Nest.direct, Nest.innerResources, List.append_nil, List.append_nil, assigned_self there]
  | tells s rest ih =>
    obtain ⟨u, said, run⟩ := Nest.exists_of_run_tells run
    have inside := lt_of_hours there
    have changed := modify_eq_assigned there fun hours =>
      some ((hours.getD project).setAll s.daySet s.ranges)
    rw [← ownHours_append] at changed
    simp only [step, if_pos inside, changed, Option.some.injEq] at said
    subst said
    rw [ih (hours_assigned inside) run, assigned_assigned, length_assigned, Nest.direct, Nest.innerResources,
      List.append_assoc, List.singleton_append]
  | node head body rest ih ih' =>
    obtain ⟨u, v, w, opens, within, closes, run⟩ := Nest.exists_of_run_node run
    obtain ⟨kind, id, name⟩ := head
    cases kind with
    | task => cases opens
    | resource =>
      have inside := lt_of_hours there
      -- the new resource starts with the hours of this one
      have starts : (resources[i]?).bind (·.hours) = ownHours project inherited before := by
        obtain ⟨resource, found, own⟩ := Option.map_eq_some_iff.mp there
        rw [found, Option.bind_some, own]
      cases opens
      simp only [enter, Option.map_some, Option.bind_some, starts] at within
      have own : ((resources ++ [(⟨id, some i, ownHours project inherited before⟩ :
          ResourceHours)])[resources.length]?).map (·.hours) =
            some (ownHours project (ownHours project inherited before) []) := by
        simp
      obtain rfl := ih own within
      rw [List.length_append, List.length_singleton] at closes
      cases (closes_resource _ _ _ _ _ _).symm.trans closes
      -- the end of its body goes back to this one
      have still : ((resources ++ (⟨id, some i, ownHours project (ownHours project inherited before)
          body.direct⟩ : ResourceHours) :: body.innerResources project resources.length
          (ownHours project inherited before) [] (resources.length + 1))[i]?).map (·.hours) =
            some (ownHours project inherited before) := by
        rw [List.getElem?_append_left inside, there]
      have last := ih' still run
      rw [last, assigned_append inside, Nest.direct, Nest.innerResources]
      simp [Nest.length_innerResources, Nat.add_assoc, Nat.add_comm]

/-- Outside of all bodies statements are about the project, and tasks and resources come behind all others. -/
theorem run_of_outside {n : Nest BodyHead HoursStatement} {start : WorkingHours}
    {before : List HoursStatement} {tasks : List (Option Nat)} {resources : List ResourceHours}
    {r : HoursTable} (run : n.notes.foldlM step ⟨none, tasks, resources, start.settled before⟩ = some r) :
    ∃ more, r = ⟨none, tasks ++ more, resources ++ n.outerResources start before resources.length,
      start.settled (before ++ n.direct)⟩ := by
  induction n generalizing before tasks resources r with
  | nil =>
    cases run
    exact ⟨[], by rw [Nest.direct, Nest.outerResources, List.append_nil, List.append_nil, List.append_nil]⟩
  | tells s rest ih =>
    obtain ⟨u, said, run⟩ := Nest.exists_of_run_tells run
    have further : (start.settled before).setAll s.daySet s.ranges = start.settled (before ++ [s]) := by
      rw [WorkingHours.settled_append, WorkingHours.settled_cons, WorkingHours.settled_nil]
    simp only [step, further, Option.some.injEq] at said
    subst said
    obtain ⟨more, rfl⟩ := ih run
    exact ⟨more, by rw [Nest.direct, Nest.outerResources, List.append_assoc before, List.singleton_append]⟩
  | node head body rest _ ih =>
    obtain ⟨u, v, w, opens, within, closes, run⟩ := Nest.exists_of_run_node run
    obtain ⟨kind, id, name⟩ := head
    cases opens
    cases kind with
    | task =>
      obtain ⟨inner, rfl⟩ := run_task (by simp) within
      have back : step ⟨some (.task, tasks.length), tasks ++ [none] ++ inner, resources,
          start.settled before⟩ .closes = some ⟨none, tasks ++ [none] ++ inner, resources,
            start.settled before⟩ := by
        simp [step, around]
      cases back.symm.trans closes
      obtain ⟨more, rfl⟩ := ih run
      exact ⟨none :: (inner ++ more), by simp [Nest.direct, Nest.outerResources]⟩
    | resource =>
      -- the body starts with no hours of its own
      have own : ((resources ++ [(⟨id, none, none⟩ : ResourceHours)])[resources.length]?).map (·.hours) =
          some (ownHours (start.settled before) none []) := by
        simp
      obtain rfl := run_body own within
      rw [List.length_append, List.length_singleton] at closes
      cases (closes_resource _ _ _ _ _ _).symm.trans closes
      obtain ⟨more, rfl⟩ := ih run
      exact ⟨more, by simp [Nest.direct, Nest.outerResources, Nest.length_innerResources, Nat.add_assoc,
        Nat.add_comm]⟩

/-- What the statements of a plan make of its hours. -/
theorem of_run {n : Nest BodyHead HoursStatement} {r : HoursTable}
    (run : n.notes.foldlM step initial = some r) :
    r.project = WorkingHours.office.settled n.direct ∧
      r.resources = n.outerResources .office [] 0 := by
  have start : initial = ⟨none, [], [], WorkingHours.office.settled []⟩ := by
    rw [WorkingHours.settled_nil]
    rfl
  rw [start] at run
  obtain ⟨more, rfl⟩ := run_of_outside run
  exact ⟨rfl, rfl⟩

end HoursTable

end Planfile
