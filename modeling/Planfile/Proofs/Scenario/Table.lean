import Planfile.Proofs.Matching.ScenarioState
import Planfile.Proofs.Statement.Note

/-!
# Planfile — the table of scenarios

Scenarios nest: a statement that declares one has others in its body, and between them it may say that the
scenario is enabled or disabled. What a plan keeps meanwhile is a table, the number of the scenario whose
body is read, and whether the scenario of the start has given way to others. A statement may be switched
behind the body of another one that is in its own, so it is the register that tells which one is meant.

Main results:

* `Nest.parent_lt` — a scenario is below one that is in front of it in the table.
* `ScenarioTable.run_body` — what the notes of a body make of the table.
* `ScenarioTable.scenarios_of_run` — the table of a plan is the forest of its statements.
* `ScenarioTable.nodup_of_run` — no id is there twice.
-/

namespace Planfile

open Plan (Scenario)

/-! ## The forest -/

namespace Nest

/-- The scenarios of some statements in the order of the statements, where `next` scenarios stand before
them, below the scenario of the statement around them, if there is one. Each is as the last switch beside
the statements in its body says, and is enabled if there is none. -/
def scenarios : Option Nat → Nat → Nest (String × String) Bool → List Scenario
  | _, _, .nil => []
  | parent, next, .tells _ rest => rest.scenarios parent next
  | parent, next, .node (id, name) body rest =>
    ⟨id, name, parent, body.direct.getLast?.getD true⟩ ::
      (body.scenarios (some next) (next + 1) ++ rest.scenarios parent (next + 1 + body.size))

/-- Each statement declares one scenario. -/
theorem length_scenarios (n : Nest (String × String) Bool) (parent : Option Nat) (next : Nat) :
    (n.scenarios parent next).length = n.size := by
  induction n generalizing parent next with
  | nil => rfl
  | tells _ rest ih => exact ih parent next
  | node head body rest ih ih' =>
    simp only [scenarios, List.length_cons, List.length_append, ih, ih', size]
    omega

/-- A scenario is below one that is in front of it in the table, if the statement around them has its own
in front of theirs. -/
theorem parent_lt {n : Nest (String × String) Bool} {parent : Option Nat} {next : Nat}
    (around : ∀ j, parent = some j → j < next) {i : Nat} {s : Scenario}
    (found : (n.scenarios parent next)[i]? = some s) {j : Nat} (below : s.parent = some j) :
    j < next + i := by
  induction n generalizing parent next i with
  | nil => cases found
  | tells _ rest ih => exact ih around found
  | node head body rest ih ih' =>
    rw [scenarios] at found
    cases i with
    | zero =>
      cases found
      exact around j below
    | succ i =>
      rw [List.getElem?_cons_succ, List.getElem?_append, length_scenarios] at found
      split at found
      · -- inside of the body, whose own scenario is the parent
        have first : ∀ k, some next = some k → k < next + 1 := by
          rintro k ⟨⟩
          exact Nat.lt_succ_self _
        have lt := ih first found
        omega
      · -- behind the body, below the parent of before
        have behind : ∀ k, parent = some k → k < next + 1 + body.size := fun k same =>
          Nat.lt_of_lt_of_le (around k same) (by omega)
        have lt := ih' behind found
        omega

end Nest

/-! ## The table -/

/-- What is kept of scenarios while a plan is read. -/
@[ext] structure ScenarioTable where
  scenarios : List Scenario
  /-- The number of the scenario whose body is read. -/
  current : Option Nat
  /-- Whether the scenario of the start has given way to those that are declared. -/
  replaced : Bool

namespace ScenarioTable

/-- The table of the start: there is one scenario, and it is no declared one. -/
def initial : ScenarioTable := ⟨[.declared "plan" "Plan Scenario" none], none, false⟩

/-- The scenarios to which the next one that is declared is added. -/
def kept (t : ScenarioTable) : List Scenario :=
  if t.current.isNone && !t.replaced then [] else t.scenarios

/-- What becomes of the table by a note. A scenario is declared if its id is free, and only one whose body
is read is switched. -/
def step : ScenarioTable → Note (String × String) Bool → Option ScenarioTable
  | t, .opens (id, name) =>
    if id ∈ t.kept.map (·.id) then none
    else some ⟨t.kept ++ [.declared id name t.current], some t.kept.length, true⟩
  | t, .tells enabled =>
    match t.current with
    | some i =>
      if i < t.scenarios.length then
        some { t with scenarios := t.scenarios.modify i ({ · with enabled }) }
      else none
    | none => none
  | t, .closes => some { t with current := (t.current.bind (t.scenarios[·]?)).bind (·.parent) }

/-- A scenario as the last of some switches says, if there are any. -/
def switched (scenarios : List Scenario) (current : Option Nat) (switches : List Bool) : List Scenario :=
  match current, switches.getLast? with
  | some i, some enabled => scenarios.modify i ({ · with enabled })
  | _, _ => scenarios

@[simp] theorem switched_nil (scenarios : List Scenario) (current : Option Nat) :
    switched scenarios current [] = scenarios := by
  cases current <;> rfl

/-- The last switch counts. -/
theorem switched_cons (scenarios : List Scenario) (i : Nat) (enabled : Bool) (switches : List Bool) :
    switched (scenarios.modify i ({ · with enabled })) (some i) switches =
      switched scenarios (some i) (enabled :: switches) := by
  unfold switched
  rw [List.getLast?_cons]
  cases switches.getLast? with
  | none => rfl
  | some other => simp [List.modify_modify_eq, Function.comp_def]

/-- A scenario in front of others is switched where it is. -/
theorem switched_append {scenarios : List Scenario} {current : Option Nat}
    (inside : ∀ i, current = some i → i < scenarios.length) (others : List Scenario)
    (switches : List Bool) :
    switched (scenarios ++ others) current switches = switched scenarios current switches ++ others := by
  unfold switched
  split
  · next i enabled _ =>
    have bound := inside i rfl
    rw [List.modify_eq_set_getElem?, List.modify_eq_set_getElem?, List.getElem?_append_left bound,
      List.getElem?_eq_getElem bound]
    simp [bound]
  · rfl

/-- The scenario behind all others is switched. -/
theorem switched_last (scenarios : List Scenario) (id name : String) (parent : Option Nat)
    (switches : List Bool) :
    switched (scenarios ++ [.declared id name parent]) (some scenarios.length) switches =
      scenarios ++ [⟨id, name, parent, switches.getLast?.getD true⟩] := by
  unfold switched
  cases switches.getLast? with
  | none => rfl
  | some enabled => simp [Scenario.declared, List.modify_eq_set_getElem?]

/-! ## Runs -/

/-- What the notes of a body make of the table, and what those of statements outside of bodies do where
the scenario of the start has given way: the scenario around them is switched, and those that they declare
are behind all others. -/
theorem run_body {n : Nest (String × String) Bool} {scenarios : List Scenario} {current : Option Nat}
    (inside : ∀ i, current = some i → i < scenarios.length) {t : ScenarioTable}
    (run : n.notes.foldlM step ⟨scenarios, current, true⟩ = some t) :
    t = ⟨switched scenarios current n.direct ++ n.scenarios current scenarios.length, current, true⟩ := by
  induction n generalizing scenarios current t with
  | nil =>
    cases run
    simp [Nest.direct, Nest.scenarios]
  | tells enabled rest ih =>
    obtain ⟨u, switch, run⟩ := Nest.exists_of_run_tells run
    cases current with
    | none => cases switch
    | some i =>
      have bound := inside i rfl
      simp only [step, if_pos bound, Option.some.injEq] at switch
      subst switch
      rw [ih (by simpa using inside) run, List.length_modify, switched_cons]
      rfl
  | node head body rest ih ih' =>
    obtain ⟨id, name⟩ := head
    obtain ⟨u, v, w, declares, within, closes, run⟩ := Nest.exists_of_run_node run
    have kept : (⟨scenarios, current, true⟩ : ScenarioTable).kept = scenarios := by
      simp [ScenarioTable.kept]
    simp only [step, kept, Option.ite_none_left_eq_some, Option.some.injEq] at declares
    obtain ⟨-, rfl⟩ := declares
    -- the scenario is as the last switch of its body says, and behind it are those of the body
    have last : ∀ i, some scenarios.length = some i →
        i < (scenarios ++ [Scenario.declared id name current]).length := by
      rintro i ⟨⟩
      simp
    obtain rfl := ih last within
    have grown : switched (scenarios ++ [.declared id name current]) (some scenarios.length) body.direct ++
        body.scenarios (some scenarios.length) (scenarios.length + 1) = scenarios ++
          (⟨id, name, current, body.direct.getLast?.getD true⟩ ::
            body.scenarios (some scenarios.length) (scenarios.length + 1)) := by
      rw [switched_last, List.append_assoc, List.singleton_append]
    -- the end of the body goes back to the scenario around
    rw [List.length_append, List.length_singleton, grown] at closes
    simp only [step, Option.some.injEq, Option.bind_some, List.getElem?_append_right (Nat.le_refl _),
      Nat.sub_self, List.getElem?_cons_zero] at closes
    subst closes
    have still : ∀ i, current = some i → i < (scenarios ++
        (⟨id, name, current, body.direct.getLast?.getD true⟩ ::
          body.scenarios (some scenarios.length) (scenarios.length + 1))).length := fun i same =>
      Nat.lt_of_lt_of_le (inside i same) (by simp)
    rw [ih' still run, switched_append inside, List.append_assoc, Nest.scenarios, Nest.direct]
    simp [Nest.length_scenarios, Nat.add_assoc, Nat.add_comm]

/-- What a plan makes of the table of the start: the scenarios are those that it declares, and if it
declares none there is the one of the start. -/
theorem scenarios_of_run {n : Nest (String × String) Bool} {t : ScenarioTable}
    (run : n.notes.foldlM step initial = some t) :
    t.scenarios = if n.size = 0 then initial.scenarios else n.scenarios none 0 := by
  cases n with
  | nil =>
    cases run
    rfl
  | tells enabled rest =>
    obtain ⟨u, switch, -⟩ := Nest.exists_of_run_tells run
    cases switch
  | node head body rest =>
    -- the first statement finds the table as if it were empty
    have same : (Nest.node head body rest).notes.foldlM step ⟨[], none, true⟩ = some t := run
    rw [run_body (fun i same => by cases same) same, if_neg (by simp [Nest.size])]
    rfl

/-! ## Ids -/

/-- A note keeps the ids of the table apart. -/
theorem nodup_step {t u : ScenarioTable} {note : Note (String × String) Bool}
    (distinct : (t.scenarios.map (·.id)).Nodup) (run : t.step note = some u) :
    (u.scenarios.map (·.id)).Nodup := by
  cases note with
  | opens head =>
    obtain ⟨id, name⟩ := head
    simp only [step, Option.ite_none_left_eq_some, Option.some.injEq] at run
    obtain ⟨free, rfl⟩ := run
    have kept : (t.kept.map (·.id)).Nodup := by
      unfold ScenarioTable.kept
      split
      · exact List.nodup_nil
      · exact distinct
    rw [List.map_append]
    exact kept.append (List.nodup_singleton _) (List.disjoint_singleton.mpr free)
  | tells enabled =>
    simp only [step] at run
    split at run
    · split at run
      · cases run
        -- a scenario that is switched keeps its id
        rwa [Plan.map_modify_of_eq (f := ({ · with enabled })) (g := Scenario.id) fun _ => rfl]
      · cases run
    · cases run
  | closes =>
    cases run
    exact distinct

/-- No id is there twice. -/
theorem nodup_of_run {notes : List (Note (String × String) Bool)} {t u : ScenarioTable}
    (distinct : (t.scenarios.map (·.id)).Nodup) (run : notes.foldlM step t = some u) :
    (u.scenarios.map (·.id)).Nodup := by
  induction notes generalizing t with
  | nil =>
    cases run
    exact distinct
  | cons note notes ih =>
    obtain ⟨v, first, rest⟩ := Option.bind_eq_some_iff.mp run
    exact ih (nodup_step distinct first) rest

end ScenarioTable

end Planfile
