import Planfile.Proofs.Matching.Choice
import Planfile.Proofs.Matching.EntryState
import Planfile.Proofs.Subtree.Entries

/-!
# Planfile — what values refer to

Between the statement part that looks a reference up and the action that stores it, the reference is in
a value. A value is intact if all that it refers to is there. A string may be a name or just a text;
which it is depends on the rule that it comes from, so rules have roles, and a value serves in a role if
its strings are names of that kind.

Main results:

* `Operand.Intact.mono` and its like — a good reference stays good when more is known.
* `PropertySet.Intact.modify`, `PropertySet.Intact.add?` — changing tasks and resources, and adding them.
* `Project.Intact.of_within` — a project that knows more is intact if its parts were.
* `Value.Intact.mono`, `Value.Serves.mono` — a value that is good stays good when more is known.
* `Values.Serve.names`, `Values.Serve.operand` and their like — what is known of what an action takes.
-/

/-!
## References that lead somewhere

A project refers to flags, resources, tasks and scenarios by name or by number. It is intact if all that
it refers to is there: in the values of tasks and resources, and in what reports show, at any nesting of
an expression. What is there only grows, so a reference that is good once stays good. Tasks and resources
are looked up in an index, which has to be right for what is found there to be what the name says.
-/

namespace Planfile.Plan

/-- What can be referred to. -/
structure Known where
  flags : List String
  resources : List String
  tasks : List String
  scenarios : Nat

/-- Nothing at all. -/
def Known.nothing : Known := ⟨[], [], [], 0⟩

/-- Whether what is known is known still. -/
structure Known.Within (k l : Known) : Prop where
  flags : k.flags ⊆ l.flags
  resources : k.resources ⊆ l.resources
  tasks : k.tasks ⊆ l.tasks
  scenarios : k.scenarios ≤ l.scenarios

namespace Known

variable {k l m : Known}

theorem Within.refl (k : Known) : k.Within k :=
  ⟨List.Subset.refl _, List.Subset.refl _, List.Subset.refl _, Nat.le_refl _⟩

theorem Within.trans (h : k.Within l) (hl : l.Within m) : k.Within m :=
  ⟨List.Subset.trans h.flags hl.flags, List.Subset.trans h.resources hl.resources,
    List.Subset.trans h.tasks hl.tasks, Nat.le_trans h.scenarios hl.scenarios⟩

theorem nothing_within (k : Known) : nothing.Within k :=
  ⟨List.nil_subset _, List.nil_subset _, List.nil_subset _, Nat.zero_le _⟩

end Known

/-- The ids of the tasks or of the resources of a set. -/
def PropertySet.ids (s : PropertySet) : List String := s.properties.toList.map (·.id)

/-- What can be referred to in a project. -/
def Project.known (p : Project) : Known :=
  ⟨p.settings.flags, p.resources.ids, p.tasks.ids, p.scenarios.length⟩

/-! ## Intact parts -/

section
variable (k : Known)

/-- Whether an allocation has a candidate, and all of them are resources. -/
structure Allocation.Intact (a : Allocation) : Prop where
  some : a.candidates ≠ []
  known : a.candidates ⊆ k.resources

/-- Whether the flags in a value are declared and each is there once, and its allocations are intact. -/
def AttributeValue.Intact : AttributeValue → Prop
  | .flags names => names.Nodup ∧ names ⊆ k.flags
  | .allocations items => ∀ a ∈ items, a.Intact k
  | _ => True

/-- Whether all values of a task or a resource are intact, and there is no table but for scenarios. -/
structure Property.Intact (q : Property) : Prop where
  values : ∀ id value, q.Stores id value → value.Intact k
  scenarios : q.scenarioAttributes.length ≤ k.scenarios

mutual

/-- Whether the flags in an operand are declared, and its scenarios are there. -/
def Operand.Intact : Operand → Prop
  | .operation o => o.Intact
  | .attribute _ scenario => scenario < k.scenarios
  | .flag name => name ∈ k.flags
  | _ => True

/-- Whether the operands of an operation are intact. -/
def Operation.Intact : Operation → Prop
  | .plain a | .negation a => a.Intact
  | .binary a _ b => a.Intact ∧ b.Intact

end

/-- Whether the scenario that an order of rows is about, if there is one, is there. -/
def SortCriterion.Intact (s : SortCriterion) : Prop := ∀ i, s.scenario = some i → i < k.scenarios

/-- Whether all that a report refers to is there. -/
structure ReportElement.Intact (e : ReportElement) : Prop where
  hideResource : ∀ f, e.hideResource = some f → f.operation.Intact k
  hideTask : ∀ f, e.hideTask = some f → f.operation.Intact k
  rollupTask : ∀ f, e.rollupTask = some f → f.operation.Intact k
  scenarios : ∀ i ∈ e.scenarios, i < k.scenarios
  sortResources : ∀ s ∈ e.sortResources, s.Intact k
  sortTasks : ∀ s ∈ e.sortTasks, s.Intact k
  taskRoot : ∀ id, e.taskRoot = some id → id ∈ k.tasks

/-- Whether all tasks or all resources of a set are intact, and each is found by its id. -/
structure PropertySet.Intact (s : PropertySet) : Prop where
  entries : ∀ q ∈ s.properties, q.Intact k
  indexed : s.Indexed

end

/-- Whether all that a project refers to is there, and there is a scenario. -/
structure Project.Intact (p : Project) : Prop where
  properties : ∀ kind, (p.properties kind).Intact p.known
  reports : ∀ r ∈ p.reports, r.element.Intact p.known
  scenarios : 0 < p.scenarios.length
  parents : ∀ s ∈ p.scenarios, ∀ i, s.parent = some i → i < p.scenarios.length

/-! ## When more is known -/

section
variable {k l : Known}

theorem Allocation.Intact.mono {a : Allocation} (h : a.Intact k) (le : k.Within l) : a.Intact l :=
  ⟨h.some, List.Subset.trans h.known le.resources⟩

theorem AttributeValue.Intact.mono {value : AttributeValue} (h : value.Intact k) (le : k.Within l) :
    value.Intact l := by
  cases value with
  | flags names => exact ⟨h.1, List.Subset.trans h.2 le.flags⟩
  | allocations items => exact fun a ha => (h a ha).mono le
  | _ => trivial

theorem Property.Intact.mono {q : Property} (h : q.Intact k) (le : k.Within l) : q.Intact l :=
  ⟨fun id value stored => (h.values id value stored).mono le, Nat.le_trans h.scenarios le.scenarios⟩

mutual

/-- A reference that is good stays good when more is known, at any nesting. -/
theorem Operand.Intact.mono (le : k.Within l) : ∀ {a : Operand}, a.Intact k → a.Intact l
  | .operation _, h => Operation.Intact.mono le h
  | .attribute _ _, h => Nat.lt_of_lt_of_le h le.scenarios
  | .flag _, h => le.flags h
  | .date _, _ | .integer _, _ | .string _, _ | .call _ _, _ => trivial

theorem Operation.Intact.mono (le : k.Within l) : ∀ {o : Operation}, o.Intact k → o.Intact l
  | .plain _, h => Operand.Intact.mono le h
  | .negation _, h => Operand.Intact.mono le h
  | .binary _ _ _, h => ⟨Operand.Intact.mono le h.1, Operand.Intact.mono le h.2⟩

end

theorem SortCriterion.Intact.mono {s : SortCriterion} (h : s.Intact k) (le : k.Within l) :
    s.Intact l :=
  fun i hi => Nat.lt_of_lt_of_le (h i hi) le.scenarios

theorem ReportElement.Intact.mono {e : ReportElement} (h : e.Intact k) (le : k.Within l) :
    e.Intact l where
  hideResource f hf := .mono le (h.hideResource f hf)
  hideTask f hf := .mono le (h.hideTask f hf)
  rollupTask f hf := .mono le (h.rollupTask f hf)
  scenarios i hi := Nat.lt_of_lt_of_le (h.scenarios i hi) le.scenarios
  sortResources s hs := (h.sortResources s hs).mono le
  sortTasks s hs := (h.sortTasks s hs).mono le
  taskRoot id hid := le.tasks (h.taskRoot id hid)

theorem PropertySet.Intact.mono {s : PropertySet} (h : s.Intact k) (le : k.Within l) : s.Intact l :=
  ⟨fun q hq => (h.entries q hq).mono le, h.indexed⟩

end

/-! ## Changing values -/

namespace Property

variable {k : Known} {q parent : Property} {id : String} {value : AttributeValue}

/-- A task or a resource that is new has no values. -/
theorem intact_new (id name : String) (parent : Option Nat) :
    Intact k ⟨id, name, parent, [], [], []⟩ :=
  ⟨fun _ _ stored => absurd stored not_stores_new, Nat.zero_le _⟩

/-- Setting an attribute that has one value. -/
theorem Intact.set (h : q.Intact k) (hv : value.Intact k) : (q.set id value).Intact k := by
  refine ⟨fun other stored holds => ?_, h.scenarios⟩
  rcases stores_set holds with new | old
  · cases new
    exact hv
  · exact h.values _ _ old

/-- Setting a value in a scenario that is there adds no table behind the last one. -/
theorem length_setAt_le {tables : List AttributeTable} {index count : Nat} (h : tables.length ≤ count)
    (hi : index < count) : (setAt index id value tables).length ≤ count := by
  induction tables generalizing index count with
  | nil => simpa [setAt] using Nat.succ_le_of_lt hi
  | cons table rest ih =>
    cases index with
    | zero => exact h
    | succ index =>
      cases count with
      | zero => exact absurd h (Nat.not_succ_le_zero _)
      | succ count =>
        exact Nat.succ_le_succ (ih (Nat.le_of_succ_le_succ h) (Nat.lt_of_succ_lt_succ hi))

/-- Setting an attribute in a scenario that is there. -/
theorem Intact.setScenario (h : q.Intact k) {scenario : Nat} (hs : scenario < k.scenarios)
    (hv : value.Intact k) : (q.setScenario scenario id value).Intact k := by
  refine ⟨fun other stored holds => ?_, length_setAt_le h.scenarios hs⟩
  rcases stores_setScenario holds with new | old
  · cases new
    exact hv
  · exact h.values _ _ old

/-- What is inherited was intact where it came from, and is in the scenario that it was in. -/
theorem Intact.inheritFrom (h : q.Intact k) (hp : parent.Intact k)
    (definitions : List AttributeDefinition) : (q.inheritFrom parent definitions).Intact k := by
  refine inheritFrom_induction h (fun q id value hq found => ?_)
    (fun q scenario t id value hq place found => ?_) definitions
  · exact hq.set (hp.values _ _ (.inl (AttributeTable.mem_of_get? found)))
  · have inside : scenario < parent.scenarioAttributes.length :=
      (List.getElem?_eq_some_iff.mp place).1
    exact hq.setScenario (Nat.lt_of_lt_of_le inside hp.scenarios)
      (hp.values _ _ (.inr ⟨t, List.mem_of_getElem? place, AttributeTable.mem_of_get? found⟩))

end Property

namespace PropertySet

variable {k : Known} {s grown : PropertySet}

/-- Changing a task or a resource in a way that is intact. -/
theorem Intact.modify (h : s.Intact k) {i : Nat} {f : Property → Property}
    (ids : ∀ q, (f q).id = q.id) (hf : ∀ q, q.Intact k → (f q).Intact k) : (s.modify i f).Intact k :=
  ⟨forall_modify h.entries fun q _ hq => hf q hq, h.indexed.modify ids i⟩

/-- Adding a task or a resource, which inherits. -/
theorem Intact.add? (h : s.Intact k) {id name : String} {parent : Option Nat}
    (added : s.add? id name parent = .ok grown) (index : Nat) :
    (grown.inheritAttributes index).Intact k := by
  refine ⟨?_, (h.indexed.add? added).inheritAttributes index⟩
  rw [eq_append_of_add? added]
  refine forall_inheritAttributes (motive := fun q => q.Intact k) ?_ fun q parent hq hparent =>
    hq.inheritFrom hparent _
  exact forall_append (motive := fun q => q.Intact k) h.entries (fun q _ hq => ⟨hq.values, hq.scenarios⟩)
    (Property.intact_new _ _ _)

/-- An entry of the schema is no reference. -/
theorem Intact.define? (h : s.Intact k) {d : AttributeDefinition} (defined : s.define? d = .ok grown) :
    grown.Intact k := by
  refine ⟨?_, h.indexed.define? defined⟩
  obtain ⟨-, rfl⟩ := definitions_of_define? defined
  exact h.entries

/-- Ids are part of what is written down. -/
theorem ids_eq (s : PropertySet) : s.ids = s.entryTable.headings.map (·.id) := by
  rw [ids, entryTable, List.map_map]
  rfl

/-- What is added keeps the ids of the others. -/
theorem ids_subset_of_add? {id name : String} {parent : Option Nat}
    (added : s.add? id name parent = .ok grown) (index : Nat) :
    s.ids ⊆ (grown.inheritAttributes index).ids := by
  rw [eq_append_of_add? added, ids_eq, ids_eq, entryTable_inheritAttributes, entryTable_append,
    List.map_append]
  exact List.subset_append_left _ _

end PropertySet

namespace Project

variable {p q : Project}

/-- A project that knows what another one knew is intact if its parts refer to what that one knew. -/
theorem Intact.of_within (h : p.Intact) (le : p.known.Within q.known)
    (properties : ∀ kind, (q.properties kind).Intact p.known)
    (reports : ∀ r ∈ q.reports, r.element.Intact p.known)
    (parents : ∀ s ∈ q.scenarios, ∀ i, s.parent = some i → i < q.scenarios.length) : q.Intact where
  properties kind := (properties kind).mono le
  reports r hr := (reports r hr).mono le
  scenarios := Nat.lt_of_lt_of_le h.scenarios le.scenarios
  parents := parents

/-- A project starts with a scenario, and refers to nothing. -/
theorem intact_initial (id name version : String) (time : Calendar.Interval) :
    (initial id name version time).Intact where
  properties kind := by
    cases kind
    · exact ⟨fun q hq => absurd hq (Array.not_mem_empty q), PropertySet.indexed_empty .task⟩
    · exact ⟨fun q hq => absurd hq (Array.not_mem_empty q), PropertySet.indexed_empty .resource⟩
  reports r hr := by cases hr
  scenarios := Nat.one_pos
  parents s hs i hi := by
    rw [List.mem_singleton.mp hs] at hi
    cases hi

/-- Tasks and resources that are those of before are intact. -/
theorem Intact.same (h : p.Intact) (tasks : q.tasks = p.tasks) (resources : q.resources = p.resources) :
    ∀ kind, (q.properties kind).Intact p.known := by
  intro kind
  cases kind with
  | task =>
    rw [Project.properties, tasks]
    exact h.properties .task
  | resource =>
    rw [Project.properties, resources]
    exact h.properties .resource

/-- Where tasks or resources keep their ids, all that was known is known. -/
theorem within_setProperties {kind : PropertyKind} {s : PropertySet}
    (ids : (p.properties kind).ids ⊆ s.ids) : p.known.Within (p.setProperties kind s).known := by
  cases kind with
  | task => exact ⟨List.Subset.refl _, List.Subset.refl _, ids, Nat.le_refl _⟩
  | resource => exact ⟨List.Subset.refl _, ids, List.Subset.refl _, Nat.le_refl _⟩

/-- Tasks or resources that are intact can take the place of those of before. -/
theorem Intact.setProperties (h : p.Intact) {kind : PropertyKind} {s : PropertySet}
    (ids : (p.properties kind).ids ⊆ s.ids) (hs : s.Intact p.known) :
    (p.setProperties kind s).Intact := by
  refine h.of_within (within_setProperties ids) (fun other => ?_) ?_ ?_
  · rw [properties_setProperties]
    split
    · exact hs
    · exact h.properties other
  · cases kind <;> exact h.reports
  · cases kind <;> exact h.parents

/-- Settings that keep the flags. -/
theorem within_modifySettings {f : Settings → Settings}
    (flags : p.settings.flags ⊆ (f p.settings).flags) : p.known.Within (p.modifySettings f).known :=
  ⟨flags, List.Subset.refl _, List.Subset.refl _, Nat.le_refl _⟩

theorem Intact.modifySettings (h : p.Intact) {f : Settings → Settings}
    (flags : p.settings.flags ⊆ (f p.settings).flags) : (p.modifySettings f).Intact :=
  h.of_within (within_modifySettings flags) (h.same rfl rfl) h.reports h.parents

/-- Reports that are intact. -/
theorem Intact.withReports (h : p.Intact) {reports : List Report}
    (hr : ∀ r ∈ reports, r.element.Intact p.known) : ({ p with reports } : Project).Intact :=
  h.of_within (.refl _) (h.same rfl rfl) hr h.parents

/-- Scenarios that are at least as many. -/
theorem within_withScenarios {scenarios : List Scenario} (le : p.scenarios.length ≤ scenarios.length) :
    p.known.Within ({ p with scenarios } : Project).known :=
  ⟨List.Subset.refl _, List.Subset.refl _, List.Subset.refl _, le⟩

theorem Intact.withScenarios (h : p.Intact) {scenarios : List Scenario}
    (le : p.scenarios.length ≤ scenarios.length)
    (parents : ∀ s ∈ scenarios, ∀ i, s.parent = some i → i < scenarios.length) :
    ({ p with scenarios } : Project).Intact :=
  h.of_within (within_withScenarios le) (h.same rfl rfl) h.reports parents

/-- A scenario that is found by its id is there. -/
theorem lt_of_scenarioIndex? {id : String} {i : Nat} (h : p.scenarioIndex? id = some i) :
    i < p.scenarios.length :=
  (List.findIdx?_eq_some_iff_getElem.mp h).1

/-- A new report shows the first scenario, and refers to nothing else. -/
theorem Intact.element_over (h : p.Intact) (start stop : Calendar.DateTime) :
    (ReportElement.over start stop).Intact p.known where
  hideResource f hf := by cases hf
  hideTask f hf := by cases hf
  rollupTask f hf := by cases hf
  scenarios i hi := by
    rw [List.mem_singleton.mp hi]
    exact h.scenarios
  sortResources s hs i hi := by
    rw [List.mem_singleton.mp hs] at hi
    cases hi
  sortTasks s hs i hi := by
    rw [List.mem_singleton.mp hs] at hi
    cases hi
  taskRoot id hid := by cases hid

end Project

end Planfile.Plan

namespace Planfile

open Plan (Known)

/-- What the strings of a value name. -/
inductive Role where
  | flag
  | resource
  deriving DecidableEq

/-- The names of a kind that are known. -/
def Plan.Known.names (k : Known) : Role → List String
  | .flag => k.flags
  | .resource => k.resources

theorem Plan.Known.Within.names {k l : Known} (le : k.Within l) (role : Role) :
    k.names role ⊆ l.names role := by
  cases role with
  | flag => exact le.flags
  | resource => exact le.resources

/-! ## Strings -/

theorem strings_append (a b : List Value) : strings (a ++ b) = strings a ++ strings b :=
  List.filterMap_append

/-- A value that is a string is the one string among its items. -/
theorem strings_singleton_subset (x : Value) : strings [x] ⊆ strings x.items := by
  cases x <;> first | exact List.Subset.refl _ | exact List.nil_subset _

/-- The strings of a list are strings of its members. -/
theorem strings_subset {names : List String} {items : List Value}
    (h : ∀ x ∈ items, strings x.items ⊆ names) : strings items ⊆ names := by
  intro s hs
  obtain ⟨x, mem, found⟩ := List.mem_filterMap.mp hs
  refine h x mem (strings_singleton_subset x ?_)
  exact List.mem_filterMap.mpr ⟨x, List.mem_singleton_self x, found⟩

namespace Value

/-! ## Intact values -/

/-- Whether the strings of a value are among some names. -/
def Names (names : List String) (x : Value) : Prop := strings x.items ⊆ names

mutual

/-- Whether all that a value refers to is there. The alternatives of an allocation are resources. -/
def Intact (k : Known) : Value → Prop
  | .list items => AllIntact k items
  | .pair a b => Intact k b ∧ (a = .str "alternative" → b.Names k.resources)
  | .allocation a => a.Intact k
  | .sortCriterion s => s.Intact k
  | .operand a => a.Intact k
  | .operation o => o.Intact k
  | .expression e => e.operation.Intact k
  | _ => True

/-- Whether this is so of all members of a list. -/
def AllIntact (k : Known) : List Value → Prop
  | [] => True
  | x :: rest => Intact k x ∧ AllIntact k rest

end

theorem allIntact_iff {k : Known} {items : List Value} :
    AllIntact k items ↔ ∀ x ∈ items, x.Intact k := by
  induction items with
  | nil => simp [AllIntact]
  | cons x rest ih => rw [AllIntact, ih, List.forall_mem_cons]

theorem intact_list {k : Known} {items : List Value} :
    (Value.list items).Intact k ↔ ∀ x ∈ items, x.Intact k := by
  rw [Intact, allIntact_iff]

/-- The items of a value that is intact are. -/
theorem Intact.items {k : Known} {x : Value} (h : x.Intact k) : ∀ y ∈ x.items, y.Intact k := by
  have alone : x.items = [x] → ∀ y ∈ x.items, y.Intact k := by
    intro same y hy
    rw [same] at hy
    rwa [List.mem_singleton.mp hy]
  cases x with
  | list items => exact intact_list.mp h
  | _ => exact alone rfl

section
variable {k l : Known}

/-- A value that is intact stays so when more is known, at any nesting. -/
theorem Intact.mono (le : k.Within l) : ∀ {x : Value}, x.Intact k → x.Intact l
  | .list _, h => intact_list.mpr fun y mem => Intact.mono le (intact_list.mp h y mem)
  | .pair _ _, h => ⟨Intact.mono le h.1, fun word => List.Subset.trans (h.2 word) le.resources⟩
  | .allocation _, h => Plan.Allocation.Intact.mono h le
  | .sortCriterion _, h => Plan.SortCriterion.Intact.mono h le
  | .operand _, h => Plan.Operand.Intact.mono le h
  | .operation _, h => Plan.Operation.Intact.mono le h
  | .expression _, h => Plan.Operation.Intact.mono le h
  | .str _, _ | .int _, _ | .float _, _ | .bool _, _ | .date _, _ | .time _, _ | .unit _, _
  | .interval _, _ | .intervalEnd _, _ | .weekDays _, _ | .timeRange _, _ | .column _, _ => trivial
termination_by x => sizeOf x

/-! ## Values in a role -/

/-- Whether a value, if there is one, is intact and names what it has to name in its role, if it has
one. -/
def Serves (k : Known) (role : Option Role) (v : Option Value) : Prop :=
  ∀ x, v = some x → x.Intact k ∧ ∀ r, role = some r → x.Names (k.names r)

variable {role : Option Role}

theorem serves_none : Serves k role none := fun _ h => by cases h

/-- A value without a role has to be intact. -/
theorem serves_of_intact {x : Value} (h : x.Intact k) : Serves k none (some x) := by
  intro y same
  cases same
  exact ⟨h, fun r none => by cases none⟩

theorem Serves.mono {v : Option Value} (h : Serves k role v) (le : k.Within l) : Serves l role v :=
  fun x hx => ⟨(h x hx).1.mono le, fun r hr => List.Subset.trans ((h x hx).2 r hr) (le.names r)⟩

/-- A list serves if its members do. -/
theorem serves_list {items : List Value} (h : ∀ x ∈ items, Serves k role (some x)) :
    Serves k role (some (.list items)) := by
  intro x same
  cases same
  refine ⟨intact_list.mpr fun x hx => (h x hx x rfl).1, fun r hr => ?_⟩
  exact strings_subset fun x hx => (h x hx x rfl).2 r hr

/-- What is collected serves if all that is collected does. -/
theorem serves_collected {items : List Value} (h : ∀ x ∈ items, Serves k role (some x)) :
    Serves k role (Matcher.collected items) := by
  unfold Matcher.collected
  split
  · exact serves_none
  · exact serves_list fun x hx => h x (List.mem_reverse.mp hx)

/-- The value of a token is a text, a number or a time. -/
theorem serves_ofToken? (token : Token) : Serves k none (ofToken? token) := by
  cases token with
  | comment s | eof => exact serves_none
  | _ => exact serves_of_intact trivial

end

end Value

/-! ## The values of a pattern -/

/-- Whether the values of a pattern serve in the roles of their symbols. -/
def Values.Serve (k : Known) (roles : Nat → Option Role) (v : Values) : Prop :=
  ∀ i, Value.Serves k (roles i) (v.value? i)

namespace Values

/-- What is taken is taken from a value that is there. -/
theorem exists_of_typed {v : Values} {i : Nat} {expected : String} {take : Value → Option α} {a : α}
    (h : v.typed i expected take = .ok a) : ∃ x, v.value? i = some x ∧ take x = some a := by
  unfold typed at h
  split at h
  · next found =>
    cases h
    exact Option.bind_eq_some_iff.mp found
  · cases h

namespace Serve

variable {k : Known} {roles : Nat → Option Role} {v : Values} (h : v.Serve k roles) {i : Nat}

include h

/-- The items of a value are intact. -/
theorem list : ∀ x ∈ v.list i, x.Intact k := by
  intro x hx
  unfold Values.list at hx
  cases found : v.value? i with
  | none =>
    rw [found] at hx
    cases hx
  | some y =>
    rw [found] at hx
    exact (h i y found).1.items x hx

/-- The strings among the items of a value are names, if that is its role. -/
theorem names {r : Role} (role : roles i = some r) : strings (v.list i) ⊆ k.names r := by
  unfold Values.list
  cases found : v.value? i with
  | none => exact List.nil_subset _
  | some y => exact (h i y found).2 r role

/-- A string is a name, if that is its role. -/
theorem name {r : Role} (role : roles i = some r) {s : String} (taken : v.string i = .ok s) :
    s ∈ k.names r := by
  obtain ⟨x, found, text⟩ := exists_of_typed taken
  refine (h i x found).2 r role (strings_singleton_subset x ?_)
  exact List.mem_filterMap.mpr ⟨x, List.mem_singleton_self x, text⟩

theorem operand {a : Plan.Operand} (taken : v.operand i = .ok a) : a.Intact k := by
  obtain ⟨x, found, is⟩ := exists_of_typed taken
  cases x <;> cases is
  exact (h i _ found).1

theorem operation {o : Plan.Operation} (taken : v.operation i = .ok o) : o.Intact k := by
  obtain ⟨x, found, is⟩ := exists_of_typed taken
  cases x <;> cases is
  exact (h i _ found).1

theorem expression {e : Plan.LogicalExpression} (taken : v.expression i = .ok e) :
    e.operation.Intact k := by
  obtain ⟨x, found, is⟩ := exists_of_typed taken
  cases x <;> cases is
  exact (h i _ found).1

theorem required {x : Value} (taken : v.required i = .ok x) : x.Intact k :=
  (h i x ((required_eq_ok_iff v i x).mp taken)).1

/-- The allocations of a list are intact. -/
theorem allocations : ∀ a ∈ (v.list i).filterMap (·.allocation?), a.Intact k := by
  intro a ha
  obtain ⟨x, mem, is⟩ := List.mem_filterMap.mp ha
  have intact := h.list x mem
  cases x <;> cases is
  exact intact

/-- What a list says of the order of rows is intact. -/
theorem sortCriteria : ∀ s ∈ (v.list i).filterMap (·.sortCriterion?), s.Intact k := by
  intro s hs
  obtain ⟨x, mem, is⟩ := List.mem_filterMap.mp hs
  have intact := h.list x mem
  cases x <;> cases is
  exact intact

end Serve

end Values

end Planfile
