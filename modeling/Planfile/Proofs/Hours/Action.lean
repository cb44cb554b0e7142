import Planfile.Proofs.Entry.Values
import Planfile.Proofs.Hours.Table
import Planfile.Proofs.Range.Action

/-!
# Planfile — actions on working hours

Statements about working hours stand outside of all bodies and in those of resources. The table of a state has
the hours of the project and of each resource, and which one is current. A header adds to it, the end of a
body goes back, and a statement sets hours where it stands; nothing else changes it. That a resource starts
with the hours of the one around is what inheriting values comes to.

Main results:

* `PropertyAction.hoursTable_header`, `PropertyAction.hoursTable_close` — what bodies are to the table.
* `Context.SetsHours.hoursTable` — what a statement about hours is to it.
* `Prepared.hoursTable` — all other actions leave it alone.
-/

namespace Planfile

open Matcher
open Calendar (WorkingHours HoursStatement DaySet TimeRange)
open Plan (PropertyKind)

/-! ## What is seen of working hours -/

namespace Plan

/-- The hours that a resource has are those that have been set. -/
theorem Property.hours?_set (q : Property) (hours : WorkingHours) :
    (q.set "workinghours" (.workingHours hours)).hours? = some hours :=
  hours?_eq_some_iff.mpr (AttributeTable.get?_set_self _ _ _)

/-- A resource with its hours. -/
def Property.resourceHours (q : Property) : ResourceHours := ⟨q.id, q.parent, q.hours?⟩

/-- The tasks and resources of a project, and its hours. -/
def Project.hoursTable (p : Project) (current : Option (PropertyKind × Nat)) : HoursTable where
  current := current
  tasks := p.tasks.properties.toList.map (·.parent)
  resources := p.resources.properties.toList.map (·.resourceHours)
  project := p.settings.workingHours

end Plan

/-- The table of hours of a state. As long as there is no project it is that of the start. -/
def Context.hoursTable (c : Context) : HoursTable :=
  match c.project with
  | some p => p.hoursTable c.property
  | none => { HoursTable.initial with current := c.property }

theorem Context.hoursTable_of_project {c : Context} {p : Plan.Project} (there : c.project = some p) :
    c.hoursTable = p.hoursTable c.property := by
  rw [hoursTable, there]

theorem Context.hoursTable_of_none {c : Context} (unstarted : c.project = none) :
    c.hoursTable = { HoursTable.initial with current := c.property } := by
  rw [hoursTable, unstarted]

/-- Which task or resource is current is one part of the table. -/
theorem Context.hoursTable_withProperty (c : Context) (property : Option (PropertyKind × Nat)) :
    ({ c with property } : Context).hoursTable = { c.hoursTable with current := property } := by
  unfold Context.hoursTable
  cases c.project <;> rfl

/-! ## What leaves it alone -/

namespace Plan.Project

variable {p : Project} {current : Option (PropertyKind × Nat)}

/-- What leaves alone ids, parents and hours of tasks and resources leaves alone the table. -/
theorem hoursTable_modify {f : Property → Property} (kept : ∀ q, (f q).resourceHours = q.resourceHours)
    (kind : PropertyKind) (i : Nat) :
    (p.setProperties kind ((p.properties kind).modify i f)).hoursTable current = p.hoursTable current := by
  have parents (q : Property) : (f q).parent = q.parent := congrArg ResourceHours.parent (kept q)
  cases kind with
  | task =>
    refine congrArg (fun tasks => { p.hoursTable current with tasks := tasks }) ?_
    show ((p.tasks.properties.modify i f).toList.map (·.parent)) = _
    rw [Array.toList_modify, map_modify_of_eq parents]
  | resource =>
    refine congrArg (fun resources => { p.hoursTable current with resources := resources }) ?_
    show ((p.resources.properties.modify i f).toList.map (·.resourceHours)) = _
    rw [Array.toList_modify, map_modify_of_eq kept]

/-- A value in a scenario is no working hours. -/
@[simp] theorem hoursTable_setScenario (kind : PropertyKind) (i scenario : Nat) (id : String)
    (value : AttributeValue) :
    (p.setProperties kind ((p.properties kind).modify i
      (·.setScenario scenario id value))).hoursTable current = p.hoursTable current :=
  hoursTable_modify (f := (·.setScenario scenario id value)) (fun _ => rfl) kind i

/-- Nor is a value under another name. -/
theorem hoursTable_set {id : String} (other : id ≠ "workinghours") (kind : PropertyKind) (i : Nat)
    (value : AttributeValue) :
    (p.setProperties kind ((p.properties kind).modify i (·.set id value))).hoursTable current =
      p.hoursTable current := by
  refine hoursTable_modify (fun q => ?_) kind i
  have same : (q.set id value).get? "workinghours" = q.get? "workinghours" :=
    AttributeTable.get?_set_ne _ value other.symm
  simp only [Property.resourceHours, Property.hours?, same]
  rfl

/-- An entry of a schema is none. -/
theorem hoursTable_define? {kind : PropertyKind} {d : AttributeDefinition} {set : PropertySet}
    (defined : (p.properties kind).define? d = .ok set) :
    (p.setProperties kind set).hoursTable current = p.hoursTable current := by
  obtain ⟨-, rfl⟩ := PropertySet.definitions_of_define? defined
  cases kind <;> rfl

end Plan.Project

section
variable {v : Values}

/-- Of what is said about the project only working hours are in the table. -/
theorem ProjectAction.keeps_hoursTable {a : ProjectAction} (h : a ≠ .header) :
    Keeps Context.hoursTable (a.perform v) := by
  intro env c
  cases a with
  | header => exact absurd rfl h
  | _ => simp +contextual [perform, realFormat, Context.hoursTable, Plan.Project.hoursTable,
    Plan.Project.modifySettings]

/-- Scenarios have no hours. -/
theorem ScenarioAction.keeps_hoursTable (a : ScenarioAction) : Keeps Context.hoursTable (a.perform v) := by
  intro env c
  cases a <;>
    simp +contextual [perform, closeScenario, enableScenario, scenarioIndex, Context.hoursTable,
      Plan.Project.hoursTable]

/-- Values of tasks and resources in scenarios are no hours. -/
theorem PropertyAction.keeps_hoursTable {a : PropertyAction} (plain : (Action.property a).isPlain = true) :
    Keeps Context.hoursTable (a.perform v) := by
  by_cases readOnly : a.isReadOnly = true
  · exact a.keeps_of_isReadOnly v readOnly
  intro env c
  cases a with
  | header _ | close => cases plain
  | leaveScenario => simp [perform, Matcher.leaveScenario, Context.hoursTable]
  | allocate | flags | vacation =>
    simp +contextual [perform, addAllocations, addFlags, addVacations, Context.hoursTable]
  | depends | ticks id | start | stop | priority => simp +contextual [perform, Context.hoursTable]
  | relativeId | resourceId | allocation | alternatives | selectMode => exact absurd rfl readOnly

/-- An attribute is added to a schema and to the grammar, and to nothing else. -/
theorem Matcher.keeps_hoursTable_applyExtension (e : AttributeExtension) :
    Keeps Context.hoursTable (applyExtension e) := by
  refine fun env c => ends_applyExtension e fun target p set symbols journal _ there _ defined _ => ?_
  have same : (p.setProperties _ set).hoursTable c.property = p.hoursTable c.property :=
    Plan.Project.hoursTable_define? defined
  exact same.trans (Context.hoursTable_of_project there).symm

/-- An attribute that a plan has added is no hours. -/
theorem ExtendAction.keeps_hoursTable {a : ExtendAction}
    (names : ∀ id kind specific, a = .store id kind specific → id ≠ "workinghours") :
    Keeps Context.hoursTable (a.perform v) := by
  intro env c
  cases a with
  | target => simp [perform, chooseTarget, Context.hoursTable]
  | close => simp [perform, Context.hoursTable]
  | declare kind =>
    simp only [perform, Matcher.declareAttribute, ends_bind, ends_take, ends_pure]
    exact fun id _ name _ => keeps_hoursTable_applyExtension _ env c
  | id => simp [perform, extensionId]
  | store id kind specific =>
    have other := names id kind specific rfl
    simp +contextual [perform, Context.hoursTable, Plan.Project.hoursTable_set other]

/-- Reports have none. -/
theorem ReportAction.keeps_hoursTable (a : ReportAction) : Keeps Context.hoursTable (a.perform v) := by
  by_cases readOnly : a.isReadOnly = true
  · exact a.keeps_of_isReadOnly v readOnly
  intro env c
  cases a with
  | header | close | column | columnId | columnTitle | scenarios =>
    simp +contextual [perform, openReport, openColumn, closeColumn, Matcher.setTitle, change,
      enabledScenarios, Context.hoursTable, Plan.Project.hoursTable]
  | sortPath | sortTree => exact absurd rfl readOnly
  | _ =>
    simp only [perform, ends_bind]
    refine (ends_change v (by simp) env c).weaken fun f d changed => ?_
    simp +contextual [changed.2, Context.hoursTable, Plan.Project.hoursTable]

end

/-! ## What changes it -/

namespace Plan.PropertySet

variable {s grown : PropertySet} {id name : String} {parent : Option Nat}

/-- A new task or resource comes behind all others. It starts with the values of the one above for inheritable
attributes, and of those that are there nothing changes but the children. -/
theorem exists_entry_of_add? (inside : ∀ i ∈ parent, i < s.length) (added : s.add? id name parent = .ok grown) :
    ∃ r, r.heading = ⟨s.fullId id parent, name, parent⟩ ∧
      (∀ scenario id, r.stored? scenario id = (parent.bind s.get?).bind fun above =>
        if inheritable s.definitions id then above.stored? scenario id else none) ∧
      ∀ {α : Type} (g : Property → α), (∀ q children, g { q with children } = g q) →
        (grown.inheritAttributes s.length).properties.toList.map g = s.properties.toList.map g ++ [g r] := by
  obtain ⟨r, entry, -, inherited⟩ := exists_inherited_of_add? added inside
  have entryTable := congrArg EntryTable.headings (headings_of_add? added s.length)
  have size : (grown.inheritAttributes s.length).length = s.length + 1 := by
    rw [← length_headings, entryTable, List.length_append, length_headings]
    rfl
  have heading := getElem?_headings (grown.inheritAttributes s.length) s.length
  rw [entryTable, ← length_headings s, List.getElem?_concat_length, length_headings, entry] at heading
  refine ⟨r, (Option.some.inj heading).symm, inherited, fun g same => ?_⟩
  have here (t : PropertySet) (j : Nat) : (t.properties.toList.map g)[j]? = (t.get? j).map g := by
    rw [List.getElem?_map, Array.getElem?_toList, get?]
  refine List.ext_getElem? fun j => ?_
  rw [here, List.getElem?_append, List.length_map, Array.length_toList, ← length]
  split
  · next before =>
    -- those that are there get at most another child
    rw [here, get?_inheritAttributes_ne (Nat.ne_of_gt before), eq_append_of_add? added,
      get?_append_of_lt before, get?_adopted, Option.map_map]
    refine congrArg (Option.map · _) (funext fun q => ?_)
    dsimp only [Function.comp_apply]
    split
    · exact same q _
    · rfl
  · next behind =>
    obtain rfl | beyond := Nat.eq_or_lt_of_le (Nat.le_of_not_lt behind)
    · rw [entry, Nat.sub_self]
      rfl
    · have none : (grown.inheritAttributes s.length).get? j = none :=
        Array.getElem?_eq_none (Nat.le_trans (Nat.le_of_eq size) beyond)
      rw [none, List.getElem?_eq_none (by simp; omega)]
      rfl

/-- A new resource starts with the hours of the one above. -/
theorem resourceHours_of_add? (resources : s.kind = .resource)
    (inherits : inheritable s.definitions "workinghours" = true) (inside : ∀ i ∈ parent, i < s.length)
    (added : s.add? id name parent = .ok grown) :
    (grown.inheritAttributes s.length).properties.toList.map (·.resourceHours) =
      s.properties.toList.map (·.resourceHours) ++ [⟨id, parent, (parent.bind s.get?).bind (·.hours?)⟩] := by
  obtain ⟨r, heading, inherited, listed⟩ := exists_entry_of_add? inside added
  have full : s.fullId id parent = id := by rw [fullId, resources]
  have hours : r.hours? = (parent.bind s.get?).bind (·.hours?) := by
    have found : r.get? "workinghours" = _ := inherited none "workinghours"
    rw [Property.hours?, found]
    cases parent.bind s.get? with
    | none => rfl
    | some q =>
      rw [Option.bind_some, if_pos inherits]
      rfl
  have own : r.id = id := (congrArg Heading.id heading).trans full
  have above : r.parent = parent := congrArg Heading.parent heading
  rw [listed (·.resourceHours) fun _ _ => rfl, Property.resourceHours, own, above, hours]

/-- A new task or resource is below the one above. -/
theorem parents_of_add? (added : s.add? id name parent = .ok grown) (index : Nat) :
    (grown.inheritAttributes index).properties.toList.map (·.parent) =
      s.properties.toList.map (·.parent) ++ [parent] := by
  have entryTable := congrArg (fun r => r.headings.map (·.parent)) (headings_of_add? added index)
  simp only [PropertySet.entryTable, List.map_map, List.map_append] at entryTable
  exact entryTable

end Plan.PropertySet

/-- A task or a resource that is added is entered. -/
theorem Plan.Project.hoursTable_add? {p : Project} {kind : PropertyKind}
    {current : Option (PropertyKind × Nat)} (conforms : p.Conforms) (own : (p.properties kind).kind = kind)
    (inside : ∀ i ∈ current.map (·.2), i < (p.properties kind).length) {id name : String} {grown : PropertySet}
    (added : (p.properties kind).add? id name (current.map (·.2)) = .ok grown) :
    (p.setProperties kind (grown.inheritAttributes (p.properties kind).length)).hoursTable
      (some (kind, (p.properties kind).length)) = (p.hoursTable current).enter ⟨kind, id, name⟩ := by
  cases kind with
  | task =>
    have number : p.tasks.length = (p.tasks.properties.toList.map (·.parent)).length := (List.length_map _).symm
    refine HoursTable.ext ?_ (PropertySet.parents_of_add? added _) rfl rfl
    exact congrArg (fun i => some (PropertyKind.task, i)) number
  | resource =>
    have inherits : inheritable (p.properties .resource).definitions "workinghours" = true :=
      List.any_eq_true.mpr ⟨_, conforms.builtin .resource (List.mem_of_getElem? (i := 2) rfl), rfl⟩
    have entered := PropertySet.resourceHours_of_add? own inherits inside added
    have number : p.resources.length = (p.resources.properties.toList.map (·.resourceHours)).length :=
      (List.length_map _).symm
    -- the resource above is the current one
    have hours : ((current.map (·.2)).bind (p.properties .resource).get?).bind (·.hours?) =
        (current.bind fun above => (p.resources.properties.toList.map (·.resourceHours))[above.2]?).bind
          (·.hours) := by
      cases current with
      | none => rfl
      | some above =>
        rw [Option.map_some, Option.bind_some, Option.bind_some, List.getElem?_map, Array.getElem?_toList,
          Option.bind_map]
        rfl
    rw [hours] at entered
    refine HoursTable.ext ?_ rfl entered rfl
    exact congrArg (fun i => some (PropertyKind.resource, i)) number

section
variable {v : Values} {env : Surroundings} {c d : Context} {o : Option Value}

/-- What a header comes to: it adds a task or a resource below the current one, whose body is read next. -/
theorem PropertyAction.exists_of_header {kind : PropertyKind} (placed : c.entryLists.Placed)
    (place : c.entryLists.property.all (·.1 = kind) = true)
    (run : (header kind).perform v env c = (.ok o, d)) :
    ∃ id name p grown, v.string 1 = .ok id ∧ v.string 2 = .ok name ∧ c.project = some p ∧
      (p.properties kind).kind = kind ∧ (∀ i ∈ c.property.map (·.2), i < (p.properties kind).length) ∧
      (p.properties kind).add? id name (c.property.map (·.2)) = .ok grown ∧
      d = { c with
        project := some (p.setProperties kind (grown.inheritAttributes (p.properties kind).length))
        property := some (kind, (p.properties kind).length), scenarioIndex := 0 } := by
  have above : openProperty? c kind = c.property.map (·.2) := by
    rw [← Context.property_of_place place, Option.map_map]
    exact (congrFun Option.map_id _).symm
  have ends : Ends (fun _ d => ∃ id name p grown, v.string 1 = .ok id ∧ v.string 2 = .ok name ∧
      c.project = some p ∧ (p.properties kind).add? id name (openProperty? c kind) = .ok grown ∧
      d = { c with
        project := some (p.setProperties kind (grown.inheritAttributes (p.properties kind).length))
        property := some (kind, (p.properties kind).length), scenarioIndex := 0 })
      ((header kind).perform v) env c := by
    simp only [perform, ends_bind, ends_take, ends_openProperty, ends_pure]
    exact fun id first name second p there grown added => ⟨id, name, p, grown, first, second, there, added, rfl⟩
  obtain ⟨id, name, p, grown, first, second, there, added, rfl⟩ := ends.of_ok run
  rw [above] at added
  refine ⟨id, name, p, grown, first, second, there, ?_, fun i current => ?_, added, rfl⟩
  · refine placed.kinds kind _ ?_
    rw [Context.entryLists_of_project there]
    rfl
  · rw [← above] at current
    have bound := placed.current kind i (property_of_openProperty? current)
    rw [Context.entryLists_of_project there] at bound
    exact Nat.lt_of_lt_of_eq bound (Plan.PropertySet.length_headings _)

/-- A header adds a task or a resource below the current one. -/
theorem PropertyAction.hoursTable_header {kind : PropertyKind} (placed : c.entryLists.Placed)
    (place : c.entryLists.property.all (·.1 = kind) = true) (conforms : ∀ p, c.project = some p → p.Conforms)
    (run : (header kind).perform v env c = (.ok o, d)) :
    ∃ id name, v.string 1 = .ok id ∧ v.string 2 = .ok name ∧ d.extensions = c.extensions ∧
      d.tokens = c.tokens ∧ c.hoursTable.step (.opens ⟨kind, id, name⟩) = some d.hoursTable := by
  obtain ⟨id, name, p, grown, first, second, there, own, inside, added, rfl⟩ := exists_of_header placed place run
  refine ⟨id, name, first, second, rfl, rfl, ?_⟩
  have here : c.hoursTable.current.all (·.1 = kind) = true := by
    rw [Context.hoursTable_of_project there]
    exact place
  rw [HoursTable.step, if_pos here, Context.hoursTable_of_project there]
  exact congrArg some (Plan.Project.hoursTable_add? (conforms p there) own inside added).symm

/-- The end of a body goes back to the task or resource around. -/
theorem PropertyAction.hoursTable_close (run : close.perform v env c = (.ok o, d)) :
    c.hoursTable.step .closes = some d.hoursTable := by
  cases run
  -- what is around the current entry is its parent, in the state as in the table
  have around : (c.property.bind fun current => c.currentProperty?.bind fun q => q.parent.bind fun i =>
      some (current.1, i)) = c.hoursTable.around := by
    cases there : c.project with
    | none =>
      rw [Context.hoursTable_of_none there]
      rcases inside : c.property with _ | ⟨_ | _, i⟩ <;>
        simp [Context.currentProperty?, there, HoursTable.initial, HoursTable.around]
    | some p =>
      rw [Context.hoursTable_of_project there]
      rcases inside : c.property with _ | ⟨_ | _, i⟩
      · rfl
      all_goals
        simp only [Context.currentProperty?, inside, there, Option.bind_eq_bind, Option.bind_some,
          HoursTable.around, Plan.Project.hoursTable, List.getElem?_map, Array.getElem?_toList,
          Option.bind_map, Plan.Project.properties, Plan.PropertySet.get?, Option.map_bind]
        refine congrArg (Option.bind _) (funext fun q => ?_)
        dsimp only [Function.comp_apply, Plan.Property.resourceHours]
        cases q.parent <;> rfl
  rw [HoursTable.step, ← around]
  exact congrArg some (c.hoursTable_withProperty _).symm

/-- What setting hours comes to: where no body is read those of the project are set, and else those of the
current task or resource. It goes on from its own hours, or from those of the project if it has none. -/
inductive Context.SetsHours (c : Context) (days : DaySet) (ranges : List TimeRange) : Context → Prop
  | project {p : Plan.Project} (there : c.project = some p) (outside : c.property = none) :
    SetsHours c days ranges { c with
      project := some (p.modifySettings fun s =>
        { s with workingHours := s.workingHours.setAll days ranges }) }
  | entry {p : Plan.Project} {kind : PropertyKind} {i : Nat} {q : Plan.Property} (there : c.project = some p)
    (current : c.property = some (kind, i)) (found : (p.properties kind).get? i = some q) :
    SetsHours c days ranges { c with
      project := some (p.setProperties kind ((p.properties kind).modify i (·.set "workinghours"
        (.workingHours ((q.hours?.getD p.settings.workingHours).setAll days ranges))))) }

theorem Matcher.setsHours_of_setWorkingHours (days : DaySet) (ranges : List TimeRange) :
    Ends (fun _ d => c.SetsHours days ranges d) (setWorkingHours days ranges) env c := by
  rw [ends_setWorkingHours]
  exact ⟨fun outside p there => .project there outside,
    fun kind i current p there q found => .entry there current found⟩

/-- In the body of a task nothing is said about hours. -/
theorem Context.Allows.kind_of_workingHours (allowed : c.Allows (.calendar .workingHours)) {kind : PropertyKind}
    {i : Nat} (current : c.property = some (kind, i)) : kind = .resource := by
  rcases allowed with closing | ⟨e, effect, -⟩ | ⟨id, valueKind, specific, storing⟩
  · cases closing
  · rw [Action.effect?, Context.place, current] at effect
    cases kind with
    | task => cases effect
    | resource => rfl
  · cases storing

/-- In the table a statement about hours is what it says. -/
theorem Context.SetsHours.hoursTable {s : HoursStatement} (h : c.SetsHours s.daySet s.ranges d)
    (allowed : c.Allows (.calendar .workingHours)) : c.hoursTable.step (.tells s) = some d.hoursTable := by
  cases h with
  | project there outside =>
    rw [Context.hoursTable_of_project there, outside]
    rfl
  | @entry p kind i q there current found =>
    obtain rfl := allowed.kind_of_workingHours current
    -- a resource without hours of its own starts from those of the project
    let entered := p.resources.properties.toList.map (·.resourceHours)
    let hours := (q.hours?.getD p.settings.workingHours).setAll s.daySet s.ranges
    have inside : i < entered.length := by
      rw [List.length_map]
      exact (Array.getElem?_eq_some_iff.mp found).1
    have own : (entered[i]?).map (·.hours) = some q.hours? := by
      have found : p.resources.properties[i]? = some q := found
      rw [List.getElem?_map, Array.getElem?_toList, found]
      rfl
    have set : (p.resources.properties.modify i (·.set "workinghours" (.workingHours hours))).toList.map
        (·.resourceHours) = HoursTable.assigned entered i (some hours) := by
      rw [Array.toList_modify]
      refine Plan.map_modify (fun q => ?_) _ i
      rw [Plan.Property.resourceHours, q.hours?_set]
      rfl
    have modified := HoursTable.modify_eq_assigned own fun hours =>
      some ((hours.getD p.settings.workingHours).setAll s.daySet s.ranges)
    rw [Context.hoursTable_of_project there, Context.hoursTable_of_project rfl, current]
    exact (if_pos inside).trans (congrArg some (HoursTable.ext rfl rfl (modified.trans set.symm) rfl))

end

/-! ## Statements one behind the other -/

namespace Plan.Project

/-- A project with other hours. -/
def withHours (p : Project) (hours : WorkingHours) : Project :=
  p.modifySettings fun s => { s with workingHours := hours }

/-- A project where one resource has other hours. -/
def withResourceHours (p : Project) (i : Nat) (hours : WorkingHours) : Project :=
  { p with resources := p.resources.modify i (·.set "workinghours" (.workingHours hours)) }

/-- The hours that are set last count. -/
theorem withResourceHours_withResourceHours (p : Project) (i : Nat) (others hours : WorkingHours) :
    (p.withResourceHours i others).withResourceHours i hours = p.withResourceHours i hours := by
  have table (q : Property) : (q.set "workinghours" (.workingHours others)).set "workinghours"
      (.workingHours hours) = q.set "workinghours" (.workingHours hours) := by
    simp only [Property.set, AttributeTable.set_set]
  have entries : ((p.resources.properties.modify i (·.set "workinghours" (.workingHours others))).modify i
      (·.set "workinghours" (.workingHours hours))) =
        p.resources.properties.modify i (·.set "workinghours" (.workingHours hours)) := by
    rw [← Array.toList_inj, Array.toList_modify, Array.toList_modify, Array.toList_modify, List.modify_modify_eq]
    exact congrArg (List.modify _ i) (funext table)
  exact congrArg (fun properties => { p with resources := { p.resources with properties } }) entries

end Plan.Project

/-- What statements about working hours do, one behind the other. -/
def Matcher.settleHours (ss : List HoursStatement) : Matcher Unit :=
  ss.forM fun s => setWorkingHours s.daySet s.ranges

section
variable {env : Surroundings} {c : Context} {p : Plan.Project}

/-- Outside of all bodies statements settle the hours of the project. -/
theorem Matcher.run_settleHours_outside (there : c.project = some p) (outside : c.property = none)
    (ss : List HoursStatement) :
    settleHours ss env c = (.ok (), { c with
      project := some (p.withHours (p.settings.workingHours.settled ss)) }) := by
  induction ss generalizing c p with
  | nil =>
    rw [WorkingHours.settled_nil]
    exact congrArg (fun project => (Except.ok (), { c with project })) there
  | cons s ss ih =>
    have first : setWorkingHours s.daySet s.ranges env c = (.ok (), { c with
        project := some (p.withHours (p.settings.workingHours.setAll s.daySet s.ranges)) }) := by
      simp only [setWorkingHours, run_bind, run_get, outside, modifySettings, modifyProject, project, there,
        orFail, run_pure, run_modify]
      rfl
    show (setWorkingHours s.daySet s.ranges >>= fun _ => settleHours ss) env c = _
    rw [run_bind, first, WorkingHours.settled_cons]
    exact ih (c := { c with project := some _ }) rfl outside

/-- A statement in the body of a resource sets its hours. -/
theorem Matcher.run_setWorkingHours_inside {i : Nat} {q : Plan.Property} (there : c.project = some p)
    (current : c.property = some (.resource, i)) (found : p.resources.get? i = some q) (days : DaySet)
    (ranges : List TimeRange) :
    setWorkingHours days ranges env c = (.ok (), { c with
      project := some (p.withResourceHours i ((q.hours?.getD p.settings.workingHours).setAll days ranges)) }) := by
  have found : (p.properties .resource).get? i = some q := found
  have set (hours : WorkingHours) : modifyProperty (·.set "workinghours" (.workingHours (hours.setAll days ranges)))
      env c = (.ok (), { c with project := some (p.withResourceHours i (hours.setAll days ranges)) }) := by
    simp only [modifyProperty, run_bind, run_get, orFail, current, there, found, run_pure, run_modify]
    rfl
  simp only [setWorkingHours, run_bind, run_get, current, currentProperty, project, there, found, orFail, run_pure]
  -- it has hours of its own, or no value, or one that is no hours
  rcases own : q.get? "workinghours" with _ | _ | _ | value <;>
    simp only [run_bind, run_get, there, run_pure, set, Plan.Property.hours?, own, Option.getD_some, Option.getD_none,
      current]

/-- In the body of a resource they settle its hours, which go on from its own, or from those of the project if
it has none. Nothing else changes. -/
theorem Matcher.run_settleHours_inside {i : Nat} {q : Plan.Property} (there : c.project = some p)
    (current : c.property = some (.resource, i)) (found : p.resources.get? i = some q) (s : HoursStatement)
    (ss : List HoursStatement) :
    settleHours (s :: ss) env c = (.ok (), { c with
      project := some (p.withResourceHours i ((q.hours?.getD p.settings.workingHours).settled (s :: ss))) }) := by
  induction ss generalizing c p q s with
  | nil =>
    show (setWorkingHours s.daySet s.ranges >>= fun _ => pure ()) env c = _
    rw [run_bind, run_setWorkingHours_inside there current found, WorkingHours.settled_cons,
      WorkingHours.settled_nil]
    rfl
  | cons other ss ih =>
    let hours := (q.hours?.getD p.settings.workingHours).setAll s.daySet s.ranges
    let set := q.set "workinghours" (.workingHours hours)
    have own : set.hours? = some hours := q.hours?_set hours
    have found' : (p.withResourceHours i hours).resources.get? i = some set := by
      exact (Plan.PropertySet.get?_modify i i _).trans (by rw [if_pos rfl, found]; rfl)
    show (setWorkingHours s.daySet s.ranges >>= fun _ => settleHours (other :: ss)) env c = _
    rw [run_bind, run_setWorkingHours_inside there current found, WorkingHours.settled_cons]
    refine (ih (c := { c with project := some _ }) rfl current found' other).trans ?_
    rw [own, Plan.Project.withResourceHours_withResourceHours]
    rfl

end

/-! ## All other actions -/

/-- A project starts with the table of the start. -/
theorem ProjectAction.hoursTable_header {v : Values} {env : Surroundings} {c d : Context}
    (placed : c.entryLists.Placed) (unstarted : c.project = none) {u : Unit}
    (run : header.perform v env c = (.ok u, d)) : d.hoursTable = c.hoursTable := by
  have ends : Ends (fun _ d => d.hoursTable = c.hoursTable) (header.perform v) env c := by
    simp only [perform, ends_bind, ends_take, ends_modify]
    intro id _ name _ version _ time _
    rw [Context.hoursTable_of_none unstarted, Context.hoursTable_of_project rfl,
      Context.property_of_none placed unstarted]
    rfl
  exact ends.of_ok run

/-- Whether an action neither goes in or out of a body, nor sets hours, nor goes on with another file. -/
def Action.sparesHoursTable : Action → Bool
  | .property (.header _) | .property .close | .calendar .workingHours | .includeFile _ => false
  | _ => true

/-- All actions but these leave the table alone. -/
theorem Prepared.hoursTable {ofRule : RuleId → Shape} {effects : Effects} {env : Surroundings} {p : Pattern}
    {v : Values} {a : Action} {c d : Context} (prepared : Prepared env.grammar ofRule effects p v c)
    (action : p.action = some a) (names : p.NamesCapital) (placed : c.entryLists.Placed)
    (spares : a.sparesHoursTable = true) {matchRule : RuleId → Matcher (Option Value)} {o : Option Value}
    (run : a.perform matchRule v env c = (.ok o, d)) : d.hoursTable = c.hoursTable := by
  have readOnly (isReadOnly : a.isReadOnly = true) : d.hoursTable = c.hoursTable :=
    (a.keeps_of_isReadOnly v (fun _ _ => rfl) isReadOnly matchRule env c).of_ok run
  cases a with
  | rule name => exact (prepared.allows _ action).not_rule.elim
  | includeFile i => cases spares
  | project a =>
    obtain ⟨_, x, acted, last⟩ := exists_of_run_bind run
    cases last
    by_cases starts : a = .header
    · subst starts
      exact ProjectAction.hoursTable_header placed (prepared.allows _ action).unstarted acted
    · exact (ProjectAction.keeps_hoursTable starts env c).of_ok acted
  | scenario a => exact (a.keeps_hoursTable env c).of_ok run
  | property a =>
    have plain : (Action.property a).isPlain = true := by cases a <;> first | rfl | cases spares
    exact (PropertyAction.keeps_hoursTable plain env c).of_ok run
  | extend a =>
    refine (ExtendAction.keeps_hoursTable (fun id kind specific same => ?_) env c).of_ok run
    rintro rfl
    -- names of added attributes start with a capital letter
    exact absurd (names "workinghours" kind specific (same ▸ action)) (by decide)
  | report a => exact (a.keeps_hoursTable env c).of_ok run
  | calendar a =>
    have readOnly' : (Action.calendar a).isReadOnly = true := by cases a <;> first | rfl | cases spares
    exact readOnly readOnly'
  | logical a => exact readOnly rfl
  | _ => exact readOnly rfl

end Planfile
