import Planfile.Proofs.Statement.Action
import Planfile.Proofs.Subtree.Entries

/-!
# Planfile — what is done in the body of a task or a resource

What stands in the body of an entry is about this entry: its actions set values of it, or look at what is
there. They leave alone the entries of the other kind, what is known of the project apart from entries, what
a plan has added to the grammar, and all other registers. The header of an entry makes it, and the end of
its body goes back to the entry above.

Main results:

* `Action.stays_of_run` — an action in a body changes the entry of the body alone.
* `Opens.of_header`, `Opens.closed` — between a header and the end of its body an entry is added.
-/

namespace Planfile

open Plan (PropertyKind)

/-! ## Parts of a state -/

namespace Plan.Project

/-- A project with other tasks, or with other resources, and the schema of before. -/
def withEntries (p : Project) (kind : PropertyKind) (entries : Array Property) (index : List (String × Nat)) :
    Project :=
  p.setProperties kind ⟨(p.properties kind).kind, (p.properties kind).definitions, entries, index⟩

variable {p : Project} {kind : PropertyKind} {entries others : Array Property} {index other : List (String × Nat)}

@[simp] theorem withEntries_withEntries :
    (p.withEntries kind entries index).withEntries kind others other = p.withEntries kind others other := by
  cases kind <;> rfl

@[simp] theorem withEntries_self :
    p.withEntries kind (p.properties kind).properties (p.properties kind).index = p := by
  cases kind <;> rfl

@[simp] theorem properties_withEntries :
    (p.withEntries kind entries index).properties kind =
      ⟨(p.properties kind).kind, (p.properties kind).definitions, entries, index⟩ := by
  cases kind <;> rfl

/-- A set that is of the same kind and has the same schema has other entries at most. -/
theorem setProperties_eq_withEntries (set : PropertySet) (same : set.kind = (p.properties kind).kind)
    (definitions : set.definitions = (p.properties kind).definitions) :
    p.setProperties kind set = p.withEntries kind set.properties set.index := by
  rw [withEntries, ← same, ← definitions]

end Plan.Project

/-- The part of a state that is not about the entries of a kind. -/
structure OtherParts where
  project : Option Plan.Project
  extensions : List (RuleId × Pattern)
  target : Option ExtendTarget
  scenario : Option Nat
  scenariosReplaced : Bool
  report : Option Nat
  column : Option Plan.Column

namespace Context

/-- The tasks, or the resources. -/
def entries (c : Context) (kind : PropertyKind) : Array Plan.Property :=
  (c.project.map fun p => (p.properties kind).properties).getD #[]

/-- The part of a state that is not about the entries of a kind. -/
def otherParts (c : Context) (kind : PropertyKind) : OtherParts :=
  ⟨c.project.map (·.withEntries kind #[] []), c.extensions, c.extendTarget, c.scenario, c.scenariosReplaced, c.report,
    c.column⟩

variable {c d : Context} {kind : PropertyKind}

theorem entries_of_project {p : Plan.Project} (there : c.project = some p) :
    c.entries kind = (p.properties kind).properties := by
  rw [entries, there]
  rfl

/-- Where the project has other entries of a kind, all that is not about these is as before. -/
theorem otherParts_of_entries {p : Plan.Project} (there : c.project = some p) (entries : Array Plan.Property)
    (index : List (String × Nat)) (property : Option (PropertyKind × Nat)) (scenarioIndex : Nat) :
    ({ c with project := some (p.withEntries kind entries index), property, scenarioIndex } :
      Context).otherParts kind = c.otherParts kind := by
  unfold otherParts
  rw [there, Option.map_some, Option.map_some, Plan.Project.withEntries_withEntries]

/-- Where what is not about the entries of a kind is the same, so is the project but for these. -/
theorem project_of_otherParts (same : d.otherParts kind = c.otherParts kind) {p : Plan.Project}
    (there : c.project = some p) :
    ∃ index, d.project = some (p.withEntries kind (d.entries kind) index) := by
  have left : d.project.map (·.withEntries kind #[] []) = c.project.map (·.withEntries kind #[] []) :=
    congrArg OtherParts.project same
  rw [there, Option.map_some] at left
  obtain ⟨q, still, left⟩ := Option.map_eq_some_iff.mp left
  refine ⟨(q.properties kind).index, ?_⟩
  rw [still, entries_of_project still]
  calc some q = some ((q.withEntries kind #[] []).withEntries kind (q.properties kind).properties
        (q.properties kind).index) := by simp
    _ = some (p.withEntries kind (q.properties kind).properties (q.properties kind).index) := by
      rw [left]
      simp

end Context

/-! ## What stands in a body -/

/-- Whether on the way from one state to another, in the body of an entry, only this entry has changed and
what is below it. -/
structure Stays (kind : PropertyKind) (i : Nat) (c d : Context) : Prop where
  property : d.property = c.property
  otherParts : d.otherParts kind = c.otherParts kind
  entries : Plan.Amends i (c.entries kind) (d.entries kind)

variable {kind : PropertyKind} {i : Nat} {env : Surroundings} {c d x : Context}

namespace Stays

theorem refl (kind : PropertyKind) (i : Nat) (c : Context) : Stays kind i c c :=
  ⟨rfl, rfl, .refl _ _⟩

theorem trans (h : Stays kind i c x) (hx : Stays kind i x d) : Stays kind i c d :=
  ⟨hx.property.trans h.property, hx.otherParts.trans h.otherParts, h.entries.trans hx.entries⟩

end Stays

namespace Matcher

/-- Changing the current entry changes no other one. -/
theorem stays_modifyProperty (inside : c.property = some (kind, i)) {f : Plan.Property → Plan.Property}
    (hf : ∀ q, (f q).parent = q.parent) :
    Ends (fun _ d => Stays kind i c d) (modifyProperty f) env c := by
  rw [ends_modifyProperty]
  intro other j current p there q _
  cases inside.symm.trans current
  rw [Plan.Project.setProperties_eq_withEntries ((p.properties kind).modify i f) rfl rfl]
  refine ⟨rfl, Context.otherParts_of_entries there _ _ _ _, ?_⟩
  rw [Context.entries_of_project there, Context.entries_of_project rfl,
    Plan.Project.properties_withEntries]
  exact Plan.amends_modify hf i _

/-- So does setting an attribute in a scenario. -/
theorem stays_setScenarioAttribute (inside : c.property = some (kind, i)) (id : String)
    (value : Plan.AttributeValue) :
    Ends (fun _ d => Stays kind i c d) (setScenarioAttribute id value) env c := by
  rw [ends_setScenarioAttribute]
  exact stays_modifyProperty inside fun _ => rfl

end Matcher

open Matcher

variable (v : Values)

/-- Attributes of tasks and resources are those of the current entry. -/
theorem PropertyAction.stays_perform (inside : c.property = some (kind, i)) {a : PropertyAction}
    (plain : (Action.property a).isPlain = true) :
    Ends (fun _ d => Stays kind i c d) (a.perform v) env c := by
  by_cases readOnly : a.isReadOnly = true
  · have looks : Keeps (fun c => c) (a.perform v) := a.keeps_of_isReadOnly v readOnly
    refine (looks env c).weaken fun _ d same => ?_
    subst same
    exact .refl kind i d
  have one (id : String) (value : Plan.AttributeValue) :
      Ends (fun _ d => Stays kind i c d) (setScenarioAttribute id value) env c :=
    stays_setScenarioAttribute inside id value
  cases a with
  | header _ | close => cases plain
  | leaveScenario => exact ⟨rfl, rfl, .refl _ _⟩
  | allocate | flags | vacation =>
    simp only [perform, addAllocations, addFlags, addVacations, ends_bind, ends_get, ends_pure]
    exact one _ _
  | depends =>
    simp only [perform, ends_bind, ends_pure]
    exact one _ _
  | ticks id =>
    simp only [perform, ends_bind, ends_take, ends_pure]
    exact fun _ _ => one _ _
  | start | stop =>
    simp only [perform, ends_bind, ends_take, ends_pure]
    intro date _
    -- the direction of scheduling goes with the date
    refine (one _ _).weaken fun _ x first => ?_
    exact (stays_setScenarioAttribute (first.property.trans inside) _ _).weaken fun _ d => first.trans
  | priority =>
    simp only [perform, ends_bind, ends_take, ends_ite, ends_fail, ends_pure]
    intro priority _
    split
    · trivial
    · exact one _ _
  | relativeId | resourceId | allocation | alternatives | selectMode => exact absurd rfl readOnly

/-- Working hours in the body of a resource are its own. -/
theorem Matcher.stays_workingHours (inside : c.property = some (kind, i)) :
    Ends (fun _ d => Stays kind i c d) (Matcher.workingHours v) env c := by
  rw [ends_workingHours]
  intro days _
  refine .setWorkingHours (fun outside => ?_) fun hours => stays_modifyProperty inside fun _ => rfl
  cases inside.symm.trans outside

namespace Action

/-- Whether an action can stand in the body of a task or a resource, with the statements in it. -/
def isOfBody : Action → Bool
  | .property _ | .scenario .select | .extend (.store _ _ _) | .calendar .workingHours => true
  | a => a.isReadOnly

/-- An action in a body changes the entry of the body alone. -/
theorem stays_of_run {a : Action} (own : a.isOfBody = true) (plain : a.isPlain = true)
    (inside : c.property = some (kind, i)) {matchRule : RuleId → Matcher (Option Value)}
    {o : Option Value} (run : a.perform matchRule v env c = (.ok o, d)) : Stays kind i c d := by
  by_cases readOnly : a.isReadOnly = true
  · have looks : Keeps (fun c => (c.property, c.otherParts kind, c.entries kind)) (a.perform matchRule v) :=
      a.keeps_of_isReadOnly v (fun _ _ => rfl) readOnly matchRule
    have same := (looks env c).of_ok run
    injection same with property rest
    injection rest with otherParts entries
    exact ⟨property, otherParts, entries ▸ .refl _ _⟩
  -- all others write to the current entry
  have ends : Ends (fun _ d => Stays kind i c d) (a.perform matchRule v) env c := by
    cases a with
    | property a => exact a.stays_perform v inside plain
    | scenario a =>
      cases a with
      | select =>
        simp only [perform, ScenarioAction.perform, ends_bind, ends_take, ends_modify, ends_pure,
          Matcher.scenarioIndex, ends_project, ends_orFail]
        exact fun _ _ _ _ _ _ => ⟨rfl, rfl, .refl _ _⟩
      | _ => exact absurd own readOnly
    | extend a =>
      cases a with
      | store id valueKind specific =>
        simp only [perform, ExtendAction.perform, ends_bind, ends_take, ends_ite, ends_pure]
        intro value _
        split
        · exact stays_setScenarioAttribute inside id value
        · exact stays_modifyProperty inside fun _ => rfl
      | _ => exact absurd own readOnly
    | calendar a =>
      cases a with
      | workingHours =>
        simp only [perform, CalendarAction.perform, ends_bind, ends_pure]
        exact Matcher.stays_workingHours v inside
      | _ => exact absurd own readOnly
    | _ => exact absurd own readOnly
  exact ends.of_ok run

end Action

/-! ## Headers and the ends of bodies -/

/-- Whether on the way from one state to another an entry has been made, in whose body the second one
is. -/
structure Opens (kind : PropertyKind) (c d : Context) : Prop where
  property : d.property = some (kind, (c.entries kind).size)
  place : c.property.all (·.1 = kind) = true
  started : c.project ≠ none
  otherParts : d.otherParts kind = c.otherParts kind
  entries : Plan.Adds (openProperty? c kind) (c.entries kind) (d.entries kind)

/-- Whether on the way from one state to another an entry has been added, with what is in its body, below
the one whose body is read before and behind. -/
structure Gains (kind : PropertyKind) (c d : Context) : Prop where
  property : d.property = c.property
  place : c.property.all (·.1 = kind) = true
  started : c.project ≠ none
  otherParts : d.otherParts kind = c.otherParts kind
  entries : Plan.Adds (openProperty? c kind) (c.entries kind) (d.entries kind)

/-- The entry whose body is read is the one of its kind. -/
theorem Context.property_of_place (place : c.property.all (·.1 = kind) = true) :
    (openProperty? c kind).map (kind, ·) = c.property := by
  unfold openProperty?
  cases inside : c.property with
  | none => rfl
  | some current =>
    obtain ⟨other, j⟩ := current
    rw [inside, Option.all_some, decide_eq_true_iff] at place
    obtain rfl : other = kind := place
    exact congrArg _ (if_pos rfl)

namespace Opens

/-- A header makes an entry. -/
theorem of_header (place : c.property.all (·.1 = kind) = true) {o : Option Value}
    (run : (PropertyAction.header kind).perform v env c = (.ok o, d)) : Opens kind c d := by
  have ends : Ends (fun _ d => Opens kind c d) ((PropertyAction.header kind).perform v) env c := by
    simp only [PropertyAction.perform, leaveScenario, ends_bind, ends_take, ends_openProperty, ends_modify,
      ends_pure]
    intro id _ name _ p there grown added
    have before : c.entries kind = _ := Context.entries_of_project there
    have entryTable := Plan.PropertySet.headings_of_add? added (p.properties kind).length
    rw [Plan.Project.setProperties_eq_withEntries _ (congrArg EntryTable.kind entryTable)
      (congrArg EntryTable.definitions entryTable)]
    refine ⟨?_, place, there ▸ Option.some_ne_none _, Context.otherParts_of_entries there _ _ _ _, ?_⟩
    · rw [before]
      rfl
    · rw [before, Context.entries_of_project rfl, Plan.Project.properties_withEntries]
      exact Plan.PropertySet.adds_of_add? added
  exact ends.of_ok run

/-- What has been entered is left at the end of its body, where the entry above is current again. -/
theorem closed (h : Opens kind c x) {e : Context} (body : Stays kind (c.entries kind).size x d)
    {o : Option Value} (run : PropertyAction.close.perform v env d = (.ok o, e)) : Gains kind c e := by
  have entries := h.entries.amended body.entries
  obtain ⟨b, entry, parent⟩ := entries.entry
  obtain ⟨p, there⟩ := Option.ne_none_iff_exists'.mp h.started
  have inside : d.property = some (kind, (c.entries kind).size) := body.property.trans h.property
  have otherParts := body.otherParts.trans h.otherParts
  -- the entry that is closed is the new one, and its parent is the one around it
  have current : d.currentProperty? = some b := by
    obtain ⟨index, still⟩ := Context.project_of_otherParts otherParts there
    rw [Context.entries_of_project still] at entry
    simp only [Context.currentProperty?, inside, still, Option.bind_eq_bind, Option.bind_some]
    exact entry
  cases run
  refine ⟨?_, h.place, h.started, otherParts, entries⟩
  have back : (d.property.bind fun current => d.currentProperty?.bind fun q => q.parent.bind fun i =>
      some (current.1, i)) = b.parent.map (kind, ·) := by
    rw [inside, current, Option.bind_some, Option.bind_some]
    cases b.parent <;> rfl
  exact back.trans (parent ▸ Context.property_of_place h.place)

end Opens

/-- A statement in the body of an entry is a change of this one. -/
theorem Gains.stays {other : PropertyKind} (h : Gains other c d) (inside : c.property = some (kind, i)) :
    Stays kind i c d := by
  have place := h.place
  rw [inside, Option.all_some, decide_eq_true_iff] at place
  obtain rfl : kind = other := place
  have own : openProperty? c kind = some i := by
    unfold openProperty?
    rw [inside]
    exact if_pos rfl
  exact ⟨h.property, h.otherParts, (own ▸ h.entries).amends⟩

end Planfile
