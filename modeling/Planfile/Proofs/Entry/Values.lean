import Planfile.Proofs.Entry.Inheritance
import Planfile.Proofs.Entry.Links
import Planfile.Proofs.Subtree.Language

/-!
# Planfile — whose values change

A new task or resource has copies of values of the one above. Nothing ties a copy to where it comes from: values
are set in the entry whose body is read, and in no other. So what the parent sets later does not reach a child
that is there, and what the child sets does not reach the parent.

The entries whose bodies are open are the current one and those around it. An entry whose body has been closed
is none of them any more, since new entries come below open ones only. So it keeps its values.

Main results:

* `Prepared.spares` — an action changes no values but those of the current entry.
* `PropertyAction.values_of_header` — what a header makes, and what it leaves.
* `Prepared.shut` — an entry whose body is closed stays closed.
* `Language.inherits_of_visits` — values of parents and children, wherever a plan is being read.
-/

namespace Planfile

open Matcher
open Plan (PropertyKind AttributeTable)

/-- The entry whose body is read, if it is of a kind, is the current one. -/
theorem Matcher.property_of_openProperty? {c : Context} {kind : PropertyKind} {i : Nat}
    (inside : openProperty? c kind = some i) : c.property = some (kind, i) := by
  unfold openProperty? at inside
  split at inside
  · next other j current =>
    split at inside
    · next same =>
      cases inside
      rw [current, same]
    · cases inside
  · cases inside

namespace Context

/-- A task or a resource by its place. -/
def propertyAt? (c : Context) (kind : PropertyKind) (i : Nat) : Option Plan.Property :=
  c.project.bind fun p => (p.properties kind).get? i

/-- The values of a task or a resource: those for all scenarios and those of each. -/
def values (c : Context) (kind : PropertyKind) (i : Nat) : Option (AttributeTable × List AttributeTable) :=
  (c.propertyAt? kind i).map fun q => (q.attributes, q.scenarioAttributes)

variable {c d : Context} {kind : PropertyKind} {i : Nat} {p : Plan.Project}

theorem propertyAt?_of_project (there : c.project = some p) (kind : PropertyKind) (i : Nat) :
    c.propertyAt? kind i = (p.properties kind).get? i := by
  rw [propertyAt?, there, Option.bind_some]

/-- Whether on the way from one state to another the values of the entries that are there have changed at most
for the current one. -/
def Spares (c d : Context) : Prop :=
  ∀ kind i, c.property ≠ some (kind, i) → c.values kind i ≠ none → d.values kind i = c.values kind i

/-- Where the tasks and the resources are the same, so are their values. -/
theorem Spares.of_sets (same : (d.project.map fun p => (p.tasks, p.resources)) =
    c.project.map fun p => (p.tasks, p.resources)) : c.Spares d := by
  have entry (x : Context) (kind : PropertyKind) (i : Nat) : x.propertyAt? kind i =
      (x.project.map fun p => (p.tasks, p.resources)).bind fun sets => match kind with
        | .task => sets.1.get? i
        | .resource => sets.2.get? i := by
    unfold propertyAt?
    cases x.project with
    | none => rfl
    | some p => cases kind <;> rfl
  intro kind i _ _
  rw [values, values, entry, entry, same]

end Context

/-! ## Actions -/

section
variable {env : Surroundings} {c d : Context} {kind : PropertyKind} {i : Nat} (v : Values)

/-- Setting values of the current entry changes no other one. -/
theorem Matcher.spares_others_modifyProperty (f : Plan.Property → Plan.Property) :
    Ends (fun _ d => d.property = c.property ∧ c.Spares d) (modifyProperty f) env c := by
  rw [ends_modifyProperty]
  intro kind i current p there q _
  refine ⟨rfl, fun other j differs _ => ?_⟩
  rw [Context.values, Context.values, Context.propertyAt?_of_project rfl, Context.propertyAt?_of_project there,
    Plan.Project.properties_setProperties]
  split
  · next same =>
    subst same
    have elsewhere : i ≠ j := fun same => differs (same ▸ current)
    rw [Plan.PropertySet.get?_modify, if_neg elsewhere]
  · rfl

theorem Matcher.spares_others_setScenarioAttribute (id : String) (value : Plan.AttributeValue) :
    Ends (fun _ d => d.property = c.property ∧ c.Spares d) (setScenarioAttribute id value) env c := by
  rw [ends_setScenarioAttribute]
  exact spares_others_modifyProperty _

/-- An attribute that is added to a schema is no value of an entry. -/
theorem Matcher.spares_others_applyExtension (e : AttributeExtension) :
    Ends (fun _ d => c.Spares d) (applyExtension e) env c := by
  refine ends_applyExtension e fun target p set symbols journal _ there _ defined _ => ?_
  obtain ⟨-, same⟩ := Plan.PropertySet.definitions_of_define? defined
  intro kind i _ _
  rw [Context.values, Context.values, Context.propertyAt?_of_project rfl, Context.propertyAt?_of_project there,
    Plan.Project.properties_setProperties]
  split
  · next own =>
    subst own
    rw [same]
    rfl
  · rfl

/-- Attributes of tasks and resources are values of the current entry. -/
theorem PropertyAction.spares_others {a : PropertyAction} (plain : (Action.property a).isPlain = true)
    (neutral : ¬a.keepsProperties = true) : Ends (fun _ d => c.Spares d) (a.perform v) env c := by
  have one (id : String) (value : Plan.AttributeValue) :
      Ends (fun _ d => c.Spares d) (setScenarioAttribute id value) env c :=
    (spares_others_setScenarioAttribute id value).weaken fun _ _ both => both.2
  cases a with
  | header _ | close => cases plain
  | allocate | flags | vacation =>
    simp only [perform, addAllocations, addFlags, addVacations, ends_bind, ends_get, ends_pure]
    exact one _ _
  | depends =>
    simp only [perform, ends_bind, ends_pure]
    exact one _ _
  | ticks id =>
    simp only [perform, ends_bind, ends_take, ends_pure]
    exact fun _ _ => one _ _
  | start | stop =>
    simp only [perform, ends_bind, ends_take, ends_pure]
    intro date _
    -- the direction of scheduling goes with the date
    refine (spares_others_setScenarioAttribute _ _).weaken fun _ x first => ?_
    refine (spares_others_setScenarioAttribute _ _).weaken fun _ d second => ?_
    intro kind i differs there
    have between := first.2 kind i differs there
    exact (second.2 kind i (first.1 ▸ differs) (between ▸ there)).trans between
  | priority =>
    simp only [perform, ends_bind, ends_take, ends_ite, ends_fail, ends_pure]
    intro priority _
    split
    · trivial
    · exact one _ _
  | leaveScenario | relativeId | resourceId | allocation | alternatives | selectMode =>
    exact absurd rfl neutral

/-- What is added to the language is no value, and where it is used it stores one of the current entry. -/
theorem ExtendAction.spares_others {a : ExtendAction} (neutral : ¬(Action.extend a).keepsProperties = true) :
    Ends (fun _ d => c.Spares d) (a.perform v) env c := by
  cases a with
  | target =>
    simp only [perform, chooseTarget, ends_bind, ends_take, ends_ite, ends_ruleId, ends_pure, ends_fail,
      ends_modify]
    intro word _
    split
    · exact fun _ _ _ _ => .of_sets rfl
    · split
      · exact fun _ _ _ _ => .of_sets rfl
      · trivial
  | close => exact .of_sets rfl
  | declare kind =>
    simp only [perform, declareAttribute, ends_bind, ends_take, ends_pure]
    exact fun _ _ _ _ => spares_others_applyExtension _
  | id => exact absurd rfl neutral
  | store id kind specific =>
    simp only [perform, ends_bind, ends_take, ends_ite, ends_pure]
    intro value _
    split
    · exact (spares_others_setScenarioAttribute _ _).weaken fun _ _ both => both.2
    · exact (spares_others_modifyProperty _).weaken fun _ _ both => both.2

/-- Working hours are values of the current resource, or those of the project. -/
theorem Matcher.spares_others_workingHours : Ends (fun _ d => c.Spares d) (Matcher.workingHours v) env c := by
  rw [ends_workingHours]
  intro days _
  refine .setWorkingHours (fun _ p there => .of_sets ?_) fun hours => ?_
  · rw [there]
    rfl
  · exact (spares_others_modifyProperty _).weaken fun _ _ both => both.2

/-- A header makes an entry below the current one, from which it inherits. It is the current one then, and the
entries of before have their values still. -/
theorem PropertyAction.values_of_header (there : ∀ i ∈ openProperty? c kind, i < (c.entries kind).size)
    {x : Option Value} (run : (PropertyAction.header kind).perform v env c = (.ok x, d)) :
    ∃ p r, c.project = some p ∧ d.property = some (kind, (p.properties kind).length) ∧
      d.propertyAt? kind (p.properties kind).length = some r ∧ r.parent = openProperty? c kind ∧
      (∀ scenario id, r.stored? scenario id = ((openProperty? c kind).bind (c.propertyAt? kind)).bind fun parent =>
        if Plan.inheritable (p.properties kind).definitions id then parent.stored? scenario id else none) ∧
      ∀ other j, c.values other j ≠ none → d.values other j = c.values other j := by
  have ends : Ends (fun _ d => ∃ p r, c.project = some p ∧
      d.property = some (kind, (p.properties kind).length) ∧
      d.propertyAt? kind (p.properties kind).length = some r ∧ r.parent = openProperty? c kind ∧
      (∀ scenario id, r.stored? scenario id = ((openProperty? c kind).bind (c.propertyAt? kind)).bind fun parent =>
        if Plan.inheritable (p.properties kind).definitions id then parent.stored? scenario id else none) ∧
      ∀ other j, c.values other j ≠ none → d.values other j = c.values other j)
      ((PropertyAction.header kind).perform v) env c := by
    simp only [perform, ends_bind, ends_take, ends_openProperty, ends_pure]
    intro id _ name _ p started grown added
    have inside : ∀ i ∈ openProperty? c kind, i < (p.properties kind).length := fun i current => by
      have bound := there i current
      rwa [Context.entries_of_project started] at bound
    obtain ⟨r, entry, parent, inherited⟩ := Plan.PropertySet.exists_inherited_of_add? added inside
    refine ⟨p, r, started, rfl, ?_, parent, fun scenario id => ?_, fun other j listed => ?_⟩
    · rw [Context.propertyAt?_of_project rfl, Plan.Project.properties_setProperties, if_pos rfl]
      exact entry
    · rw [inherited, funext (Context.propertyAt?_of_project started kind)]
    · rw [Context.values, Context.propertyAt?_of_project started] at listed
      rw [Context.values, Context.values, Context.propertyAt?_of_project rfl, Context.propertyAt?_of_project started,
        Plan.Project.properties_setProperties]
      split
      · next same =>
        subst same
        -- an entry of before is none of those that are adopted or inherit
        obtain ⟨q, old⟩ := Option.ne_none_iff_exists'.mp (mt (congrArg (Option.map _)) listed)
        have before : j < (p.properties kind).length := (Array.getElem?_eq_some_iff.mp old).1
        rw [Plan.PropertySet.get?_inheritAttributes_ne (Nat.ne_of_gt before),
          Plan.PropertySet.eq_append_of_add? added, Plan.PropertySet.get?_append_of_lt before,
          Plan.PropertySet.get?_adopted, Option.map_map]
        refine congrArg (Option.map · _) (funext fun q => ?_)
        dsimp only [Function.comp_apply]
        split <;> rfl
      · rfl
  exact ends.of_ok run

variable {ofRule : RuleId → Shape} {effects : Effects} {p : Pattern} {a : Action} {v}

/-- Whatever is done while a plan is read, no values change but those of the current entry. -/
theorem Prepared.spares (prepared : Prepared env.grammar ofRule effects p v c) (action : p.action = some a)
    (there : ∀ kind, ∀ i ∈ openProperty? c kind, i < (c.entries kind).size)
    {matchRule : RuleId → Matcher (Option Value)} {x : Option Value}
    (run : a.perform matchRule v env c = (.ok x, d)) : c.Spares d := by
  by_cases neutral : a.keepsProperties = true
  · have propertyState := (a.keeps_propertyState v neutral matchRule env c).of_ok run
    exact .of_sets (congrArg PropertyState.sets propertyState)
  cases a with
  | project a =>
    cases a with
    | header =>
      -- where a project is started there are no entries
      have unstarted := (prepared.allows _ action).unstarted
      intro kind i _ listed
      rw [Context.values, Context.propertyAt?, unstarted] at listed
      exact absurd rfl listed
    | _ => exact absurd rfl neutral
  | property a =>
    have valued (plain : (Action.property a).isPlain = true) : c.Spares d :=
      (a.spares_others v plain neutral).of_ok run
    cases a with
    | header kind =>
      obtain ⟨_, _, -, -, -, -, -, kept⟩ := PropertyAction.values_of_header v (there kind) run
      exact fun other j _ listed => kept other j listed
    | close =>
      cases run
      exact .of_sets rfl
    | _ => exact valued rfl
  | extend a => exact (a.spares_others v neutral).of_ok run
  | calendar a =>
    cases a with
    | workingHours =>
      obtain ⟨_, y, acted, last⟩ := exists_of_run_bind run
      cases last
      exact (spares_others_workingHours v).of_ok acted
    | _ => exact absurd rfl neutral
  | includeFile i =>
    obtain ⟨-, path, tokens, journal, -, rfl, -⟩ := Action.eq_of_run_includeFile v run
    exact .of_sets rfl
  | rule name => exact ((prepared.allows _ action).not_rule).elim
  | _ => exact absurd rfl neutral

end

/-! ## Closed bodies -/

/-- Whether an entry is another one or around it. -/
inductive Around (headings : List Heading) (i : Nat) : Nat → Prop
  | here : Around headings i i
  | above {j k : Nat} {h : Heading} (entry : headings[j]? = some h) (parent : h.parent = some k)
    (around : Around headings i k) : Around headings i j

namespace EntryLists

variable {r s : EntryLists} {kind : PropertyKind} {i : Nat}

/-- Whether an entry is there, and its body is neither the one that is read nor around that. -/
def Shut (r : EntryLists) (kind : PropertyKind) (i : Nat) : Prop :=
  i < (r.headings kind).length ∧ ∀ j, r.property = some (kind, j) → ¬Around (r.headings kind) i j

/-- It is about nothing but the entries and the current one. -/
theorem Shut.of_eq (h : r.Shut kind i) (property : s.property = r.property)
    (headings : ∀ kind, s.headings kind = r.headings kind) : s.Shut kind i := by
  unfold Shut
  rw [property, headings]
  exact h

/-- New entries are not around those of before. -/
theorem around_of_enter (linked : r.Linked) {other : PropertyKind} {id name : String} {j : Nat}
    (around : Around ((r.enter other id name).headings kind) i j) (before : j < (r.headings kind).length) :
    Around (r.headings kind) i j := by
  induction around with
  | here => exact .here
  | @above j k h entry parent _ ih =>
    have old : (r.headings kind)[j]? = some h := by
      by_cases same : kind = other
      · subst same
        rcases cases_headings_enter entry with old | ⟨rfl, -⟩
        · exact old
        · exact absurd before (Nat.lt_irrefl _)
      · rwa [headings_enter_ne same] at entry
    exact .above old parent (ih (Nat.lt_trans (linked.parent_lt kind j h k old parent) before))

/-- A new entry is below open ones only. -/
theorem Shut.enter (h : r.Shut kind i) (linked : r.Linked) (other : PropertyKind) (id name : String) :
    (r.enter other id name).Shut kind i := by
  refine ⟨Nat.lt_of_lt_of_le h.1 (length_headings_le r other id name kind), fun j current around => ?_⟩
  cases current
  have new : ((r.enter kind id name).headings kind)[(r.headings kind).length]? = some
      ⟨Forest.fullId kind ((r.above kind).map (·.2)) id, name, (r.above kind).map (·.1)⟩ := by
    rw [headings_enter]
    exact List.getElem?_concat_length
  cases around with
  | here => exact absurd h.1 (Nat.lt_irrefl _)
  | @above _ k q entry parent around =>
    -- around the new entry there is the one that was current, and what is around that
    obtain rfl := Option.some.inj (new.symm.trans entry)
    obtain ⟨⟨k', full⟩, found, rfl⟩ := Option.map_eq_some_iff.mp parent
    obtain ⟨a, there, -⟩ := exists_above found
    have current : r.property = some (kind, k') := by
      unfold EntryLists.above at found
      split at found
      · next other j inside =>
        split at found
        · next same =>
          obtain ⟨_, _, same'⟩ := Option.map_eq_some_iff.mp found
          cases same'
          rw [inside, same]
        · cases found
      · cases found
    exact h.2 k' current (around_of_enter linked around (List.getElem?_eq_some_iff.mp there).1)

/-- What is around a parent is around the child. -/
theorem Shut.leave (h : r.Shut kind i) : r.leave.Shut kind i := by
  refine ⟨h.1, fun j current around => ?_⟩
  obtain ⟨⟨other, k⟩, inside, current⟩ := Option.bind_eq_some_iff.mp current
  obtain ⟨q, entry, current⟩ := Option.bind_eq_some_iff.mp current
  obtain ⟨j', parent, same⟩ := Option.bind_eq_some_iff.mp current
  cases same
  exact h.2 k inside (.above entry parent around)

end EntryLists

section
variable {env : Surroundings} {c d : Context} {kind : PropertyKind} {i : Nat} {v : Values}
  {ofRule : RuleId → Shape} {effects : Effects} {p : Pattern} {a : Action} {reference : RuleId}

/-- An entry whose body is closed stays closed. -/
theorem Prepared.shut (ht : env.grammar.Typed ofRule)
    (known : env.grammar.ruleId? "referenceBody" = some reference)
    (prepared : Prepared env.grammar ofRule effects p v c) (action : p.action = some a)
    (linked : c.entryLists.Linked) (h : c.entryLists.Shut kind i)
    {matchRule : RuleId → Matcher (Option Value)} {x : Option Value}
    (run : a.perform matchRule v env c = (.ok x, d)) : d.entryLists.Shut kind i := by
  rcases prepared.cases_of_entryLists ht known action linked.placed run with
    ⟨property, same, -⟩ | ⟨other, id, name, entered⟩ | left
  · exact h.of_eq property same
  · exact entered ▸ h.enter linked other id name
  · exact left ▸ h.leave

variable {clauses : RuleId → Clause} (formed : env.grammar.Formed clauses) {id : RuleId}

include formed in
/-- The rule of a header has come to its end behind the action of the header. -/
theorem Course.header_of_rule (known : env.grammar.ruleId? "referenceBody" = some reference)
    (heads : clauses id = .header kind) {o : Option Value}
    (course : Course ofRule effects env (.rule id) c o d) :
    ∃ v tokens journal depth x y, let b := { c with tokens, journal, depth }
      b.Allows (.property (.header kind)) ∧ (PropertyAction.header kind).perform v env b = (.ok x, y) ∧
        d = { y with depth := d.depth } := by
  have single := formed.single id (by rw [heads]; exact Clause.noConfusion)
  obtain ⟨p, journal, x, mem, rfl, course⟩ := course.of_isSingle single
  have form := formed.offers known (.inl mem)
  rw [heads] at form
  obtain rfl : p = headerPattern kind := form
  obtain ⟨_, _, tokens, journal, _, -, -, _, -, -, prepared, acted⟩ :=
    Course.of_headingPattern (by cases kind <;> decide) course
  exact ⟨_, tokens, journal, _, o, x, prepared.allows _ rfl, acted, rfl⟩

/-- The lists of entries are as long as the sets of the project. -/
theorem Context.length_headings_entryLists (c : Context) (kind : PropertyKind) :
    (c.entryLists.headings kind).length = (c.entries kind).size := by
  unfold Context.entries
  cases there : c.project with
  | none =>
    rw [Context.entryLists_of_none there]
    rfl
  | some p =>
    rw [Context.entryLists_of_project there]
    exact (p.properties kind).length_headings

theorem Context.values_ne_none {i : Nat} (inside : i < (c.entries kind).size) : c.values kind i ≠ none := by
  unfold Context.entries at inside
  unfold Context.values Context.propertyAt?
  cases there : c.project with
  | none =>
    rw [there] at inside
    exact absurd inside (Nat.not_lt_zero i)
  | some p =>
    rw [there] at inside
    have entry : (p.properties kind).get? i = some _ := Array.getElem?_eq_getElem inside
    rw [Option.bind_some, entry]
    exact Option.some_ne_none _

end

end Planfile

namespace Planfile.Language

open Matcher
open Plan (PropertyKind)

/-! ## In the language -/

section
variable {env : Surroundings} (h : grammar = .ok env.grammar) {tokens : TokenSource}
  {journal : Log.Journal} {id : RuleId} (known : env.grammar.ruleId? "project" = some id)

include h known

/-- Wherever matching comes, from there on an entry whose body is closed keeps its values. -/
theorem values_of_shut {n m : Nat} {s s' : Stage} {c x : Context}
    (visit : Visits env ampleFuel (.symbols [.rule id]) (.initial tokens journal) n s c)
    {kind : PropertyKind} {i : Nat} (shut : c.entryLists.Shut kind i) (onward : Visits env n s c m s' x) :
    x.values kind i = c.values kind i := by
  obtain ⟨charted, -⟩ := exists_charted h
  obtain ⟨reference, body⟩ := charted.typed.extensible.reference
  obtain ⟨grounded, stands⟩ :=
    visit.stands charted (grounded_initial _ _ tokens journal) (stands_initial h known)
  have holds := onward.holds charted
    (fun x => x.entryLists.Linked ∧ x.entryLists.Shut kind i ∧ x.values kind i = c.values kind i)
    (fun _ _ _ _ _ kept => kept) ?_ grounded stands ⟨linked_of_visits h known visit, shut, rfl⟩
  · exact holds.2.2
  · rintro matchRule p v a o x y prepared action ⟨linked, shut, same⟩ run
    refine ⟨prepared.linked charted.typed body action linked run,
      prepared.shut charted.typed body action linked shut run, ?_⟩
    have there (kind : PropertyKind) (i : Nat) (current : i ∈ openProperty? x kind) :
        i < (x.entries kind).size :=
      x.length_headings_entryLists kind ▸ linked.placed.current kind i (property_of_openProperty? current)
    have spares := prepared.spares action there run
    have inside : i < (x.entries kind).size := x.length_headings_entryLists kind ▸ shut.1
    refine (spares kind i (fun current => ?_) (Context.values_ne_none inside)).trans same
    exact shut.2 i current .here

/-- To inherit copies the values of the parent for inheritable attributes, in each table, and nothing else. And
wherever a plan is being read, a task or a resource starts with what the one above has then of such values, and
with no other ones, while the entries that were there keep their values. An action changes no values but those of
the current entry, so that what is changed in the entry above does not reach the one below, nor the other way
round. An entry whose body is closed keeps its values from there on. -/
theorem inherits_of_visits :
    (∀ (s : Plan.PropertySet) i k q parent, s.get? i = some q → q.parent = some k →
      s.get? k = some parent → s.Inherited i q parent (s.inheritAttributes i)) ∧
    (∀ kind header, env.grammar.ruleId? (kind.word ++ "Header") = some header →
      ∀ n c o d, Visits env ampleFuel (.symbols [.rule id]) (.initial tokens journal) n (.rule header) c →
      matchRule n header env c = (.ok o, d) →
      ∃ p r, c.project = some p ∧ d.property = some (kind, (p.properties kind).length) ∧
        d.propertyAt? kind (p.properties kind).length = some r ∧ r.parent = c.property.map (·.2) ∧
        (c.property = none → ∀ scenario id, r.stored? scenario id = none) ∧
        (∀ other k, c.property = some (other, k) → other = kind ∧
          ∃ parent, c.propertyAt? kind k = some parent ∧ ∀ scenario id, r.stored? scenario id =
            if Plan.inheritable (p.properties kind).definitions id then parent.stored? scenario id else none) ∧
        ∀ other j, c.values other j ≠ none → d.values other j = c.values other j) ∧
    (∀ n p v a c o d, Visits env ampleFuel (.symbols [.rule id]) (.initial tokens journal) n (.action p v) c →
      p.action = some a → a.perform (matchRule n) v env c = (.ok o, d) → c.Spares d) ∧
    ∀ n s c, Visits env ampleFuel (.symbols [.rule id]) (.initial tokens journal) n s c →
      ∀ kind i, c.entryLists.Shut kind i → ∀ m s' x, Visits env n s c m s' x →
        x.values kind i = c.values kind i := by
  obtain ⟨charted, -⟩ := exists_charted h
  obtain ⟨reference, body⟩ := charted.typed.extensible.reference
  have inside {n : Nat} {s : Stage} {c : Context}
      (visit : Visits env ampleFuel (.symbols [.rule id]) (.initial tokens journal) n s c)
      (kind : PropertyKind) (i : Nat) (current : i ∈ openProperty? c kind) : i < (c.entries kind).size :=
    lt_size_of_visits h known visit (property_of_openProperty? current)
  refine ⟨fun s i k q parent entry above there => Plan.PropertySet.inherits entry above there,
    fun kind header named n c o d visit run => ?_, fun n p v a c o d visit action run => ?_,
    fun n s c visit kind i shut m s' x onward => values_of_shut h known visit shut onward⟩
  · obtain ⟨grounded, e, he, ready⟩ :=
      visit.stands charted (grounded_initial _ _ tokens journal) (stands_initial h known)
    have course := Course.of_run charted n header c o d e grounded he ready run
    have heads : clausesIn env.grammar header = .header kind := by
      rw [clausesIn, GrammarTable.name_of_ruleId? named]
      cases kind <;> decide
    obtain ⟨v, tokens, journal, depth, _, y, allows, acted, left⟩ :=
      course.header_of_rule (formed h) body heads
    obtain ⟨p, r, there, property, entry, parent, inherited, kept⟩ :=
      PropertyAction.values_of_header (c := { c with tokens, journal, depth }) v (inside visit kind) acted
    -- the tokens, the journal and the depth are no part of what is inherited
    have parent : r.parent = openProperty? c kind := parent
    have inherited (scenario : Option Nat) (id : String) : r.stored? scenario id =
        ((openProperty? c kind).bind (c.propertyAt? kind)).bind fun parent =>
          if Plan.inheritable (p.properties kind).definitions id then parent.stored? scenario id else none :=
      inherited scenario id
    -- where it stands in a body, this is the body of an entry of its kind
    have place : (openProperty? c kind).map (kind, ·) = c.property :=
      Context.property_of_place allows.place_of_header
    rw [left]
    refine ⟨p, r, there, property, entry, parent.trans ?_, fun outside scenario id => ?_,
      fun other k current => ?_, kept⟩
    · rw [← place]
      cases openProperty? c kind <;> rfl
    · rw [outside] at place
      rw [inherited, Option.map_eq_none_iff.mp place]
      rfl
    · rw [current] at place
      obtain ⟨k', own, same⟩ := Option.map_eq_some_iff.mp place
      cases same
      obtain ⟨tables, values⟩ := Option.ne_none_iff_exists'.mp (Context.values_ne_none (inside visit kind k own))
      obtain ⟨above, entry, -⟩ := Option.map_eq_some_iff.mp values
      refine ⟨rfl, above, entry, fun scenario id => ?_⟩
      rw [inherited, own, Option.bind_some, entry, Option.bind_some]
  · exact (prepared_of_visits h known visit).spares action (inside visit) run

end

/-- A plan with a task that has a priority and a length, and another one in its body. -/
def heirPlan : TokenStream :=
  plainStream <| yearHeader ++
    [.id "task", .id "a", .string "A", .mark .leftBrace, .id "priority", .integer 700,
      .id "length", .integer 5, .id "d", .id "task", .id "b", .string "B",
      .id "priority", .integer 300, .mark .rightBrace, .eof]

/-- The header in the body is read where the task around it has these values, and adds a task. -/
theorem seek_heirPlan :
    satisfies (fun t =>
      (t.ruleId? "project").any fun id => (t.ruleId? "taskHeader").any fun header =>
        (seek ⟨t, .empty, .default⟩ (fun other c => other == header && c.property == some (.task, 0)) 60
            ampleFuel (.symbols [.rule id]) (.initial (.ofStream heirPlan "main.tjp" none) .silent)).any
          fun (n, _, c) => (matchRule n header ⟨t, .empty, .default⟩ c).1.isOk &&
            ((c.project.map (·.tasks)).any fun tasks => tasks.length == 1 &&
              Plan.inheritable tasks.definitions "priority" && !Plan.inheritable tasks.definitions "length") &&
            (c.propertyAt? .task 0).any fun parent =>
              parent.stored? (some 0) "priority" == some (.integer 700) &&
                (parent.stored? (some 0) "length").isSome) = true := by
  decide +kernel

/-- It starts with the priority, and without the length. -/
theorem inherits_of_visits_heirPlan :
    ∃ table id header n c o d parent r, grammar = .ok table ∧ table.ruleId? "project" = some id ∧
      table.ruleId? "taskHeader" = some header ∧
      Visits ⟨table, .empty, .default⟩ ampleFuel (.symbols [.rule id])
        (.initial (.ofStream heirPlan "main.tjp" none) .silent) n (.rule header) c ∧
      matchRule n header ⟨table, .empty, .default⟩ c = (.ok o, d) ∧
      c.propertyAt? .task 0 = some parent ∧ (parent.stored? (some 0) "length").isSome ∧
      d.propertyAt? .task 1 = some r ∧ r.parent = some 0 ∧
      r.stored? (some 0) "priority" = some (.integer 700) ∧ r.stored? (some 0) "length" = none := by
  obtain ⟨table, made⟩ := exists_grammar
  have found := of_satisfies seek_heirPlan made
  obtain ⟨id, known, found⟩ := (Option.any_eq_true _ _).mp found
  obtain ⟨header, named, found⟩ := (Option.any_eq_true _ _).mp found
  obtain ⟨⟨n, other, c⟩, sought, found⟩ := (Option.any_eq_true _ _).mp found
  obtain ⟨visit, wanted⟩ := Visits.of_seek sought
  simp only [Bool.and_eq_true, beq_iff_eq, Option.any_eq_true, Bool.not_eq_true'] at wanted found
  obtain ⟨rfl, current⟩ := wanted
  obtain ⟨⟨ends, tasks, listed, ⟨one, priority⟩, length⟩, parent, entry, seven, five⟩ := found
  obtain ⟨o, d, run⟩ := exists_of_isOk ends
  obtain ⟨-, headed, -⟩ := @inherits_of_visits ⟨table, .empty, .default⟩ made
    (.ofStream heirPlan "main.tjp" none) .silent id known
  obtain ⟨p, r, there, -, new, above, -, inherited, -⟩ := headed .task other named n c o d visit run
  obtain ⟨-, q, same, values⟩ := inherited .task 0 current
  obtain rfl := Option.some.inj (same.symm.trans entry)
  rw [there, Option.map_some] at listed
  obtain rfl : p.tasks = tasks := Option.some.inj listed
  rw [current, Option.map_some] at above
  have place : (p.properties .task).length = 1 := one
  rw [place] at new
  refine ⟨table, id, other, n, c, o, d, q, r, made, known, named, visit, run, entry, five, new, above, ?_, ?_⟩
  · have passed : Plan.inheritable (p.properties .task).definitions "priority" = true := priority
    rw [values, if_pos passed, seven]
  · have kept : Plan.inheritable (p.properties .task).definitions "length" = false := length
    rw [values, if_neg]
    rw [kept]
    exact Bool.false_ne_true

end Planfile.Language
