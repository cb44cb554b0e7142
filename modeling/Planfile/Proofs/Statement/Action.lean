import Planfile.Proofs.Extension.AttributeState
import Planfile.Proofs.Statement.Derivation

/-!
# Planfile — what actions do to the entries

Headers of tasks, of resources and of reports make entries, and the end of a body goes back. All other
actions leave the entries as they are, those that start the project and those that add to the language
included: where the project is started there is no entry yet.

Main results:

* `EntryLists.Records.append` — statements behind others are recorded behind these.
* `EntryLists.Records.enclose` — between a header and the end of its body a statement with its body is
  recorded.
* `PropertyAction.entryLists_header`, `PropertyAction.entryLists_close`, `ReportAction.entryLists_header` —
  the actions that change the entries.
* `Action.records_of_isPlain` — all others, but those that include files or match rules.
-/

/-!
## The entries of tasks, resources and reports

Which statement is around the next one is kept in one place only: the entry whose body is read. A header
makes an entry below it and goes into the body of the new one, and the end of a body goes back to the
entry above. So what has been entered between a header and the end of its body is what is in the body,
and behind it the entry of before is around again.
-/

namespace Planfile

open Plan (PropertyKind ReportKind)

/-- What is known of the entries of tasks, resources and reports. -/
@[ext] structure EntryLists where
  /-- The kind and the number of the entry whose body is read. -/
  property : Option (PropertyKind × Nat)
  /-- The kind for which a set says that it is. -/
  kinds : PropertyKind → Option PropertyKind
  headings : PropertyKind → List Heading
  reports : List (ReportKind × String)

namespace EntryLists

/-- The entry whose body is read, if it is one of some kind, with its id. -/
def above (r : EntryLists) (kind : PropertyKind) : Option (Nat × String) :=
  match r.property with
  | some (current, i) => if current = kind then ((r.headings kind)[i]?).map fun h => (i, h.id) else none
  | none => none

/-- Whether sets are of the kinds that they say, and the entry whose body is read is there. -/
structure Placed (r : EntryLists) : Prop where
  kinds : ∀ kind other, r.kinds kind = some other → other = kind
  current : ∀ kind i, r.property = some (kind, i) → i < (r.headings kind).length

/-- Whether some statements have been entered on the way from one state to another, in the body that was
read before. -/
structure Records (r : EntryLists) (contents : Contents) (s : EntryLists) : Prop where
  property : s.property = r.property
  headings : ∀ kind, s.headings kind = r.headings kind ++
    (contents.forest kind).headings kind (r.above kind) (r.headings kind).length
  reports : s.reports = r.reports ++ contents.reports
  placed : s.Placed

theorem Records.refl {r : EntryLists} (h : r.Placed) : r.Records .none r where
  property := rfl
  headings _ := (List.append_nil _).symm
  reports := (List.append_nil _).symm
  placed := h

/-- The same entry is around what follows. -/
theorem Records.above {r s : EntryLists} {contents : Contents} (h : r.Records contents s) (hr : r.Placed)
    (kind : PropertyKind) : s.above kind = r.above kind := by
  unfold EntryLists.above
  rw [h.property]
  cases inside : r.property with
  | none => rfl
  | some current =>
    obtain ⟨other, i⟩ := current
    dsimp only
    split
    · next same =>
      subst same
      rw [h.headings, List.getElem?_append_left (hr.current other i inside)]
    · rfl

/-- Statements behind others are recorded behind these. -/
theorem Records.append {r s t : EntryLists} {a b : Contents} (h : r.Records a s) (hr : r.Placed)
    (hs : s.Records b t) : r.Records (a ++ b) t where
  property := hs.property.trans h.property
  headings kind := by
    rw [hs.headings, h.above hr, h.headings, List.length_append, Forest.length_headings,
      Contents.forest_append, Forest.headings_append, List.append_assoc]
  reports := by rw [hs.reports, h.reports, Contents.reports_append, List.append_assoc]
  placed := hs.placed

/-! ## Headers and the ends of bodies -/

/-- What a header does: it makes an entry, and its body is read next. -/
def enter (r : EntryLists) (kind : PropertyKind) (id name : String) : EntryLists where
  property := some (kind, (r.headings kind).length)
  kinds := r.kinds
  headings other :=
    if other = kind then
      r.headings kind ++ [⟨Forest.fullId kind ((r.above kind).map (·.2)) id, name,
        (r.above kind).map (·.1)⟩]
    else r.headings other
  reports := r.reports

/-- What the end of a body does. -/
def leave (r : EntryLists) : EntryLists :=
  { r with property := do
      let (kind, i) ← r.property
      let h ← (r.headings kind)[i]?
      return (kind, ← h.parent) }

/-- What the header of a report does. -/
def enterReport (r : EntryLists) (kind : ReportKind) (name : String) : EntryLists :=
  { r with reports := r.reports ++ [(kind, name)] }

section
variable {r s : EntryLists} {kind : PropertyKind} {id name : String}

theorem headings_enter (r : EntryLists) (kind : PropertyKind) (id name : String) :
    (r.enter kind id name).headings kind =
      r.headings kind ++ [⟨Forest.fullId kind ((r.above kind).map (·.2)) id, name,
        (r.above kind).map (·.1)⟩] :=
  if_pos rfl

theorem headings_enter_ne {other : PropertyKind} (h : other ≠ kind) :
    (r.enter kind id name).headings other = r.headings other :=
  if_neg h

/-- A header takes no entry away. -/
theorem length_headings_le (r : EntryLists) (kind : PropertyKind) (id name : String) (other : PropertyKind) :
    (r.headings other).length ≤ ((r.enter kind id name).headings other).length := by
  by_cases same : other = kind
  · subst same
    rw [headings_enter, List.length_append]
    exact Nat.le_add_right _ _
  · exact Nat.le_of_eq (congrArg List.length (headings_enter_ne same).symm)

theorem Placed.enter (h : r.Placed) : (r.enter kind id name).Placed where
  kinds := h.kinds
  current other i inside := by
    cases inside
    rw [headings_enter, List.length_append]
    exact Nat.lt_succ_self _

/-- The new entry is around what is in its body. -/
theorem above_enter (r : EntryLists) (kind : PropertyKind) (id name : String) :
    (r.enter kind id name).above kind =
      some ((r.headings kind).length, Forest.fullId kind ((r.above kind).map (·.2)) id) := by
  have found : (r.enter kind id name).above kind =
      (((r.enter kind id name).headings kind)[(r.headings kind).length]?).map
        fun h => ((r.headings kind).length, h.id) := if_pos rfl
  rw [found, headings_enter, List.getElem?_append_right (Nat.le_refl _), Nat.sub_self]
  rfl

theorem above_enter_ne {other : PropertyKind} (h : kind ≠ other) :
    (r.enter kind id name).above other = none :=
  if_neg h

/-- An entry of another kind is not around. -/
theorem above_of_property {other : PropertyKind} (place : r.property.all (·.1 = kind) = true)
    (h : kind ≠ other) : r.above other = none := by
  unfold above
  cases inside : r.property with
  | none => rfl
  | some current =>
    rw [inside, Option.all_some, decide_eq_true_iff] at place
    exact if_neg (place ▸ h)

/-- The entry above the new one is the one around it. -/
theorem property_of_above (hr : r.Placed) (place : r.property.all (·.1 = kind) = true) :
    ((r.above kind).map (·.1)).map (kind, ·) = r.property := by
  unfold above
  cases inside : r.property with
  | none => rfl
  | some current =>
    obtain ⟨other, i⟩ := current
    rw [inside, Option.all_some, decide_eq_true_iff] at place
    obtain rfl : other = kind := place
    dsimp only
    rw [if_pos rfl, List.getElem?_eq_getElem (hr.current other i inside)]
    rfl

/-- Between a header and the end of its body a statement with its body is recorded, and the entry of
before is around again. -/
theorem Records.enclose {body : Contents} (hr : r.Placed) (place : r.property.all (·.1 = kind) = true)
    (h : (r.enter kind id name).Records body s) :
    r.Records (.enclose kind id name body) s.leave := by
  have back : s.leave.property = r.property := by
    -- the entry of the header is where it was made
    have there : (s.headings kind)[(r.headings kind).length]? =
        some ⟨Forest.fullId kind ((r.above kind).map (·.2)) id, name, (r.above kind).map (·.1)⟩ := by
      rw [h.headings, headings_enter, List.append_assoc, List.getElem?_append_right (Nat.le_refl _),
        Nat.sub_self]
      rfl
    have property : s.property = some (kind, (r.headings kind).length) := h.property
    rw [← property_of_above hr place, leave, property]
    show (((s.headings kind)[(r.headings kind).length]?).bind fun h => h.parent.bind fun i =>
      some (kind, i)) = _
    rw [there]
    cases (r.above kind).map (·.1) <;> rfl
  refine ⟨back, fun other => ?_, h.reports, h.placed.kinds, fun other i inside => ?_⟩
  · show s.headings other = _
    rw [h.headings]
    by_cases same : other = kind
    · subst same
      rw [headings_enter, above_enter, List.length_append, List.append_assoc, Contents.forest_enclose]
      simp [Forest.headings]
    · rw [headings_enter_ne same, above_enter_ne (Ne.symm same), Contents.forest_enclose_ne same,
        above_of_property place (Ne.symm same)]
  · rw [back] at inside
    refine Nat.lt_of_lt_of_le (hr.current other i inside) ?_
    show (r.headings other).length ≤ (s.headings other).length
    rw [h.headings, List.length_append]
    exact Nat.le_trans (length_headings_le r kind id name other) (Nat.le_add_right _ _)

/-- The header of a report records it. -/
theorem Placed.records_enterReport (h : r.Placed) (kind : ReportKind) (name : String) :
    r.Records (.report kind name) (r.enterReport kind name) where
  property := rfl
  headings _ := (List.append_nil _).symm
  reports := rfl
  placed := ⟨h.kinds, h.current⟩

end

end EntryLists

end Planfile

namespace Planfile

open Plan (PropertyKind ReportKind)

/-- The entries that a state has written down. -/
def EntryState.entryLists (l : EntryState) : EntryLists where
  property := l.property
  kinds kind := l.entryTables.map fun b => (b.entryTable kind).kind
  headings kind := (l.entryTables.map fun b => (b.entryTable kind).headings).getD []
  reports := (l.entryTables.map (·.reports)).getD []

/-- The entries of a state. -/
def Context.entryLists (c : Context) : EntryLists := c.entryState.entryLists

/-- The entries of a project. -/
def Plan.Project.entryLists (p : Plan.Project) (property : Option (PropertyKind × Nat)) : EntryLists where
  property := property
  kinds kind := some (p.properties kind).kind
  headings kind := (p.properties kind).entryTable.headings
  reports := p.reports.map fun r => (r.kind, r.name)

theorem Context.entryLists_of_project {c : Context} {p : Plan.Project} (h : c.project = some p) :
    c.entryLists = p.entryLists c.property := by
  have kinds (kind : PropertyKind) : (p.entryTables.entryTable kind) = (p.properties kind).entryTable := by
    cases kind <;> rfl
  unfold entryLists entryState EntryState.entryLists Plan.Project.entryLists
  rw [h]
  simp only [Option.map_some, Option.getD_some, kinds]
  rfl

/-- Without a project there are no entries. -/
theorem Context.entryLists_of_none {c : Context} (h : c.project = none) :
    c.entryLists = ⟨c.property, fun _ => none, fun _ => [], []⟩ := by
  unfold entryLists entryState EntryState.entryLists
  rw [h]
  rfl

/-- Before the first token there are no entries. -/
theorem Context.placed_initial (tokens : TokenSource) (journal : Log.Journal) :
    (Context.initial tokens journal).entryLists.Placed where
  kinds kind other h := by cases h
  current kind i h := by cases h

theorem EntryLists.Records.of_eq {r s : EntryLists} (h : r.Placed) (same : s = r) : r.Records .none s := by
  subst same
  exact .refl h

/-- Where a set of tasks or resources has been replaced, only the entries of this kind are others. -/
theorem Plan.Project.entryLists_setProperties {p : Plan.Project} {kind : PropertyKind} {s : Plan.PropertySet}
    (h : s.kind = (p.properties kind).kind) (property : Option (PropertyKind × Nat)) :
    (p.setProperties kind s).entryLists property = { p.entryLists property with
      headings other :=
        if other = kind then s.entryTable.headings else (p.entryLists property).headings other } := by
  unfold entryLists
  congr 1
  · funext other
    rw [properties_setProperties]
    split
    · next same => rw [h, same]
    · rfl
  · funext other
    rw [properties_setProperties]
    by_cases same : kind = other
    · rw [if_pos same, if_pos same.symm]
    · rw [if_neg same, if_neg (Ne.symm same)]
  · cases kind <;> rfl

/-- Where there are other reports, all else is as before. -/
theorem Plan.Project.entryLists_reports (p : Plan.Project) (reports : List Plan.Report)
    (property : Option (PropertyKind × Nat)) :
    ({ p with reports } : Plan.Project).entryLists property =
      { p.entryLists property with reports := reports.map fun r => (r.kind, r.name) } := by
  ext1
  · rfl
  · funext kind
    cases kind <;> rfl
  · funext kind
    cases kind <;> rfl
  · rfl

/-! ## Headers and ends of bodies -/

namespace Plan.PropertySet

/-- An entry is found where its task or resource is. -/
theorem getElem?_headings (s : PropertySet) (i : Nat) :
    s.entryTable.headings[i]? = (s.get? i).map (·.heading) := by
  rw [entryTable, List.getElem?_map, Array.getElem?_toList, get?]

/-- There are as many entries as tasks or resources. -/
theorem length_headings (s : PropertySet) : s.entryTable.headings.length = s.length := by
  rw [entryTable, List.length_map, Array.length_toList, length]

/-- A new task or resource makes an entry below that of the body that is read. -/
theorem headings_of_add? {s grown : PropertySet} {id name : String} {parent : Option Nat}
    (added : s.add? id name parent = .ok grown) (index : Nat) :
    (grown.inheritAttributes index).entryTable =
      { s.entryTable with headings := s.entryTable.headings ++ [⟨s.fullId id parent, name, parent⟩] } := by
  rw [entryTable_inheritAttributes, eq_append_of_add? added, entryTable_append]

end Plan.PropertySet

open Matcher

section
variable {env : Surroundings} {c : Context} {v : Values}

/-- The entry whose body is read is the one below which a header makes its own. -/
theorem Context.above_entryLists (placed : c.entryLists.Placed) {p : Plan.Project}
    (there : c.project = some p) (kind : PropertyKind) (id : String) :
    (c.entryLists.above kind).map (·.1) = openProperty? c kind ∧
      Forest.fullId kind ((c.entryLists.above kind).map (·.2)) id =
        (p.properties kind).fullId id (openProperty? c kind) := by
  have kinds := placed.kinds kind (p.properties kind).kind (by rw [Context.entryLists_of_project there]; rfl)
  have alone : Forest.fullId kind none id = (p.properties kind).fullId id none := by
    rw [Plan.PropertySet.fullId, kinds]
    cases kind <;> rfl
  have current := placed.current
  rw [Context.entryLists_of_project there] at current ⊢
  unfold EntryLists.above openProperty? Plan.Project.entryLists
  cases inside : c.property with
  | none => exact ⟨rfl, alone⟩
  | some found =>
    obtain ⟨other, i⟩ := found
    dsimp only
    split
    · next same =>
      subst same
      -- the entry is there, since its body is read
      have bound : i < ((p.properties other).entryTable.headings).length := current other i inside
      have entry := Plan.PropertySet.getElem?_headings (p.properties other) i
      rw [List.getElem?_eq_getElem bound] at entry
      obtain ⟨q, found, same⟩ := Option.map_eq_some_iff.mp entry.symm
      rw [List.getElem?_eq_getElem bound, ← same, Plan.PropertySet.fullId, kinds]
      refine ⟨rfl, ?_⟩
      rw [Option.bind_some, found]
      cases other <;> rfl
    · exact ⟨rfl, alone⟩

/-- The header of a task or a resource makes an entry, and its body is read next. -/
theorem PropertyAction.entryLists_header (placed : c.entryLists.Placed) {kind : PropertyKind}
    {x : Option Value} {d : Context} (run : (PropertyAction.header kind).perform v env c = (.ok x, d)) :
    ∃ id name, v.string 1 = .ok id ∧ v.string 2 = .ok name ∧ d.tokens = c.tokens ∧
      d.extensions = c.extensions ∧ d.entryLists = c.entryLists.enter kind id name := by
  have ends : Ends (fun _ d => ∃ id name, v.string 1 = .ok id ∧ v.string 2 = .ok name ∧
      d.tokens = c.tokens ∧ d.extensions = c.extensions ∧ d.entryLists = c.entryLists.enter kind id name)
      ((PropertyAction.header kind).perform v) env c := by
    simp only [perform, ends_bind, ends_take, ends_openProperty, ends_pure]
    intro id first name second p there grown added
    refine ⟨id, name, first, second, rfl, rfl, ?_⟩
    obtain ⟨above, full⟩ := Context.above_entryLists placed there kind id
    have entryTable := Plan.PropertySet.headings_of_add? added (p.properties kind).length
    have headings := congrArg EntryTable.headings entryTable
    have count : (c.entryLists.headings kind).length = (p.properties kind).length := by
      rw [Context.entryLists_of_project there]
      exact (p.properties kind).length_headings
    rw [EntryLists.enter, above, full, count, Context.entryLists_of_project rfl,
      Context.entryLists_of_project there, Plan.Project.entryLists_setProperties
      (congrArg EntryTable.kind entryTable), headings]
    rfl
  exact ends.of_ok run

/-- A task or a resource is added in no body, or in one of its kind. -/
theorem Context.Allows.place_of_header {kind : PropertyKind} (h : c.Allows (.property (.header kind))) :
    c.entryLists.property.all (·.1 = kind) = true := by
  rcases h with closing | ⟨e, effect, -⟩ | ⟨id, valueKind, specific, storing⟩
  · cases closing
  · simp only [Action.effect?, PropertyAction.effect?, Context.place, Option.all_map] at effect
    split at effect
    · next place => exact place
    · cases effect
  · cases storing

/-- The end of a body goes back to the entry above. -/
theorem PropertyAction.entryLists_close {x : Option Value} {d : Context}
    (run : PropertyAction.close.perform v env c = (.ok x, d)) :
    d.tokens = c.tokens ∧ d.extensions = c.extensions ∧ d.entryLists = c.entryLists.leave := by
  cases run
  refine ⟨rfl, rfl, ?_⟩
  have parent : (c.property.bind fun current => c.currentProperty?.bind fun q => q.parent.bind fun i =>
      some (current.1, i)) = c.entryLists.leave.property := by
    cases there : c.project with
    | none =>
      rw [Context.entryLists_of_none there, EntryLists.leave]
      cases c.property <;> simp [Context.currentProperty?, there]
    | some p =>
      rw [Context.entryLists_of_project there, EntryLists.leave]
      cases inside : c.property with
      | none => simp [Plan.Project.entryLists]
      | some current =>
        obtain ⟨kind, i⟩ := current
        simp only [Context.currentProperty?, inside, there, Plan.Project.entryLists, Option.bind_eq_bind,
          Option.bind_some, Plan.PropertySet.getElem?_headings]
        cases (p.properties kind).get? i <;> rfl
  rw [EntryLists.leave] at parent ⊢
  exact congrArg (fun property => { c.entryLists with property := property }) parent

/-- The header of a report records it. -/
theorem ReportAction.entryLists_header {x : Option Value} {d : Context}
    (run : ReportAction.header.perform v env c = (.ok x, d)) :
    ∃ kind word name, ReportKind.ofWord? word = some kind ∧ v.string 0 = .ok word ∧
      v.string 1 = .ok name ∧ d.tokens = c.tokens ∧ d.extensions = c.extensions ∧
      d.entryLists = c.entryLists.enterReport kind name := by
  have ends : Ends (fun _ d => ∃ kind word name, ReportKind.ofWord? word = some kind ∧
      v.string 0 = .ok word ∧ v.string 1 = .ok name ∧ d.tokens = c.tokens ∧
      d.extensions = c.extensions ∧ d.entryLists = c.entryLists.enterReport kind name)
      (ReportAction.header.perform v) env c := by
    simp only [perform, openReport, ends_bind, ends_take, ends_orFail, ends_project, ends_modify,
      ends_pure]
    intro word first name second kind named p there
    refine ⟨kind, word, name, named, first, second, trivial, trivial, ?_⟩
    rw [Context.entryLists_of_project rfl, Context.entryLists_of_project there,
      Plan.Project.entryLists_reports, List.map_append]
    rfl
  exact ends.of_ok run

/-! ## All other actions -/

/-- Whether an action neither makes entries of tasks, resources and reports, nor goes in or out of
bodies, nor goes on with another file, nor matches a rule itself. -/
def Action.isPlain : Action → Bool
  | .property (.header _) | .property .close | .report .header | .includeFile _ | .rule _ => false
  | _ => true

/-- As long as there is no project no body is read. -/
theorem Context.property_of_none (placed : c.entryLists.Placed) (unstarted : c.project = none) :
    c.property = none := by
  have current := placed.current
  rw [Context.entryLists_of_none unstarted] at current
  cases inside : c.property with
  | none => rfl
  | some found => exact absurd (current _ _ inside) (Nat.not_lt_zero _)

/-- Where the project is started there are no entries yet. -/
theorem ProjectAction.records_header (placed : c.entryLists.Placed) (unstarted : c.project = none)
    {x : Unit} {d : Context} (run : ProjectAction.header.perform v env c = (.ok x, d)) :
    c.entryLists.Records .none d.entryLists := by
  have ends : Ends (fun _ d => c.entryLists.Records .none d.entryLists)
      (ProjectAction.header.perform v) env c := by
    simp only [perform, ends_bind, ends_take, ends_modify]
    intro id _ name _ version _ time _
    rw [Context.entryLists_of_none unstarted, Context.entryLists_of_project rfl,
      Context.property_of_none placed unstarted]
    refine ⟨rfl, fun kind => ?_, rfl, fun kind other same => ?_, fun kind i inside => by cases inside⟩
    · cases kind <;> rfl
    · cases same
      cases kind <;> rfl
  exact ends.of_ok run

/-- An attribute that is added to the language is no entry. -/
theorem Context.entryLists_extended (reference : RuleId) (target : ExtendTarget) {p : Plan.Project}
    (there : c.project = some p) {set : Plan.PropertySet} {e : AttributeExtension}
    (defined : (p.properties target.kind).define? e.definition = .ok set) :
    (c.extended reference target p set e).entryLists = c.entryLists := by
  obtain ⟨-, same⟩ := Plan.PropertySet.definitions_of_define? defined
  have kind : set.kind = (p.properties target.kind).kind := by rw [same]
  have headings : set.entryTable.headings = (p.properties target.kind).entryTable.headings := by
    rw [same]
    rfl
  rw [Context.entryLists_of_project there, Context.entryLists_of_project rfl]
  refine (Plan.Project.entryLists_setProperties kind c.property).trans ?_
  rw [headings]
  refine congrArg (fun headings => { p.entryLists c.property with headings := headings })
    (funext fun other => ?_)
  split
  · next same => rw [same]
  · rfl

/-- What is chosen to be extended is no entry. -/
theorem ExtendAction.entryLists_target {x : Option Value} {d : Context}
    (run : ExtendAction.target.perform v env c = (.ok x, d)) : d.entryLists = c.entryLists := by
  have ends : Ends (fun _ d => d.entryLists = c.entryLists) (ExtendAction.target.perform v) env c := by
    simp only [perform, chooseTarget, ends_bind, ends_take, ends_ite, ends_ruleId, ends_pure,
      ends_fail, ends_modify]
    intro word _
    split
    · exact fun _ _ _ _ => rfl
    · split
      · exact fun _ _ _ _ => rfl
      · trivial
  exact ends.of_ok run

/-- All other actions record nothing and read nothing. -/
theorem Prepared.records {ofRule : RuleId → Shape} {effects : Effects} {reference : RuleId}
    (ht : env.grammar.Typed ofRule) (known : env.grammar.ruleId? "referenceBody" = some reference)
    {p : Pattern} {a : Action} (prepared : Prepared env.grammar ofRule effects p v c)
    (action : p.action = some a) (plain : a.isPlain = true) (placed : c.entryLists.Placed)
    {matchRule : RuleId → Matcher (Option Value)} {x : Option Value} {d : Context}
    (run : a.perform matchRule v env c = (.ok x, d)) :
    d.tokens = c.tokens ∧ c.entryLists.Records .none d.entryLists := by
  have tokens (selfContained : a.isSelfContained = true) : d.tokens = c.tokens :=
    congrArg MatchingState.tokens ((a.keeps_matchingState v selfContained matchRule env c).of_ok run)
  cases entry : a.makesEntry with
  | false =>
    -- what makes no entry leaves what is written down as it is, and the entries are read off it
    have entryState := (a.spares_entryState v entry matchRule).eq env c
    rw [run] at entryState
    refine ⟨tokens ?_, .of_eq placed (congrArg EntryState.entryLists entryState)⟩
    unfold Action.isSelfContained
    split
    · cases plain
    · cases plain
    · cases entry
    · rfl
  | true =>
    unfold Action.makesEntry at entry
    split at entry
    · obtain ⟨_, e, started, last⟩ := exists_of_run_bind run
      cases last
      exact ⟨tokens rfl, ProjectAction.records_header placed (prepared.allows _ action).unstarted started⟩
    · cases plain
    · cases plain
    · cases plain
    · exact ⟨tokens rfl, .of_eq placed (ExtendAction.entryLists_target run)⟩
    · cases run
      exact ⟨rfl, .of_eq placed rfl⟩
    · -- a declared attribute extends a schema and what is in its set, and no heading
      have left : Leaves (fun _ d => d.tokens = c.tokens ∧ d.entryLists = c.entryLists) (fun _ => True)
          ((Action.extend (.declare _)).perform matchRule v) env c :=
        prepared.leaves_declare ht known action (fun _ => trivial)
          (fun target q set e journal _ there started _ defined =>
            ⟨rfl, Context.entryLists_extended reference target started defined⟩) matchRule
      rw [Leaves, run] at left
      exact ⟨left.1, .of_eq placed left.2⟩
    · cases plain
    · cases entry

/-- What a plan adds to the grammar comes behind what has been added before. -/
theorem Context.Grows.extensions {t : GrammarTable} {reference : RuleId} {d : Context}
    (h : c.Grows t reference d) : c.extensions <+: d.extensions := by
  have kept (same : d.extensions = c.extensions) : c.extensions <+: d.extensions :=
    same ▸ List.prefix_rfl
  cases h with
  | same attributeState => exact kept (congrArg AttributeState.extensions attributeState)
  | started _ _ extensions => exact kept extensions
  | aimed _ extensions => exact kept extensions
  | @extended target q set e _ _ _ _ attributeState =>
    have grown : d.extensions = (c.extended reference target q set e).extensions :=
      congrArg AttributeState.extensions attributeState
    rw [grown]
    exact List.prefix_append _ _

end

end Planfile
