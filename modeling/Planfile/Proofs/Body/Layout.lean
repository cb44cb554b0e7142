import Planfile.Proofs.Matching.Objection
import Planfile.Proofs.Matching.OpenScopes

/-!
# Planfile — where rules can stand

A rule can stand in some bodies only, and some rules leave one open behind them. A layout of a grammar says
where each rule can stand and what it opens, and a check finds out whether the alternatives of the rules agree
with it: symbols stand where they can, an action finds open around it what it needs, and what the symbols have
opened its action closes.

Main results:

* `OpenScopes.Shows.opens` — what has been opened is shown as a body inside of the others.
* `OpenScopes.Shows.closes` — when a body has been closed, those around it are shown.
* `GrammarTable.laidOut_of_check` — where the check passes, the alternatives agree with the layout, and so do
  those that a plan can add.
-/

/-!
## The bodies around a statement

Bodies stand in other bodies. The registers of a state show those around a statement when each says what
is open next around it, and when what is above each entry in the plan is what stands around its body. Then
opening something shows one more body, and closing it shows those around it again.
-/

namespace Planfile

/-! ## Bodies -/

/-- A body, with the entry that it belongs to. -/
structure Body where
  scope : Scope
  entry : Nat
  deriving DecidableEq, Repr

/-- What is open next around a statement, where the innermost body comes first. -/
def zone (bodies : List Body) : Option Scope := bodies.head?.map (·.scope)

/-- The entry to which the innermost body of some scope belongs. -/
def innermost (bodies : List Body) (s : Scope) : Option Nat :=
  (bodies.find? (·.scope == s)).map (·.entry)

section
variable {b : Body} {bodies : List Body} {s r : Scope}

theorem innermost_cons_self : innermost (b :: bodies) b.scope = some b.entry := by
  simp [innermost]

theorem innermost_cons_ne (h : b.scope ≠ r) : innermost (b :: bodies) r = innermost bodies r := by
  simp [innermost, h]

/-- What is open next around a statement has an entry. -/
theorem exists_innermost_of_zone (h : zone bodies = some s) : ∃ i, innermost bodies s = some i := by
  obtain ⟨b, first, rfl⟩ := Option.map_eq_some_iff.mp h
  obtain ⟨outer, rfl⟩ := List.head?_eq_some_iff.mp first
  exact ⟨b.entry, innermost_cons_self⟩

/-- What is open around a body is open around one inside of it. -/
theorem Scope.around_of_inside {z : Scope} (h : some z ∈ s.inside) :
    z ∈ s.around ∧ ∀ r ∈ z.around, r ∈ s.around := by
  have checked : ∀ s ∈ all, ∀ z ∈ all, some z ∈ s.inside →
      z ∈ s.around ∧ ∀ r ∈ z.around, r ∈ s.around := by decide
  exact checked s s.mem_all z z.mem_all h

/-- Only a project stands in no body. -/
theorem Scope.eq_project_of_inside (h : none ∈ s.inside) : s = .project := by
  cases s <;> simp_all [inside]

end

namespace OpenScopes

/-- Whether bodies stand in each other, where what is above each entry is what stands around its body. -/
def Holds (d : OpenScopes) : List Body → Prop
  | [] => True
  | b :: outer => zone outer ∈ b.scope.inside ∧
      (d.above b.scope)[b.entry]? = some (innermost outer b.scope) ∧ d.Holds outer

/-- Whether the registers show the bodies around a statement. A scenario other than the first one can be
selected only for what comes next. -/
structure Shows (d : OpenScopes) (bodies : List Body) : Prop where
  current : ∀ s, s ≠ .selected → d.current s = innermost bodies s
  selected : d.current .selected ≠ none → zone bodies = some .selected
  holds : d.Holds bodies

section
variable {d e : OpenScopes} {b : Body} {bodies : List Body} {s r : Scope}

/-- What stands somewhere around a body can stand there. -/
theorem Holds.mem_around (h : d.Holds bodies) (hs : zone bodies ∈ s.inside)
    (hr : innermost bodies r ≠ none) : r ∈ s.around := by
  induction bodies generalizing s with
  | nil => exact absurd rfl hr
  | cons b outer ih =>
    obtain ⟨mem, further⟩ := Scope.around_of_inside hs
    by_cases same : b.scope = r
    · exact same ▸ mem
    · rw [innermost_cons_ne same] at hr
      exact further r (ih h.2.2 h.1 hr)

/-- The entry of each body is there. -/
theorem Holds.exists_entry (h : d.Holds bodies) {i : Nat} (hs : innermost bodies s = some i) :
    ∃ a, (d.above s)[i]? = some a := by
  induction bodies with
  | nil => cases hs
  | cons b outer ih =>
    by_cases same : b.scope = s
    · subst same
      rw [innermost_cons_self] at hs
      cases hs
      exact ⟨_, h.2.1⟩
    · rw [innermost_cons_ne same] at hs
      exact ih h.2.2 hs

/-- What a body stands in next has an entry, and so it has inside of the body. -/
theorem Holds.exists_innermost (h : d.Holds bodies) (hs : zone bodies = some s)
    (alone : ∀ z ∈ s.inside, z ≠ none ∧ z ≠ some s) :
    ∃ r i, some r ∈ s.inside ∧ innermost bodies r = some i := by
  obtain ⟨b, first, rfl⟩ := Option.map_eq_some_iff.mp hs
  obtain ⟨outer, rfl⟩ := List.head?_eq_some_iff.mp first
  obtain ⟨present, other⟩ := alone _ h.1
  obtain ⟨r, next⟩ := Option.ne_none_iff_exists'.mp present
  obtain ⟨i, found⟩ := exists_innermost_of_zone next
  refine ⟨r, i, next ▸ h.1, ?_⟩
  rw [innermost_cons_ne fun same => other (next.trans (congrArg some same.symm)), found]

/-- All bodies stand in a project. -/
theorem Holds.project (h : d.Holds bodies) (hb : bodies ≠ []) : innermost bodies .project ≠ none := by
  induction bodies with
  | nil => exact absurd rfl hb
  | cons b outer ih =>
    by_cases same : b.scope = .project
    · rw [← same, innermost_cons_self]
      simp
    · rw [innermost_cons_ne same]
      refine ih h.2.2 ?_
      rintro rfl
      exact same (Scope.eq_project_of_inside h.1)

/-- Where the entries of bodies are kept, the bodies are. -/
theorem Holds.mono (h : d.Holds bodies)
    (kept : ∀ s, innermost bodies s ≠ none → d.above s <+: e.above s) : e.Holds bodies := by
  induction bodies with
  | nil => trivial
  | cons b outer ih =>
    obtain ⟨mem, entry, rest⟩ := h
    refine ⟨mem, ?_, ih rest fun s hs => ?_⟩
    · have own : innermost (b :: outer) b.scope ≠ none := by
        rw [innermost_cons_self]
        exact Option.some_ne_none _
      obtain ⟨later, same⟩ := kept b.scope own
      rw [← same, List.getElem?_append_left (List.getElem?_eq_some_iff.mp entry).1, entry]
    · refine kept s ?_
      by_cases same : b.scope = s
      · rw [← same, innermost_cons_self]
        exact Option.some_ne_none _
      · rwa [innermost_cons_ne same]

namespace Shows

/-- Where something can be opened no scenario is selected. -/
theorem zone_ne_selected (hs : zone bodies ∈ s.inside) : zone bodies ≠ some .selected := by
  intro same
  rw [same] at hs
  cases s <;> simp [Scope.inside] at hs

/-- What has been opened is shown as a body inside of the others. -/
theorem opens (h : d.Shows bodies) (hs : zone bodies ∈ s.inside) (opened : d.Opens s e) :
    e.Shows (⟨s, e.newest s⟩ :: bodies) := by
  refine ⟨fun r other => ?_, fun selected => ?_, hs, ?_, h.holds.mono fun r hr => ?_⟩
  · by_cases same : r = s
    · subst same
      exact (opened.current other).trans (innermost_cons_self (b := ⟨r, e.newest r⟩)).symm
    · rw [innermost_cons_ne (b := ⟨s, e.newest s⟩) (Ne.symm same), ← h.current r other]
      rcases opened.others r same with kept | ⟨cleared, outside⟩
      · exact kept
      · -- what has been cleared is not open around
        rw [cleared, h.current r other]
        by_contra inside
        exact outside (h.holds.mem_around hs (Ne.symm inside))
  · -- nothing opens inside of a selected scenario, so none was selected before
    by_cases same : s = .selected
    · exact congrArg some same
    · rcases opened.others .selected (Ne.symm same) with kept | ⟨cleared, -⟩
      · exact absurd (h.selected (kept ▸ selected)) (zone_ne_selected hs)
      · exact absurd cleared selected
  · rw [opened.above]
    split
    · next nests =>
      rw [h.current s]
      rintro rfl
      simp [Scope.around] at nests
    · next alone =>
      by_contra inside
      exact alone (h.holds.mem_around hs fun none => inside (congrArg some none.symm))
  · have mem := h.holds.mem_around hs hr
    refine opened.kept r mem ?_
    rwa [h.current r]
    rintro rfl
    cases s <;> simp [Scope.around] at mem

/-- When a body has been closed, those around it are shown. -/
theorem closes (h : d.Shows (b :: bodies)) (closed : d.Closes b.scope e) : e.Shows bodies := by
  obtain ⟨mem, entry, holds⟩ := h.holds
  refine ⟨fun r other => ?_, fun selected => ?_, holds.mono fun r _ => closed.above ▸ List.prefix_rfl⟩
  · by_cases same : r = b.scope
    · subst same
      -- what is current again is the entry around, if bodies of this kind nest
      rw [closed.current, h.current _ other, innermost_cons_self, Option.bind_some, entry]
      split
      · rfl
      · next alone =>
        by_contra inside
        exact alone (holds.mem_around mem (Ne.symm inside))
    · rcases closed.others r same with kept | ⟨cleared, outside⟩
      · rw [kept, h.current r other, innermost_cons_ne (Ne.symm same)]
      · rw [cleared]
        by_contra inside
        exact outside (holds.mem_around mem (Ne.symm inside))
  · by_cases same : b.scope = .selected
    · rw [← same, closed.current, same] at selected
      exact absurd rfl selected
    · rcases closed.others .selected (Ne.symm same) with kept | ⟨cleared, -⟩
      · exact absurd (Option.some.inj (h.selected (kept ▸ selected))) same
      · exact absurd cleared selected

end Shows

end

end OpenScopes

end Planfile

namespace Planfile

/-- Whether something that an action may miss is known to be there, by what is open next around it. -/
def provides : Option Scope → SemanticFault → Bool
  | some _, .noProject => true
  | some (.property _), .noProperty | some .selected, .noProperty => true
  | some .report, .noReport | some .column, .noReport => true
  | some .column, .noColumn => true
  | some .scenario, .noScenario => true
  | _, _ => false

/-- What actions may miss. -/
def missing : List SemanticFault := [.noProject, .noProperty, .noReport, .noColumn, .noScenario]

/-- Whether an action finds all that it needs, by what is open next around it. -/
def Action.fits (a : Action) (z : Option Scope) : Bool := missing.all fun f => !a.needs f || provides z f

/-! ## What is there -/

section
variable {c : Context} {bodies : List Body} (h : c.openScopes.Shows bodies)

include h

/-- The entry that is current is there. -/
theorem exists_entry_of_current {s : Scope} {i : Nat} (hs : c.openScopes.current s = some i)
    (other : s ≠ .selected) : ∃ a, (c.openScopes.above s)[i]? = some a :=
  h.holds.exists_entry ((h.current s other).symm.trans hs)

/-- In a body there is a project. -/
theorem project_ne_none (hz : zone bodies ≠ none) : c.project ≠ none := by
  intro none
  have inside : bodies ≠ [] := fun empty => hz (empty ▸ rfl)
  refine h.holds.project inside ?_
  rw [← h.current .project (by simp), Context.openScopes, none]
  rfl

/-- The task or resource that is current is there. -/
theorem currentProperty?_ne_none (hp : c.property ≠ none) : c.currentProperty? ≠ none := by
  obtain ⟨⟨kind, i⟩, inside⟩ := Option.ne_none_iff_exists'.mp hp
  have current : c.openScopes.current (.property kind) = some i := by
    simp [Context.openScopes, Matcher.openProperty?, inside]
  obtain ⟨a, entry⟩ := exists_entry_of_current h current (by simp)
  cases there : c.project with
  | none => simp [Context.openScopes, there] at entry
  | some p =>
    rw [Matcher.currentProperty?_eq inside there]
    intro none
    simp [Context.openScopes, there, Plan.PropertySet.getElem?_headings, none] at entry

/-- In the body of a task or a resource there is one, also where a scenario has been selected. -/
theorem property_ne_none (hz : provides (zone bodies) .noProperty = true) : c.property ≠ none := by
  obtain ⟨kind, i, found⟩ : ∃ kind i, innermost bodies (.property kind) = some i := by
    cases next : zone bodies with
    | none => rw [next] at hz; cases hz
    | some s =>
      rw [next] at hz
      cases s with
      | property kind => exact ⟨kind, exists_innermost_of_zone next⟩
      | selected =>
        obtain ⟨r, i, mem, found⟩ := h.holds.exists_innermost next (by decide)
        obtain rfl | rfl : r = .property .task ∨ r = .property .resource := by
          simpa [Scope.inside] using mem
        · exact ⟨_, i, found⟩
        · exact ⟨_, i, found⟩
      | _ => cases hz
  have current := Context.property_of_openScopes ((h.current (.property kind) (by simp)).trans found)
  exact current ▸ Option.some_ne_none _

/-- In the body of a report there is one, also where a column is open in it. -/
theorem currentReport?_ne_none (hz : provides (zone bodies) .noReport = true) :
    c.currentReport? ≠ none := by
  -- a report is open in its own body, and around each of its columns
  obtain ⟨i, found⟩ : ∃ i, innermost bodies .report = some i := by
    cases next : zone bodies with
    | none => rw [next] at hz; cases hz
    | some s =>
      rw [next] at hz
      cases s with
      | report => exact exists_innermost_of_zone next
      | column =>
        obtain ⟨r, i, mem, found⟩ := h.holds.exists_innermost next (by decide)
        obtain rfl : r = .report := by simpa [Scope.inside] using mem
        exact ⟨i, found⟩
      | _ => cases hz
  have inside : c.report = some i := (h.current .report (by simp)).trans found
  obtain ⟨a, entry⟩ := exists_entry_of_current h (s := .report) inside (by simp)
  cases there : c.project with
  | none => simp [Context.openScopes, there] at entry
  | some p =>
    have present : i < p.reports.length := by
      simpa [Context.openScopes, there] using (List.getElem?_eq_some_iff.mp entry).1
    simp [Context.currentReport?, inside, there, present]

theorem column_ne_none (hz : provides (zone bodies) .noColumn = true) : c.column ≠ none := by
  have next : zone bodies = some .column := by
    unfold provides at hz
    split at hz <;> simp_all
  obtain ⟨i, found⟩ := exists_innermost_of_zone next
  have current : c.column.map (fun _ => 0) = some i := (h.current .column (by simp)).trans found
  exact fun closed => by rw [closed] at current; cases current

/-- In the body of a scenario there is one. -/
theorem currentScenario?_ne_none (hz : provides (zone bodies) .noScenario = true) :
    c.currentScenario? ≠ none := by
  have next : zone bodies = some .scenario := by
    unfold provides at hz
    split at hz <;> simp_all
  obtain ⟨i, found⟩ := exists_innermost_of_zone next
  have inside : c.scenario = some i := (h.current .scenario (by simp)).trans found
  obtain ⟨a, entry⟩ := exists_entry_of_current h (s := .scenario) inside (by simp)
  cases there : c.project with
  | none => simp [Context.openScopes, there] at entry
  | some p =>
    have present : i < p.scenarios.length := by
      simpa [Context.openScopes, there] using (List.getElem?_eq_some_iff.mp entry).1
    simp [Context.currentScenario?, inside, there, Plan.Project.scenario?, present]

/-- An action that finds all that it needs misses nothing. -/
theorem Action.not_misses {a : Action} (fits : a.fits (zone bodies) = true) {fault : SemanticFault}
    (listed : fault ∈ missing) : ¬ a.Misses c fault := by
  have given (needed : a.needs fault = true) : provides (zone bodies) fault = true := by
    have found := List.all_eq_true.mp fits fault listed
    rwa [needed] at found
  simp only [missing, List.mem_cons, List.not_mem_nil, or_false] at listed
  rcases listed with rfl | rfl | rfl | rfl | rfl
  · rintro ⟨lacking, needed⟩
    refine project_ne_none h (fun outside => ?_) lacking
    have found := given needed
    rw [outside] at found
    cases found
  · rintro ⟨lacking, needed⟩
    -- where there is none that is current, one is needed
    by_cases current : c.property = none
    · exact property_ne_none h (given (needed current)) current
    · exact currentProperty?_ne_none h current lacking
  · exact fun ⟨lacking, needed⟩ => currentReport?_ne_none h (given needed) lacking
  · exact fun ⟨lacking, needed⟩ => column_ne_none h (given needed) lacking
  · exact fun ⟨lacking, needed⟩ => currentScenario?_ne_none h (given needed) lacking

end

/-- Whether an action ends an alternative whose symbols may have opened something, so that in the end
something is open behind the alternative or nothing is. -/
def Action.ends (a : Action) (z opened behind : Option Scope) : Bool :=
  match a.opens? with
  | some s => opened.isNone && behind == some s && s.inside.contains z
  | none => behind.isNone &&
    match opened with
    | some s => a.closes s
    | none => a.isQuiet

/-- What is said of the rules of a grammar. -/
structure Layout where
  /-- Whether a rule can stand where something is open next around it. -/
  allows : RuleId → Option Scope → Bool
  /-- What a rule opens and leaves open. -/
  opens : RuleId → Option Scope

namespace Layout

variable (l : Layout)

/-- What a symbol opens and leaves open. -/
def opened : Symbol → Option Scope
  | .rule id => l.opens id
  | _ => none

/-- Whether a symbol can stand in a place. -/
def admits (z : Option Scope) : Symbol → Bool
  | .rule id => l.allows id z
  | _ => true

/-- What symbols open and leave open, if they can stand in a place. Behind what one of them has opened no
other one opens anything. -/
def along? (z : Option Scope) : List Symbol → Option (Option Scope)
  | [] => some none
  | s :: rest =>
    if l.admits z s then
      match l.opened s with
      | none => along? z rest
      | some inner => if along? (some inner) rest = some none then some (some inner) else none
    else none

/-- Where symbols can stand the first one can, and the others can behind it. Either the first one opens
nothing, or the others do not. -/
theorem along?_cons {l : Layout} {z opened : Option Scope} {first : Symbol} {rest : List Symbol}
    (h : l.along? z (first :: rest) = some opened) :
    l.admits z first = true ∧ ∃ later, l.along? ((l.opened first).or z) rest = some later ∧
      (l.opened first = none ∧ later = opened ∨ l.opened first = opened ∧ later = none) := by
  rw [along?] at h
  split at h
  · next admitted =>
    refine ⟨admitted, ?_⟩
    split at h
    · next nothing => exact ⟨opened, nothing ▸ h, .inl ⟨nothing, rfl⟩⟩
    · next inner opens =>
      split at h
      · next later =>
        cases h
        exact ⟨none, opens ▸ later, .inr ⟨opens, rfl⟩⟩
      · cases h
  · cases h

/-- Whether an alternative can stand in a place, and something is open behind it in the end or nothing is.
Only what a project is about goes on behind a project. -/
def suits (z behind : Option Scope) (p : Pattern) : Bool :=
  (l.along? z p.symbols).any fun opened =>
    match p.action with
    | none => opened == behind && (opened.isNone || opened == some .project)
    | some a => a.fits (opened.or z) && a.ends z opened behind

end Layout

namespace GrammarTable

/-- Whether the rules of a grammar agree with a layout, with all that a plan can add to them. -/
structure LaidOut (t : GrammarTable) (l : Layout) : Prop where
  patterns : ∀ id z, l.allows id z = true → ∀ p, t.Offers id p → l.suits z (l.opens id) p = true
  /-- What may be absent or be repeated leaves nothing open. -/
  stays : ∀ id z, l.allows id z = true →
    (t.rule id).optional = true ∨ (t.rule id).repeatable = true → l.opens id = none

/-- What can be open next around a statement. -/
def allZones : List (Option Scope) := none :: Scope.all.map some

theorem mem_allZones (z : Option Scope) : z ∈ allZones := by
  cases z with
  | none => exact List.mem_cons_self
  | some s => exact List.mem_cons_of_mem _ (List.mem_map_of_mem s.mem_all)

section
variable (t : GrammarTable) (l : Layout)

/-- Whether a rule is found to agree with a layout in a place. -/
def checkLayoutOf (id : RuleId) (z : Option Scope) : Bool :=
  !l.allows id z ||
    (t.rule id).patterns.all (l.suits z (l.opens id)) &&
      (!((t.rule id).optional || (t.rule id).repeatable) || l.opens id == none)

/-- Whether an attribute can be added to a rule in a place: there is a task or a resource that it is stored
in. -/
def checkAddable (reference id : RuleId) (z : Option Scope) : Bool :=
  !l.allows id z ||
    provides z .noProperty && l.along? z [.rule reference] == some none && l.opens id == none

/-- Whether rules are found to agree with a layout. -/
def checkLayout : Bool :=
  (List.range t.rules.size).all (fun i => allZones.all (t.checkLayoutOf l ⟨i⟩)) &&
    (t.ruleId? "referenceBody").any fun reference =>
      extendableNames.all fun name => (t.ruleId? name).all fun id =>
        allZones.all (checkAddable l reference id)

variable {t l}

/-- An attribute that a plan adds can stand where it can be added. -/
theorem IsExtension.suits {p : Pattern} (h : t.IsExtension p) {reference id : RuleId}
    (known : t.ruleId? "referenceBody" = some reference) {z : Option Scope}
    (allowed : l.allows id z = true) (checked : checkAddable l reference id z = true) :
    l.suits z (l.opens id) p = true := by
  obtain ⟨e, full, resolved, action⟩ := h
  rw [checkAddable, allowed] at checked
  simp only [Bool.not_true, Bool.false_or, Bool.and_eq_true, beq_iff_eq] at checked
  obtain ⟨⟨inside, along⟩, nothing⟩ := checked
  rw [e.mapM_symbols full known] at resolved
  -- its symbols open nothing, and of what it may miss there is the task or the resource
  have symbols : l.along? z p.symbols = some none := by
    rw [← Except.ok.inj resolved]
    unfold AttributeExtension.tailSymbols
    cases e.kind with
    | reference => exact along
    | _ => rfl
  rw [Layout.suits, symbols, Option.any_some, action, nothing]
  have fits : e.action.fits z = true := by
    simp [Action.fits, missing, AttributeExtension.action, Action.needs, inside]
  exact Bool.and_eq_true_iff.mpr ⟨fits, rfl⟩

/-- Where the check passes, the alternatives agree with the layout, and so do those that a plan can
add. -/
theorem laidOut_of_check (h : t.checkLayout l = true) : t.LaidOut l := by
  obtain ⟨rules, reference⟩ := Bool.and_eq_true_iff.mp h
  obtain ⟨body, known, added⟩ := (Option.any_eq_true _ _).mp reference
  have checked := @rule_eq_default_or_of_all t (fun id => allZones.all (t.checkLayoutOf l id))
    fun i known => List.all_eq_true.mp rules i (List.mem_range.mpr known)
  have inZone {id : RuleId} {z : Option Scope} (allowed : l.allows id z = true)
      (passed : allZones.all (t.checkLayoutOf l id) = true) :
      ((t.rule id).patterns.all (l.suits z (l.opens id)) = true) ∧
        ((t.rule id).optional = true ∨ (t.rule id).repeatable = true → l.opens id = none) := by
    have here := List.all_eq_true.mp passed z (mem_allZones z)
    rw [checkLayoutOf, allowed] at here
    obtain ⟨patterns, stays⟩ := Bool.and_eq_true_iff.mp here
    refine ⟨patterns, fun flags => ?_⟩
    rcases flags with flag | flag <;> simpa [flag] using stays
  refine ⟨fun id z allowed p offered => ?_, fun id z allowed flags => ?_⟩
  · -- alternatives of the table have been checked one by one, added ones for each rule they can be added to
    rcases offered with declared | ⟨⟨name, listed, found⟩, extension⟩
    · rcases checked id with absent | passed
      · rw [absent] at declared
        cases declared
      · exact List.all_eq_true.mp (inZone allowed passed).1 p declared
    · have addable := List.all_eq_true.mp added name listed
      rw [found, Option.all_some] at addable
      exact extension.suits known allowed (List.all_eq_true.mp addable z (mem_allZones z))
  · rcases checked id with absent | passed
    · rw [absent] at flags
      rcases flags with flag | flag <;> cases flag
    · exact (inZone allowed passed).2 flags

end

end GrammarTable

end Planfile
