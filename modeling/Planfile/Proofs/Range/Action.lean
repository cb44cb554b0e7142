import Planfile.Proofs.Course.Tree
import Planfile.Proofs.Range.Value

/-!
# Planfile — actions keep projects in range

Each action that sets a time or a number has looked at it before, or takes it from a value that another
action has guarded: dates of tasks and reports come from rules that compare them with the time of the
project, and an attribute that a plan adds has a name with a capital letter, so that it is not one of those
that every task has. All other actions leave alone what has to be in range.

Main results:

* `Action.staysInRange_of_run` — an action leaves a project that is in range, over the same time.
* `Action.passes_of_run` — what an action guards its value for is so.
-/

namespace Planfile

open Matcher
open Calendar (Interval TimeRange WorkingHours)
open Plan (PropertyKind AttributeValue)

/-! ## States -/

/-- Whether a name starts with a capital letter. -/
def IsCapital (name : String) : Prop := name.toList.head?.any Char.isUpper = true

instance (name : String) : Decidable (IsCapital name) :=
  inferInstanceAs (Decidable (name.toList.head?.any Char.isUpper = true))

/-- Whether an alternative that stores an attribute does so under a name with a capital letter. -/
def Pattern.NamesCapital (p : Pattern) : Prop :=
  ∀ id kind specific, p.action = some (.extend (.store id kind specific)) → IsCapital id

/-- What a value can be guarded for. -/
inductive Guard where
  /-- Its moments lie within the project. -/
  | within
  /-- It starts with a capital letter. -/
  | capital
  deriving DecidableEq

/-- Whether a value is what it is guarded for, in a project over some time. -/
def Value.Passes (time : Option Interval) : Guard → Value → Prop
  | .within, .date d => ∃ t, time = some t ∧ t.contains d = true
  | .within, .interval i => ∃ t, time = some t ∧ t.Covers i
  | .capital, .str s => IsCapital s
  | _, _ => True

/-- What an action guards its value for. -/
def Action.guard? : Action → Option Guard
  | .calendar .projectDate | .calendar .projectInterval => some .within
  | .extend .id => some .capital
  | _ => none

/-- The symbol of which an action trusts that its value is guarded, and for what. -/
def Action.trusts? : Action → Option (Nat × Guard)
  | .property .start | .property .stop | .report .period | .report .start | .report .stop =>
    some (1, .within)
  | .extend (.declare _) => some (1, .capital)
  | _ => none

namespace Context

/-- The time of the project, once it has been started. -/
def time? (c : Context) : Option Interval := c.project.map (·.interval)

theorem time?_of_project {c : Context} {p : Plan.Project} (h : c.project = some p) :
    c.time? = some p.interval := by
  rw [time?, h]
  rfl

/-- Whether the project is in range, and so are the names of what the plan has added to the grammar. -/
structure InRange (c : Context) : Prop where
  project : ∀ p, c.project = some p → p.InRange
  added : ∀ e ∈ c.extensions, e.2.NamesCapital

/-- Whether a state behind another one is in range, and a project that was there covers the same time. -/
structure StaysInRange (c d : Context) : Prop where
  inRange : d.InRange
  time : ∀ t, c.time? = some t → d.time? = some t

/-- Before the first token there is nothing that could be out of range. -/
theorem inRange_initial (tokens : TokenSource) (journal : Log.Journal) :
    (Context.initial tokens journal).InRange where
  project p hp := by cases hp
  added e he := absurd he List.not_mem_nil

namespace StaysInRange

variable {c d e : Context}

theorem refl (h : c.InRange) : c.StaysInRange c := ⟨h, fun _ ht => ht⟩

theorem trans (h : c.StaysInRange d) (hd : d.StaysInRange e) : c.StaysInRange e :=
  ⟨hd.inRange, fun t ht => hd.time t (h.time t ht)⟩

end StaysInRange

/-- What has to be in range: all that can be set to a time or a number, and what has been added. -/
@[simp] def gauges (c : Context) :=
  (c.extensions, c.project.map fun p =>
    (p.interval, p.settings.scheduleGranularity, p.settings.vacations, p.settings.workingHours,
      p.tasks.properties, p.resources.properties,
      p.reports.map fun r => (r.element.start, r.element.stop)))

section
variable {c d : Context} (h : c.InRange)

include h

/-- A project in range over the same time takes the place of that of before. -/
theorem InRange.of_project {p q : Plan.Project} (there : c.project = some p) (hd : d.project = some q)
    (extensions : d.extensions = c.extensions) (hq : q.InRange) (same : q.interval = p.interval) :
    c.StaysInRange d := by
  refine ⟨⟨fun r hr => ?_, extensions ▸ h.added⟩, fun t ht => ?_⟩
  · exact Option.some.inj (hd.symm.trans hr) ▸ hq
  · rw [time?_of_project there] at ht
    rw [time?_of_project hd, same]
    exact ht

/-- Where nothing has changed that has to be in range, the state is in range still. -/
theorem InRange.of_gauges (same : d.gauges = c.gauges) : c.StaysInRange d := by
  -- either there is a project in both states or in none of them
  obtain ⟨extensions, projects⟩ := Prod.mk.inj same
  cases there : c.project with
  | none =>
    rw [there, Option.map_none] at projects
    have none : d.project = none := Option.map_eq_none_iff.mp projects
    refine ⟨⟨fun p hp => ?_, extensions ▸ h.added⟩, fun t ht => ?_⟩
    · rw [none] at hp
      cases hp
    · rw [time?, there] at ht
      cases ht
  | some p =>
    rw [there, Option.map_some] at projects
    obtain ⟨q, hd, same⟩ := Option.map_eq_some_iff.mp projects
    have own := h.project p there
    simp only [Prod.mk.injEq] at same
    obtain ⟨time, granularity, vacations, hours, tasks, resources, reports⟩ := same
    refine h.of_project there hd extensions ⟨time ▸ own.time, ?_, fun kind => ?_, fun r hr => ?_⟩ time
    · exact ⟨granularity ▸ own.settings.granularity, vacations ▸ own.settings.vacations,
        hours ▸ own.settings.workingHours⟩
    · rw [time]
      cases kind with
      | task => exact fun x hx => own.properties .task x (tasks ▸ hx)
      | resource => exact fun x hx => own.properties .resource x (resources ▸ hx)
    · -- a report with the same times is among those of before
      have listed : (r.element.start, r.element.stop) ∈
          p.reports.map fun r => (r.element.start, r.element.stop) :=
        reports ▸ List.mem_map_of_mem hr
      obtain ⟨old, mem, times⟩ := List.mem_map.mp listed
      obtain ⟨start, stop⟩ := Prod.mk.inj times
      have covers := own.reports old mem
      rw [Plan.ReportElement.InRange, start, stop] at covers
      rw [time]
      exact covers

end

end Context

namespace Matcher

/-- Whether a computation in some state leaves one that is in range, over the same time. -/
def Bounds (m : Matcher α) (env : Surroundings) (c : Context) : Prop :=
  Ends (fun _ d => c.StaysInRange d) m env c

/-- What leaves alone what has to be in range. -/
theorem Keeps.bounds {m : Matcher α} (h : Keeps Context.gauges m) (env : Surroundings) {c : Context}
    (hc : c.InRange) : Bounds m env c :=
  (h env c).weaken fun _ _ same => hc.of_gauges same

section
variable {env : Surroundings} {c : Context} {m : Matcher α} {f : α → Matcher β}

theorem Bounds.bind (hm : Bounds m env c) (hf : ∀ a d, c.StaysInRange d → Bounds (f a) env d) :
    Bounds (m >>= f) env c := by
  rw [Bounds, ends_bind]
  exact hm.weaken fun a d stays => (hf a d stays).weaken fun _ _ behind => stays.trans behind

/-- A value that is given at the end changes nothing. -/
theorem Bounds.done (hm : Bounds m env c) (b : β) : Bounds (do let _ ← m; return b) env c :=
  hm.bind fun _ _ stays => .refl stays.inRange

theorem bounds_take {v : Values} {a : Except GrammarError α}
    (h : ∀ x, a = .ok x → Bounds (f x) env c) : Bounds (take v a >>= f) env c := by
  rw [Bounds, ends_bind, ends_take]
  exact h

variable (hc : c.InRange)

include hc

theorem bounds_modifySettings {f : Plan.Settings → Plan.Settings}
    (hf : ∀ s, s.InRange → (f s).InRange) : Bounds (modifySettings f) env c := by
  rw [Bounds, ends_modifySettings]
  intro p there
  have own := hc.project p there
  exact hc.of_project there rfl rfl (own.modifySettings (hf _ own.settings)) rfl

/-- The current task or resource gets values that are in range. -/
theorem bounds_modifyProperty {f : Plan.Property → Plan.Property}
    (hf : ∀ t q, c.time? = some t → q.InRange t → (f q).InRange t) :
    Bounds (modifyProperty f) env c := by
  rw [Bounds, ends_modifyProperty]
  intro kind i _ p there q _
  have own := hc.project p there
  have time := Context.time?_of_project there
  have changed := (own.properties kind).modify i fun q hq => hf _ q time hq
  refine hc.of_project there rfl rfl (own.setProperties changed) ?_
  cases kind <;> rfl

theorem bounds_setScenarioAttribute {id : String} {value : AttributeValue}
    (hv : ∀ t, c.time? = some t → value.InRange t id) :
    Bounds (setScenarioAttribute id value) env c := by
  rw [Bounds, ends_setScenarioAttribute]
  exact bounds_modifyProperty hc fun t q time hq => hq.setScenario _ (hv t time)

/-- The current report gets times within the project. -/
theorem bounds_modifyReport {f : Plan.ReportElement → Plan.ReportElement}
    (hf : ∀ t e, c.time? = some t → e.InRange t → (f e).InRange t) : Bounds (modifyReport f) env c := by
  rw [Bounds, ends_modifyReport]
  intro i _ p there r _
  have own := hc.project p there
  refine hc.of_project there rfl rfl (own.withReports fun r hr => ?_) rfl
  obtain ⟨j, found⟩ := List.mem_iff_getElem?.mp hr
  rw [List.getElem?_modify] at found
  -- it is the report that has been changed, or another one
  obtain ⟨old, before, rfl⟩ := Option.map_eq_some_iff.mp found
  have covers := own.reports old (List.mem_of_getElem? before)
  split
  · exact hf _ _ (Context.time?_of_project there) covers
  · exact covers

/-- What is found in the current scenario is in range. -/
theorem bounds_stored {id : String} {value : AttributeValue}
    (found : c.scenarioAttribute? id = some value) : ∀ t, c.time? = some t → value.InRange t id := by
  obtain ⟨q, current, there⟩ := Option.bind_eq_some_iff.mp found
  obtain ⟨⟨kind, i⟩, -, inside⟩ := Option.bind_eq_some_iff.mp current
  obtain ⟨p, project, listed⟩ := Option.bind_eq_some_iff.mp inside
  obtain ⟨table, mine, value⟩ := Option.bind_eq_some_iff.mp there
  intro t time
  rw [Context.time?_of_project project] at time
  cases time
  exact (hc.project p project).properties kind q (Array.mem_of_getElem? listed) id _
    (.inr ⟨table, List.mem_of_getElem? mine, Plan.AttributeTable.mem_of_get? value⟩)

end

end Matcher

/-! ## Groups of actions -/

section
variable {env : Surroundings} {c : Context} {v : Values}

/-- Whether an action on the project sets no times and no numbers that have to be in range. -/
def ProjectAction.isUnbounded : ProjectAction → Bool
  | .header | .timingResolution | .vacation => false
  | _ => true

theorem ProjectAction.keeps_gauges (v : Values) {a : ProjectAction} (h : a.isUnbounded = true) :
    Keeps Context.gauges (a.perform v) := by
  intro env c
  cases a with
  | header | timingResolution | vacation => cases h
  | _ => simp +contextual [perform, realFormat, Plan.Project.modifySettings, Plan.Project.interval]

/-- Scenarios have no times of their own. -/
theorem ScenarioAction.keeps_gauges (v : Values) (a : ScenarioAction) :
    Keeps Context.gauges (a.perform v) := by
  intro env c
  cases a <;>
    simp +contextual [perform, closeScenario, enableScenario, scenarioIndex, Plan.Project.interval]

/-- What a statement changes in a report, but for its times. -/
theorem ReportAction.keeps_times (v : Values) {a : ReportAction}
    (h : (Action.report a).trusts? = none) :
    Ends (fun f d => d = c ∧ ∀ e, (f e).start = e.start ∧ (f e).stop = e.stop) (a.change v) env c := by
  cases a with
  | period | start | stop => cases h
  | _ => simp [change, enabledScenarios]

/-- An attribute that a plan adds is not the start or the end of a task, whatever its date. -/
theorem inRange_extensionValue {id : String} (capital : IsCapital id) {kind : Plan.AttributeKind}
    {value : AttributeValue} (h : extensionValue kind v = .ok value) (time : Interval) :
    value.InRange time id := by
  unfold extensionValue at h
  split at h
  · cases given : v.date 1 <;> rw [given] at h <;> cases h
    rintro (rfl | rfl)
    · exact absurd capital (by decide)
    · exact absurd capital (by decide)
  · cases given : v.string 1 <;> rw [given] at h <;> cases h
    trivial
  · cases given : v.string 1 <;> rw [given] at h <;> cases h
    trivial

/-- What a statement changes in a report keeps its times within the project. -/
theorem ReportAction.bounds_change {a : ReportAction}
    (trusted : ∀ i g, (Action.report a).trusts? = some (i, g) →
      ∀ x, v.value? i = some x → x.Passes c.time? g) :
    Ends (fun f d => d = c ∧ ∀ t e, c.time? = some t → e.InRange t → (f e).InRange t) (a.change v) env c := by
  have date {day : Calendar.DateTime} (taken : v.date 1 = .ok day)
      (trusts : (Action.report a).trusts? = some (1, .within)) {t : Interval} (time : c.time? = some t) :
      t.contains day = true := by
    obtain ⟨x, found, is⟩ := Values.exists_of_typed taken
    cases x <;> cases is
    obtain ⟨other, there, within⟩ := trusted 1 .within trusts _ found
    cases there.symm.trans time
    exact within
  cases a with
  | period =>
    simp only [change, ends_bind, ends_take, ends_pure]
    intro period taken
    refine ⟨trivial, fun t e time he => ?_⟩
    obtain ⟨x, found, is⟩ := Values.exists_of_typed taken
    cases x <;> cases is
    obtain ⟨other, there, covers⟩ := trusted 1 .within rfl _ found
    cases there.symm.trans time
    exact covers
  | start =>
    simp only [change, ends_bind, ends_take, ends_pure]
    exact fun day taken => ⟨trivial, fun t e time he => ⟨date taken rfl time, he.2⟩⟩
  | stop =>
    simp only [change, ends_bind, ends_take, ends_pure]
    exact fun day taken => ⟨trivial, fun t e time he => ⟨he.1, date taken rfl time⟩⟩
  | _ =>
    -- the times of the report are those of before
    refine (ReportAction.keeps_times v rfl).weaken fun f d keeps => ⟨keeps.1, fun t e _ he => ?_⟩
    obtain ⟨start, stop⟩ := keeps.2 e
    rw [Plan.ReportElement.InRange, start, stop]
    exact he

variable (hc : c.InRange)

include hc

theorem ProjectAction.bounds_perform {a : ProjectAction} (h : c.Allows (.project a)) (hv : v.InOrder) :
    Bounds (a.perform v) env c := by
  cases a with
  | header =>
    -- there is no project before, whose time could change
    have unstarted := h.unstarted
    refine bounds_take fun id _ => bounds_take fun name _ => bounds_take fun version _ =>
      bounds_take fun time taken => ?_
    refine ⟨⟨fun p hp => ?_, hc.added⟩, fun t ht => ?_⟩
    · cases hp
      exact Plan.Project.inRange_initial (hv.interval taken) _ _ _
    · rw [Context.time?, unstarted] at ht
      cases ht
  | timingResolution =>
    refine bounds_take fun seconds _ => ?_
    simp only [Bounds, ends_ite, ends_fail]
    split
    · trivial
    · next fine =>
      split
      · trivial
      · next coarse =>
        -- it has been objected to all that is finer or coarser
        refine bounds_modifySettings hc fun s hs => ⟨⟨?_, ?_⟩, hs.vacations, hs.workingHours⟩
        · exact Int.not_lt.mp fine
        · exact Int.not_lt.mp coarse
  | vacation =>
    refine bounds_modifySettings hc fun s hs => ⟨hs.granularity, fun i hi => ?_, hs.workingHours⟩
    rcases List.mem_append.mp hi with old | new
    · exact hs.vacations i old
    · exact hv.intervals i new
  | _ => exact (ProjectAction.keeps_gauges v rfl).bounds env hc

/-- Vacations are added to those of before. -/
theorem Matcher.bounds_addVacations {added : List Interval} (h : ∀ i ∈ added, i.InOrder) :
    Bounds (addVacations added) env c := by
  rw [Bounds, addVacations, ends_bind, ends_get]
  refine bounds_setScenarioAttribute hc fun t time i hi => ?_
  -- those of before are in the state, where they have been in order all the time
  rcases List.mem_append.mp hi with old | new
  · split at old
    · next known found => exact bounds_stored hc found t time i old
    · cases old
  · exact h i new

/-- A date that passes lies within the project. -/
theorem Matcher.bounds_date {id : String} {date : Calendar.DateTime}
    (passes : (Value.date date).Passes c.time? .within) :
    Bounds (setScenarioAttribute id (.date date)) env c := by
  obtain ⟨time, there, within⟩ := passes
  refine bounds_setScenarioAttribute hc fun t ht _ => ?_
  cases there.symm.trans ht
  exact within

theorem PropertyAction.bounds_perform {a : PropertyAction} (hv : v.InOrder)
    (trusted : ∀ i g, (Action.property a).trusts? = some (i, g) →
      ∀ x, v.value? i = some x → x.Passes c.time? g) : Bounds (a.perform v) env c := by
  -- values of other kinds have no range
  have set {d : Context} (hd : d.InRange) (id : String) {value : AttributeValue}
      (free : ∀ t, value.InRange t id) : Bounds (setScenarioAttribute id value) env d :=
    bounds_setScenarioAttribute hd fun t _ => free t
  have date {date : Calendar.DateTime} (taken : v.date 1 = .ok date)
      (trusts : (Action.property a).trusts? = some (1, .within)) :
      (Value.date date).Passes c.time? .within := by
    obtain ⟨x, found, is⟩ := Values.exists_of_typed taken
    cases x <;> cases is
    exact trusted 1 .within trusts _ found
  cases a with
  | header kind =>
    refine bounds_take fun id _ => bounds_take fun name _ => Bounds.bind ?_ fun _ d stays => ?_
    · rw [Bounds, ends_openProperty]
      intro p there grown added
      have own := hc.project p there
      refine hc.of_project there rfl rfl (own.setProperties ((own.properties kind).add? added _)) ?_
      cases kind <;> rfl
    · exact stays.inRange.of_gauges rfl
  | close | leaveScenario => exact hc.of_gauges rfl
  | allocate =>
    refine Bounds.done ?_ none
    rw [Bounds, addAllocations, ends_bind, ends_get]
    exact set hc _ fun _ => trivial
  | flags =>
    refine Bounds.done ?_ none
    rw [Bounds, addFlags, ends_bind, ends_get]
    exact set hc _ fun _ => trivial
  | vacation => exact (bounds_addVacations hc hv.intervals).done none
  | depends => exact (set hc _ fun _ => by trivial).done none
  | ticks id => exact bounds_take fun _ _ => (set hc _ fun _ => by trivial).done none
  | start | stop =>
    refine bounds_take fun day taken => (bounds_date hc (date taken rfl)).bind fun _ d stays => ?_
    exact (set stays.inRange _ fun _ => by trivial).done none
  | priority =>
    refine bounds_take fun priority _ => ?_
    dsimp only
    split
    · rw [Bounds, ends_bind, ends_fail]
      trivial
    · next fits =>
      have bounded : 0 ≤ priority ∧ priority ≤ 1000 := by omega
      refine Bounds.done (set hc _ fun _ => ?_) none
      exact bounded
  | relativeId | resourceId | allocation | alternatives | selectMode =>
    exact Keeps.bounds (PropertyAction.keeps_of_isReadOnly v rfl) env hc

/-- An attribute that is added has a name with a capital letter. -/
theorem Matcher.bounds_applyExtension {e : AttributeExtension} (capital : IsCapital e.id) :
    Bounds (applyExtension e) env c := by
  simp only [Bounds, applyExtension, ends_bind, ends_get, ends_orFail, ends_live, ends_sound]
  intro target _ taken _
  -- a keyword that is taken is objected to
  cases taken with
  | true => simp
  | false =>
    simp only [Bool.false_eq_true, if_false, ends_bind, ends_defineAttribute]
    intro p there grown defined
    have own := hc.project p there
    have stays : c.StaysInRange { c with project := some (p.setProperties target.kind grown) } := by
      refine hc.of_project there rfl rfl (own.setProperties ((own.properties target.kind).define? defined)) ?_
      cases target.kind <;> rfl
    simp only [ends_read, ends_sound, ends_bind, ends_modify, ends_ite, ends_report, ends_pure]
    intro symbols _
    have behind : c.StaysInRange { c with
        project := some (p.setProperties target.kind grown)
        extensions := c.extensions ++ [((if e.scenarioSpecific = true then target.scenarioRule
          else target.rule), ⟨symbols, some e.action⟩)] } := by
      refine ⟨⟨stays.inRange.project, fun x hx => ?_⟩, stays.time⟩
      rcases List.mem_append.mp hx with old | new
      · exact hc.added x old
      · rw [List.mem_singleton.mp new]
        intro id kind specific stores
        cases stores
        exact capital
    split
    · exact behind.trans (behind.inRange.of_gauges rfl)
    · exact behind

theorem ExtendAction.bounds_perform {a : ExtendAction}
    (trusted : ∀ i g, (Action.extend a).trusts? = some (i, g) →
      ∀ x, v.value? i = some x → x.Passes c.time? g)
    (names : ∀ id kind specific, a = .store id kind specific → IsCapital id) :
    Bounds (a.perform v) env c := by
  cases a with
  | target =>
    have keeps : Keeps Context.gauges (ExtendAction.target.perform v) := by
      intro env c
      simp [perform, chooseTarget]
    exact keeps.bounds env hc
  | close => exact hc.of_gauges rfl
  | declare kind =>
    refine Bounds.done ?_ none
    refine bounds_take fun id taken => bounds_take fun name _ => bounds_applyExtension hc ?_
    -- the id has been guarded where it was read
    obtain ⟨x, found, is⟩ := Values.exists_of_typed taken
    cases x <;> cases is
    exact trusted 1 .capital rfl _ found
  | id => exact (ExtendAction.keeps_id v).bounds env hc
  | store name kind specific =>
    have capital := names name kind specific rfl
    refine bounds_take fun value given => ?_
    have inRange := inRange_extensionValue capital given
    split
    · exact (bounds_setScenarioAttribute hc fun t _ => inRange t).done none
    · exact (bounds_modifyProperty hc fun t q _ hq => hq.set (inRange t)).done none

theorem Matcher.bounds_openReport (word name : String) : Bounds (openReport word name) env c := by
  simp only [Bounds, openReport, ends_bind, ends_orFail, ends_project, ends_modify]
  intro kind _ p there
  have own := hc.project p there
  refine hc.of_project there rfl rfl (own.withReports fun r hr => ?_) rfl
  rcases List.mem_append.mp hr with old | new
  · exact own.reports r old
  · rw [List.mem_singleton.mp new]
    exact own.element_over

theorem ReportAction.bounds_perform {a : ReportAction}
    (trusted : ∀ i g, (Action.report a).trusts? = some (i, g) →
      ∀ x, v.value? i = some x → x.Passes c.time? g) : Bounds (a.perform v) env c := by
  have column {a : ReportAction} (h : a = .column ∨ a = .columnId ∨ a = .columnTitle) :
      Keeps Context.gauges (a.perform v) := by
    intro env c
    rcases h with rfl | rfl | rfl <;> simp [perform, closeColumn, openColumn, Matcher.setTitle]
  cases a with
  | header =>
    exact bounds_take fun word _ => bounds_take fun name _ => (bounds_openReport hc word name).done none
  | close => exact hc.of_gauges rfl
  | column => exact (column (.inl rfl)).bounds env hc
  | columnId => exact (column (.inr (.inl rfl))).bounds env hc
  | columnTitle => exact (column (.inr (.inr rfl))).bounds env hc
  | sortPath | sortTree => exact Keeps.bounds (ReportAction.keeps_of_isReadOnly v rfl) env hc
  | _ =>
    rw [Bounds, perform, ends_bind]
    · refine (ReportAction.bounds_change trusted).weaken fun f d changed => ?_
      obtain ⟨rfl, keeps⟩ := changed
      exact (bounds_modifyReport hc keeps).done none
    all_goals simp

/-- Hours are put together from ranges in order, and from the hours that are there. -/
theorem Matcher.bounds_setWorkingHours (days : Calendar.DaySet) {ranges : List TimeRange}
    (new : ∀ r ∈ ranges, r.InOrder) : Bounds (setWorkingHours days ranges) env c := by
  rw [Bounds, ends_setWorkingHours]
  refine ⟨fun _ => ?_, fun kind i current p there q listed => ?_⟩
  · have settings : Bounds (modifySettings fun s =>
        { s with workingHours := s.workingHours.setAll days ranges }) env c :=
      bounds_modifySettings hc fun s hs => ⟨hs.granularity, hs.vacations, hs.workingHours.setAll days new⟩
    exact (ends_modifySettings _).mp settings
  · have own := hc.project p there
    have inOrder : (q.hours?.getD p.settings.workingHours).InOrder := by
      cases found : q.hours? with
      | none => exact own.settings.workingHours
      | some hours =>
        -- the hours that the resource has are those that have been set
        exact (own.properties kind) q (Array.mem_of_getElem? listed) "workinghours" _
          (.inl (Plan.AttributeTable.mem_of_get? (Plan.Property.hours?_eq_some_iff.mp found)))
    have store : Bounds (modifyProperty (·.set "workinghours"
        (.workingHours ((q.hours?.getD p.settings.workingHours).setAll days ranges)))) env c :=
      bounds_modifyProperty hc fun t q _ hq => hq.set (inOrder.setAll days new)
    exact (ends_modifyProperty _).mp store kind i current p there q listed

theorem Matcher.bounds_workingHours (hv : v.InOrder) : Bounds (workingHours v) env c :=
  (ends_workingHours v).mpr fun days _ => bounds_setWorkingHours hc days hv.timeRanges

theorem CalendarAction.bounds_perform {a : CalendarAction} (hv : v.InOrder) :
    Bounds (a.perform v) env c := by
  cases a with
  | workingHours => exact (bounds_workingHours hc hv).done none
  | _ => exact Keeps.bounds (CalendarAction.keeps_of_keepsProperties v rfl) env hc

/-! ## All actions -/

/-- An action leaves a project that is in range, over the same time, where the values of its pattern are in
order and what it trusts to be guarded is. -/
theorem Action.staysInRange_of_run {a : Action} (allows : c.Allows a) {shapes : List Shape} {s : Shape}
    (judged : a.gives? shapes = some s) (hv : v.InOrder)
    (trusted : ∀ i g, a.trusts? = some (i, g) → ∀ x, v.value? i = some x → x.Passes c.time? g)
    (names : ∀ id kind specific, a = .extend (.store id kind specific) → IsCapital id)
    {matchRule : RuleId → Matcher (Option Value)} {x : Option Value} {d : Context}
    (run : a.perform matchRule v env c = (.ok x, d)) : c.StaysInRange d := by
  have of_bounds (h : Bounds (a.perform matchRule v) env c) : c.StaysInRange d := h.of_ok run
  cases a with
  | value i | collect | pair i | nothing =>
    exact of_bounds (Keeps.bounds (Action.keeps_of_isReadOnly v (fun _ _ => rfl) rfl matchRule) env hc)
  | rule name => exact allows.not_rule.elim
  | includeFile i =>
    obtain ⟨-, path, tokens, journal, -, rfl, -⟩ := Action.eq_of_run_includeFile v run
    exact hc.of_gauges rfl
  | project a => exact of_bounds ((a.bounds_perform hc allows hv).done none)
  | scenario a => exact of_bounds ((a.keeps_gauges v).bounds env hc)
  | property a => exact of_bounds (a.bounds_perform hc hv trusted)
  | extend a =>
    exact of_bounds (a.bounds_perform hc trusted fun id kind specific same => names id kind specific (same ▸ rfl))
  | report a => exact of_bounds (a.bounds_perform hc trusted)
  | logical a => exact of_bounds ((a.keeps v fun _ _ => rfl).bounds env hc)
  | calendar a => exact of_bounds (a.bounds_perform hc hv)
  | _ => cases judged

omit hc

/-- A date that has been compared with the time of the project lies within it. -/
theorem Matcher.within_projectDate :
    Ends (fun day d => ∃ t, d.time? = some t ∧ t.contains day = true) (projectDate v) env c := by
  simp only [projectDate, ends_bind, ends_take, ends_project, ends_ite, ends_pure, ends_fail]
  intro day _ p there
  split
  · next within => exact ⟨p.interval, Context.time?_of_project there, within⟩
  · trivial

/-- So do both ends of an interval. -/
theorem Matcher.within_projectInterval :
    Ends (fun i d => ∃ t, d.time? = some t ∧ t.Covers i) (projectInterval v) env c := by
  simp only [projectInterval, ends_bind, ends_matchedInterval, ends_project, ends_ite, ends_pure, ends_fail]
  intro start _ stop _ i _ p there
  split
  · trivial
  · next starts =>
    split
    · trivial
    · next ends =>
      rw [not_or, Calendar.DateTime.not_lt, Calendar.DateTime.not_le] at starts
      rw [not_or, Calendar.DateTime.not_le, Calendar.DateTime.not_lt] at ends
      refine ⟨p.interval, Context.time?_of_project there, ?_, ?_⟩
      · exact Interval.contains_iff.mpr ⟨starts.1, Calendar.DateTime.le_of_lt starts.2⟩
      · exact Interval.contains_iff.mpr ⟨Calendar.DateTime.le_of_lt ends.1, ends.2⟩

/-- What an action guards its value for is so. -/
theorem Action.passes_of_run {a : Action} {g : Guard} (guards : a.guard? = some g)
    {matchRule : RuleId → Matcher (Option Value)} {x : Option Value} {d : Context}
    (run : a.perform matchRule v env c = (.ok x, d)) : ∀ y, x = some y → y.Passes d.time? g := by
  cases a with
  | calendar a =>
    cases a with
    | projectDate =>
      cases guards
      obtain ⟨day, e, made, given⟩ := exists_of_run_bind run
      cases given
      rintro _ ⟨⟩
      exact within_projectDate.of_ok made
    | projectInterval =>
      cases guards
      obtain ⟨i, e, made, given⟩ := exists_of_run_bind run
      cases given
      rintro _ ⟨⟩
      exact within_projectInterval.of_ok made
    | _ => cases guards
  | extend a =>
    cases a with
    | id =>
      cases guards
      obtain ⟨word, e, -, rest⟩ := exists_of_run_bind run
      obtain ⟨id, e, kept, given⟩ := exists_of_run_bind rest
      cases given
      rintro _ ⟨⟩
      unfold extensionId at kept
      split at kept
      · next capital =>
        cases kept
        exact capital
      · cases kept
    | _ => cases guards
  | _ => cases guards

end

end Planfile
