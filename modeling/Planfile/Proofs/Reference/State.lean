import Planfile.Proofs.Matching.Postcondition
import Planfile.Proofs.Reference.Value

/-!
# Planfile — references while a plan is read

While a plan is read, its project is intact at any time, the scenarios that the next statements are
meant for are there, and no more is forgotten than the one scenario that gives way to the first one that
is declared. Here this is kept by the steps of which actions are made.

Main results:

* `Matcher.upholds_modifyProperty`, `Matcher.upholds_modifyReport` and their like — the steps that change
  the project.
* `Matcher.upholds_openScenario` — scenarios are replaced by as many, or added.
-/

namespace Planfile

open Plan (Known PropertyKind AttributeValue)

namespace Context

/-- What can be referred to. -/
def known (c : Context) : Known := (c.project.map (·.known)).getD .nothing

theorem known_of_project {c : Context} {p : Plan.Project} (h : c.project = some p) : c.known = p.known := by
  rw [known, h]
  rfl

/-- Whether the project is intact, and so are the scenarios for which its statements are meant. -/
structure Intact (c : Context) : Prop where
  project : ∀ p, c.project = some p → p.Intact
  index : ∀ p, c.project = some p → c.scenarioIndex < p.scenarios.length
  around : ∀ p, c.project = some p → ∀ i, c.scenario = some i → i < p.scenarios.length
  single : ∀ p, c.project = some p → c.scenariosReplaced = false → p.scenarios.length = 1

/-- Whether a state behind another one is intact, and nothing has been forgotten. -/
structure StaysIntact (c d : Context) : Prop where
  intact : d.Intact
  within : c.known.Within d.known

/-- Before the first token there is nothing to refer to. -/
theorem intact_initial (tokens : TokenSource) (journal : Log.Journal) :
    (Context.initial tokens journal).Intact where
  project p hp := by cases hp
  index p hp := by cases hp
  around p hp := by cases hp
  single p hp := by cases hp

namespace StaysIntact

variable {c d e : Context}

theorem refl (h : c.Intact) : c.StaysIntact c := ⟨h, .refl _⟩

theorem trans (h : c.StaysIntact d) (hd : d.StaysIntact e) : c.StaysIntact e :=
  ⟨hd.intact, h.within.trans hd.within⟩

end StaysIntact

section
variable {c d : Context} {p q : Plan.Project} (h : c.Intact)

include h

/-- Tokens, bodies and what is added to the grammar are no references. -/
theorem Intact.of_same (project : d.project = c.project) (index : d.scenarioIndex = c.scenarioIndex)
    (around : d.scenario = c.scenario) (replaced : d.scenariosReplaced = c.scenariosReplaced) :
    c.StaysIntact d := by
  refine ⟨⟨fun p hp => ?_, fun p hp => ?_, fun p hp => ?_, fun p hp => ?_⟩, ?_⟩
  · exact h.project p (project ▸ hp)
  · exact index ▸ h.index p (project ▸ hp)
  · exact around ▸ h.around p (project ▸ hp)
  · exact replaced ▸ h.single p (project ▸ hp)
  · rw [known, known, project]
    exact .refl _

/-- A project that is intact takes the place of that of before, with as many scenarios. -/
theorem Intact.of_change (there : c.project = some p) (hd : d.project = some q) (hq : q.Intact)
    (le : p.known.Within q.known) (count : q.scenarios.length = p.scenarios.length)
    (index : d.scenarioIndex = c.scenarioIndex) (around : d.scenario = c.scenario)
    (replaced : d.scenariosReplaced = c.scenariosReplaced) : c.StaysIntact d := by
  have own {r : Plan.Project} (hr : d.project = some r) : q = r := Option.some.inj (hd.symm.trans hr)
  refine ⟨⟨fun r hr => own hr ▸ hq, fun r hr => ?_, fun r hr => ?_, fun r hr => ?_⟩, ?_⟩
  · rw [← own hr, index, count]
    exact h.index p there
  · rw [← own hr, around, count]
    exact h.around p there
  · rw [← own hr, replaced, count]
    exact h.single p there
  · rw [known_of_project there, known_of_project hd]
    exact le

/-- The first scenario is there. -/
theorem Intact.leave (project : d.project = c.project) (index : d.scenarioIndex = 0)
    (around : d.scenario = c.scenario) (replaced : d.scenariosReplaced = c.scenariosReplaced) :
    c.StaysIntact d := by
  refine ⟨⟨fun p hp => ?_, fun p hp => ?_, fun p hp => ?_, fun p hp => ?_⟩, ?_⟩
  · exact h.project p (project ▸ hp)
  · rw [index]
    exact (h.project p (project ▸ hp)).scenarios
  · exact around ▸ h.around p (project ▸ hp)
  · exact replaced ▸ h.single p (project ▸ hp)
  · rw [known, known, project]
    exact .refl _

end

end Context

namespace Matcher

/-- Whether a computation leaves a state that is intact, and gives what is asked of it there. -/
def Upholds (ask : Known → α → Prop) (m : Matcher α) (env : Surroundings) (c : Context) : Prop :=
  Ends (fun a d => c.StaysIntact d ∧ ask d.known a) m env c

section
variable {ask : Known → α → Prop} {m : Matcher α} {env : Surroundings} {c : Context}

theorem Upholds.bind {ask' : Known → β → Prop} {f : α → Matcher β} (hm : Upholds ask m env c)
    (hf : ∀ a d, c.StaysIntact d → ask d.known a → Upholds ask' (f a) env d) :
    Upholds ask' (m >>= f) env c := by
  rw [Upholds, ends_bind]
  refine hm.weaken fun a d ⟨stays, ha⟩ => ?_
  exact (hf a d stays ha).weaken fun b e ⟨behind, hb⟩ => ⟨stays.trans behind, hb⟩

/-- What is not asked for anything is followed by what is. -/
theorem Upholds.andThen {ask' : Known → β → Prop} {f : α → Matcher β}
    (hm : Upholds (fun _ _ => True) m env c)
    (hf : ∀ a d, c.StaysIntact d → Upholds ask' (f a) env d) : Upholds ask' (m >>= f) env c :=
  hm.bind fun a d stays _ => hf a d stays

/-- A value that serves what is asked changes nothing. -/
theorem upholds_pure (hc : c.Intact) {a : α} (h : ask c.known a) : Upholds ask (pure a) env c :=
  ⟨.refl hc, h⟩

variable {ask' : Known → β → Prop} {f : α → Matcher β}

theorem upholds_take {v : Values} {a : Except GrammarError α}
    (h : ∀ x, a = .ok x → Upholds ask' (f x) env c) : Upholds ask' (take v a >>= f) env c := by
  rw [Upholds, ends_bind, ends_take]
  exact h

theorem upholds_orFail {a : Option α} {fault : SemanticFault}
    (h : ∀ x, a = some x → Upholds ask' (f x) env c) : Upholds ask' (orFail a fault >>= f) env c := by
  rw [Upholds, ends_bind, ends_orFail]
  exact h

theorem upholds_project {f : Plan.Project → Matcher β}
    (h : ∀ p, c.project = some p → Upholds ask' (f p) env c) : Upholds ask' (project >>= f) env c := by
  rw [Upholds, ends_bind, ends_project]
  exact h

theorem upholds_get {f : Context → Matcher β} (h : Upholds ask' (f c) env c) :
    Upholds ask' (get >>= f) env c := by
  rw [Upholds, ends_bind, ends_get]
  exact h

/-- What is objected to asks for nothing. -/
theorem upholds_fail (fault : SemanticFault) : Upholds ask (fail fault : Matcher α) env c := by
  rw [Upholds, ends_fail]
  trivial

theorem upholds_fail_bind (fault : SemanticFault) (f : α → Matcher β) :
    Upholds ask' (fail fault >>= f) env c := by
  rw [Upholds, ends_bind, ends_fail]
  trivial

end

/-! ## Changing the project -/

section
variable {env : Surroundings} {c : Context} (hc : c.Intact)

include hc

/-- Settings that keep the flags. -/
theorem upholds_modifySettings {f : Plan.Settings → Plan.Settings} (flags : ∀ s, s.flags ⊆ (f s).flags) :
    Upholds (fun _ _ => True) (modifySettings f) env c := by
  rw [Upholds, ends_modifySettings]
  intro p there
  exact ⟨hc.of_change there rfl ((hc.project p there).modifySettings (flags _))
    (Plan.Project.within_modifySettings (flags _)) rfl rfl rfl rfl, trivial⟩

/-- The current task or resource gets values that are intact. -/
theorem upholds_modifyProperty {f : Plan.Property → Plan.Property} (hf : ∀ q, (f q).heading = q.heading)
    (intact : ∀ q, q.Intact c.known → (f q).Intact c.known) :
    Upholds (fun _ _ => True) (modifyProperty f) env c := by
  rw [Upholds, ends_modifyProperty]
  intro kind i _ p there q _
  have ids : (p.properties kind).ids ⊆ ((p.properties kind).modify i f).ids := by
    rw [Plan.PropertySet.ids_eq, Plan.PropertySet.ids_eq, Plan.PropertySet.entryTable_modify hf]
    exact List.Subset.refl _
  have own := hc.project p there
  rw [Context.known_of_project there] at intact
  have same (q : Plan.Property) : (f q).id = q.id := congrArg Heading.id (hf q)
  refine ⟨hc.of_change there rfl (own.setProperties ids ((own.properties kind).modify same intact))
    (Plan.Project.within_setProperties ids) ?_ rfl rfl rfl, trivial⟩
  cases kind <;> rfl

/-- A value that is intact is set in the scenario that is meant, which is there. -/
theorem upholds_setScenarioAttribute (id : String) {value : AttributeValue}
    (hv : value.Intact c.known) : Upholds (fun _ _ => True) (setScenarioAttribute id value) env c := by
  rw [Upholds, ends_setScenarioAttribute]
  cases there : c.project with
  | none =>
    rw [ends_modifyProperty]
    intro _ _ _ p hp
    cases there.symm.trans hp
  | some p =>
    refine upholds_modifyProperty hc (fun q => q.heading_setScenario _ _ _) fun q hq => ?_
    refine hq.setScenario ?_ hv
    rw [Context.known_of_project there]
    exact hc.index p there

/-- The current report gets values that are intact. -/
theorem upholds_modifyReport {f : Plan.ReportElement → Plan.ReportElement}
    (intact : ∀ e, e.Intact c.known → (f e).Intact c.known) :
    Upholds (fun _ _ => True) (modifyReport f) env c := by
  rw [Upholds, ends_modifyReport]
  intro i _ p there r _
  have own := hc.project p there
  rw [Context.known_of_project there] at intact
  refine ⟨hc.of_change there rfl (own.withReports fun r hr => ?_) (.refl _) rfl rfl rfl rfl, trivial⟩
  obtain ⟨j, found⟩ := List.mem_iff_getElem?.mp hr
  rw [List.getElem?_modify] at found
  -- it is the report that has been changed, or another one
  obtain ⟨old, before, rfl⟩ := Option.map_eq_some_iff.mp found
  have mem := own.reports old (List.mem_of_getElem? before)
  split
  · exact intact _ mem
  · exact mem

/-- The tasks or the resources are replaced by more of them. -/
theorem stays_setProperties {p : Plan.Project} (there : c.project = some p) {kind : PropertyKind}
    {s : Plan.PropertySet} (ids : (p.properties kind).ids ⊆ s.ids) (hs : s.Intact p.known)
    {d : Context} (hd : d.project = some (p.setProperties kind s))
    (index : d.scenarioIndex = c.scenarioIndex) (around : d.scenario = c.scenario)
    (replaced : d.scenariosReplaced = c.scenariosReplaced) : c.StaysIntact d := by
  refine hc.of_change there hd ((hc.project p there).setProperties ids hs)
    (Plan.Project.within_setProperties ids) ?_ index around replaced
  cases kind <;> rfl

/-- A task or a resource is added, and what it inherits is intact. -/
theorem upholds_openProperty (kind : PropertyKind) (id name : String) :
    Upholds (fun _ _ => True) (openProperty kind id name) env c := by
  rw [Upholds, ends_openProperty]
  intro p there grown added
  exact ⟨stays_setProperties hc there (Plan.PropertySet.ids_subset_of_add? added _)
    (((hc.project p there).properties kind).add? added _) rfl rfl rfl rfl, trivial⟩

/-- An entry of the schema is no reference. -/
theorem upholds_defineAttribute (kind : PropertyKind) (definition : Plan.AttributeDefinition) :
    Upholds (fun _ _ => True) (defineAttribute kind definition) env c := by
  rw [Upholds, ends_defineAttribute]
  intro p there set defined
  have intact := ((hc.project p there).properties kind).define? defined
  refine ⟨stays_setProperties hc there ?_ intact rfl rfl rfl rfl, trivial⟩
  obtain ⟨-, rfl⟩ := Plan.PropertySet.definitions_of_define? defined
  exact List.Subset.refl _

/-! ## Scenarios -/

/-- The scenario that a project starts with gives way to the first one that is declared, and any other
one comes behind those that are there. -/
theorem upholds_openScenario (v : Values) : Upholds (fun _ _ => True) (openScenario v) env c := by
  rw [Upholds, openScenario]
  simp only [ends_bind, ends_get, ends_project, ends_modify, ends_take]
  intro p there id _ name _
  -- what may be cleared is one scenario, so one more is at least as many as before
  have cleared : ∃ scenarios, (if (c.scenario.isNone && !c.scenariosReplaced) = true then p.clearScenarios
      else p) = { p with scenarios } ∧ scenarios ⊆ p.scenarios ∧
        p.scenarios.length ≤ scenarios.length + 1 := by
    split
    · next first =>
      obtain ⟨-, unreplaced⟩ := Bool.and_eq_true_iff.mp first
      have one := hc.single p there (by simpa using unreplaced)
      exact ⟨[], rfl, List.nil_subset _, Nat.le_of_eq one⟩
    · exact ⟨p.scenarios, rfl, List.Subset.refl _, Nat.le_succ _⟩
  obtain ⟨scenarios, same, kept, enough⟩ := cleared
  rw [same]
  generalize declared : Plan.Scenario.declared id name c.scenario = new
  have below : new.parent = c.scenario := by rw [← declared]; rfl
  cases added : ({ p with scenarios } : Plan.Project).addScenario new with
  | error e => simp
  | ok grown =>
    obtain rfl : { p with scenarios := scenarios ++ [new] } = grown := by
      unfold Plan.Project.addScenario at added
      split at added <;> cases added
      rfl
    have more : p.scenarios.length ≤ (scenarios ++ [new]).length := by
      rw [List.length_append, List.length_singleton]
      exact enough
    have parents : ∀ s ∈ scenarios ++ [new], ∀ i, s.parent = some i →
        i < (scenarios ++ [new]).length := by
      intro s hs i hi
      refine Nat.lt_of_lt_of_le ?_ more
      rcases List.mem_append.mp hs with old | last
      · exact (hc.project p there).parents s (kept old) i hi
      · rw [List.mem_singleton.mp last, below] at hi
        exact hc.around p there i hi
    refine ⟨⟨⟨fun q hq => ?_, fun q hq => ?_, fun q hq i hi => ?_, fun q hq replaced => ?_⟩, ?_⟩, trivial⟩
    · cases hq
      exact (hc.project p there).withScenarios more parents
    · cases hq
      exact Nat.lt_of_lt_of_le (hc.index p there) more
    · cases hq
      cases hi
      rw [List.length_append]
      exact Nat.lt_succ_self _
    · cases replaced
    · rw [Context.known_of_project there, Context.known_of_project rfl]
      exact Plan.Project.within_withScenarios more

/-- Behind the body of a scenario comes the body of the one around, which is there. -/
theorem upholds_closeScenario : Upholds (fun _ _ => True) closeScenario env c := by
  refine ⟨⟨⟨hc.project, hc.index, fun p there i hi => ?_, hc.single⟩, .refl _⟩, trivial⟩
  have there : c.project = some p := there
  dsimp only at hi
  obtain ⟨s, current, parent⟩ := Option.bind_eq_some_iff.mp hi
  rw [there] at current
  obtain ⟨index, -, found⟩ : ∃ index, c.scenario = some index ∧ p.scenario? index = some s :=
    Option.bind_eq_some_iff.mp current
  exact (hc.project p there).parents s (List.mem_of_getElem? found) i parent

/-- Scenarios that are enabled or disabled are as many, below those of before. -/
theorem upholds_enableScenario (enabled : Bool) :
    Upholds (fun _ _ => True) (enableScenario enabled) env c := by
  rw [Upholds, enableScenario]
  simp only [ends_bind, ends_get, ends_orFail, ends_modify]
  intro index _ p there _ _
  have count : (p.scenarios.modify index ({ · with enabled })).length = p.scenarios.length :=
    List.length_modify _ _ _
  refine ⟨hc.of_change there rfl ((hc.project p there).withScenarios (Nat.le_of_eq count.symm) ?_)
    (Plan.Project.within_withScenarios (Nat.le_of_eq count.symm)) count rfl rfl rfl, trivial⟩
  intro s hs i hi
  rw [count]
  obtain ⟨j, found⟩ := List.mem_iff_getElem?.mp hs
  rw [List.getElem?_modify] at found
  obtain ⟨old, before, rfl⟩ := Option.map_eq_some_iff.mp found
  refine (hc.project p there).parents old (List.mem_of_getElem? before) i ?_
  split at hi <;> exact hi

/-- A scenario that is found by its id is there. -/
theorem upholds_scenarioIndex (id : String) :
    Upholds (fun k i => i < k.scenarios) (scenarioIndex id) env c := by
  rw [Upholds, scenarioIndex]
  simp only [ends_bind, ends_project, ends_orFail]
  intro p there i found
  refine ⟨.refl hc, ?_⟩
  rw [Context.known_of_project there]
  exact Plan.Project.lt_of_scenarioIndex? found

end

end Matcher

end Planfile
