import Planfile.Proofs.Course.Tree
import Planfile.Proofs.Reference.State

/-!
# Planfile — actions keep references

Each action looks up what it is given by name, or takes it from a value that serves, and stores nothing
else. So it leaves a state that is intact, and what it gives serves in the role of its rule.

Main results:

* `Action.upholds_perform` — every action keeps references, where it gets names for what it takes for
  names.
-/

namespace Planfile

open Matcher
open Plan (Known PropertyKind AttributeValue)

/-! ## Roles -/

/-- The role of what an action gives, where those of its symbols are known. -/
def Action.role? (roles : Nat → Option Role) : Action → Option Role
  | .value i => roles i
  | .collect => if roles 0 = roles 1 then roles 0 else none
  | .logical .flag => some .flag
  | .property .resourceId => some .resource
  | _ => none

/-- The symbol that an action takes for names, and for which. -/
def Action.naming? : Action → Option (Nat × Role)
  | .property .flags => some (1, .flag)
  | .property .allocation => some (0, .resource)
  | .property .alternatives => some (1, .resource)
  | _ => none

/-! ## Values that are stored -/

namespace Plan

/-- Adding flags keeps those of before. -/
theorem subset_withFlags (known added : List String) : known ⊆ withFlags known added := by
  unfold withFlags
  refine List.foldlRecOn added _ (List.Subset.refl known) fun flags h flag _ => ?_
  split
  · exact h
  · exact List.Subset.trans h (List.subset_append_left _ _)

/-- Adding flags adds no others. -/
theorem withFlags_subset {known added flags : List String} (hk : known ⊆ flags) (ha : added ⊆ flags) :
    withFlags known added ⊆ flags := by
  unfold withFlags
  refine List.foldlRecOn (motive := (· ⊆ flags)) added _ hk fun grown h flag mem => ?_
  split
  · exact h
  · exact List.append_subset.mpr ⟨h, List.cons_subset.mpr ⟨ha mem, List.nil_subset _⟩⟩

/-- Where something is found by its id, the id is there. -/
theorem PropertySet.Indexed.mem_ids {s : PropertySet} (h : s.Indexed) {id : String}
    (found : (s.byId? id).isSome) : id ∈ s.ids := by
  obtain ⟨q, found⟩ := Option.isSome_iff_exists.mp found
  obtain ⟨i, listed, -⟩ := Option.bind_eq_some_iff.mp found
  obtain ⟨p, mem, same⟩ := (h.exists_indexOf?_iff id).mp ⟨i, listed⟩
  exact List.mem_map.mpr ⟨p, mem.val, same⟩

end Plan

/-- What is found in the current scenario is intact. -/
theorem Context.Intact.stored {c : Context} (hc : c.Intact) {id : String} {value : AttributeValue}
    (h : c.scenarioAttribute? id = some value) : value.Intact c.known := by
  obtain ⟨q, current, there⟩ := Option.bind_eq_some_iff.mp h
  obtain ⟨⟨kind, i⟩, -, inside⟩ := Option.bind_eq_some_iff.mp current
  obtain ⟨p, project, found⟩ := Option.bind_eq_some_iff.mp inside
  obtain ⟨t, table, value⟩ := Option.bind_eq_some_iff.mp there
  rw [Context.known_of_project project]
  have own := ((hc.project p project).properties kind).entries q (Array.mem_of_getElem? found)
  exact own.values id _
    (.inr ⟨t, List.mem_of_getElem? table, Plan.AttributeTable.mem_of_get? value⟩)

/-- Attributes of an allocation keep it intact. -/
theorem intact_allocationOf {k : Known} {resource : String} {attributes : List Value}
    (known : resource ∈ k.resources) (h : ∀ x ∈ attributes, x.Intact k) :
    (allocationOf resource attributes).Intact k := by
  have alone : (⟨[resource], .minLoaded, false, false⟩ : Plan.Allocation).Intact k :=
    ⟨List.cons_ne_nil _ _, List.cons_subset.mpr ⟨known, List.nil_subset _⟩⟩
  refine List.foldlRecOn attributes _ alone fun a ha x mem => ?_
  have intact := h x mem
  unfold allocationWith
  split
  · -- the alternatives are resources as well
    next alternatives =>
    exact ⟨List.append_ne_nil_of_left_ne_nil ha.some _,
      List.append_subset.mpr ⟨ha.known, intact.2 rfl⟩⟩
  · exact ⟨ha.some, ha.known⟩
  · exact ⟨ha.some, ha.known⟩
  · exact ⟨ha.some, ha.known⟩
  · exact ha

/-- Values of attributes that a plan adds refer to nothing. -/
theorem intact_extensionValue {k : Known} {kind : Plan.AttributeKind} {v : Values}
    {value : AttributeValue} (h : extensionValue kind v = .ok value) : value.Intact k := by
  unfold extensionValue at h
  split at h
  · cases given : v.date 1 <;> rw [given] at h <;> cases h
    trivial
  · cases given : v.string 1 <;> rw [given] at h <;> cases h
    trivial
  · cases given : v.string 1 <;> rw [given] at h <;> cases h
    trivial

/-! ## Groups of actions -/

section
variable {env : Surroundings} {c : Context} {role : Option Role}

/-- What only changes the state gives no value. -/
theorem Matcher.Upholds.done {m : Matcher α} (h : Upholds (fun _ _ => True) m env c) :
    Upholds (fun k x => Value.Serves k role x) (do let _ ← m; return none) env c :=
  h.bind fun _ _ stays _ => upholds_pure stays.intact Value.serves_none

theorem Matcher.upholds_give (hc : c.Intact) {x : Value} (h : x.Intact c.known) :
    Upholds (fun k x => Value.Serves k none x) (pure (some x)) env c :=
  upholds_pure hc (Value.serves_of_intact h)

variable {v : Values} {roles : Nat → Option Role} (hc : c.Intact)

include hc

theorem ProjectAction.upholds_perform {a : ProjectAction} (h : c.Allows (.project a)) :
    Upholds (fun _ _ => True) (a.perform v) env c := by
  have same {f : Plan.Settings → Plan.Settings} (hf : ∀ s, (f s).flags = s.flags) :
      Upholds (fun _ _ => True) (modifySettings f) env c :=
    upholds_modifySettings hc fun s => hf s ▸ List.Subset.refl _
  cases a with
  | header =>
    have unstarted := h.unstarted
    refine upholds_take fun id _ => upholds_take fun name _ => upholds_take fun version _ =>
      upholds_take fun time _ => ?_
    -- a project that starts refers to nothing, and in front of it nothing is known
    refine ⟨⟨⟨fun p hp => ?_, fun p hp => ?_, fun p hp i hi => ?_, fun p hp _ => ?_⟩, ?_⟩,
      trivial⟩
    · cases hp
      exact Plan.Project.intact_initial _ _ _ _
    · cases hp
      exact Nat.one_pos
    · cases hi
    · cases hp
      rfl
    · rw [Context.known, unstarted]
      exact Known.nothing_within _
  | copyright | currency | dailyWorkingHours | yearlyWorkingDays | now | timeFormat | shortTimeFormat
  | timezone => exact upholds_take fun _ _ => same fun _ => rfl
  | currencyFormat | numberFormat =>
    refine Upholds.andThen ?_ fun format d stays => ?_
    · unfold realFormat
      refine upholds_take fun _ _ => upholds_orFail fun _ _ => upholds_take fun _ _ => ?_
      refine upholds_take fun _ _ => upholds_take fun _ _ => upholds_take fun _ _ => ?_
      exact upholds_pure hc trivial
    · exact upholds_modifySettings stays.intact fun s => List.Subset.refl _
  | timingResolution =>
    refine upholds_take fun seconds _ => ?_
    split
    · exact upholds_fail _
    · split
      · exact upholds_fail _
      · exact same fun _ => rfl
  | weekStartsMonday monday | vacation => exact same fun _ => rfl
  | declareFlags => exact upholds_modifySettings hc fun s => Plan.subset_withFlags _ _

theorem ScenarioAction.upholds_perform (a : ScenarioAction) :
    Upholds (fun k x => Value.Serves k none x) (a.perform v) env c := by
  cases a with
  | header => exact (upholds_openScenario hc v).done
  | close => exact (upholds_closeScenario hc).done
  | enable enabled => exact (upholds_enableScenario hc enabled).done
  | select =>
    refine upholds_take fun id _ => (upholds_scenarioIndex hc id).bind fun i d stays known => ?_
    -- the scenario that is meant next has been found
    refine ⟨⟨⟨stays.intact.project, fun p there => ?_, stays.intact.around, stays.intact.single⟩,
      .refl _⟩, Value.serves_none⟩
    rwa [Context.known_of_project (c := d) there] at known
  | index =>
    refine upholds_take fun id _ => (upholds_scenarioIndex hc id).bind fun i d stays _ => ?_
    exact upholds_give stays.intact trivial

/-- Flags that are declared are added, each once. -/
theorem Matcher.upholds_addFlags {added : List String} (h : added ⊆ c.known.flags) :
    Upholds (fun _ _ => True) (addFlags added) env c := by
  refine upholds_get ?_
  have old : ∀ names, c.scenarioAttribute? "flags" = some (.flags names) →
      (AttributeValue.flags names).Intact c.known := fun _ found => hc.stored found
  dsimp only
  refine upholds_setScenarioAttribute hc _ ?_
  split
  · next names found =>
    obtain ⟨once, declared⟩ := old names found
    exact ⟨Plan.nodup_withFlags once _, Plan.withFlags_subset declared h⟩
  · exact ⟨Plan.nodup_withFlags List.nodup_nil _, Plan.withFlags_subset (List.nil_subset _) h⟩

theorem Matcher.upholds_addAllocations {added : List Plan.Allocation}
    (h : ∀ a ∈ added, a.Intact c.known) : Upholds (fun _ _ => True) (addAllocations added) env c := by
  refine upholds_get ?_
  dsimp only
  refine upholds_setScenarioAttribute hc _ fun a ha => ?_
  rcases List.mem_append.mp ha with old | new
  · split at old
    · next known found => exact hc.stored found a old
    · cases old
  · exact h a new

theorem Matcher.upholds_knownResource (id : String) :
    Upholds (fun k id => id ∈ k.resources) (knownResource id) env c := by
  rw [Upholds, ends_knownResource]
  intro p there found
  rw [Context.known_of_project there]
  exact ⟨.refl hc, ((hc.project p there).properties .resource).indexed.mem_ids found⟩

theorem PropertyAction.upholds_perform {a : PropertyAction} (hv : v.Serve c.known roles)
    (names : ∀ i r, (Action.property a).naming? = some (i, r) → roles i = some r) :
    Upholds (fun k x => Value.Serves k ((Action.property a).role? roles) x) (a.perform v) env c := by
  have set (id : String) {value : AttributeValue} (hv : value.Intact c.known) :
      Upholds (fun _ _ => True) (setScenarioAttribute id value) env c :=
    upholds_setScenarioAttribute hc id hv
  cases a with
  | header kind =>
    refine upholds_take fun id _ => upholds_take fun name _ => ?_
    refine (upholds_openProperty hc kind id name).bind fun _ d stays _ => ?_
    exact ⟨stays.intact.leave rfl rfl rfl rfl, Value.serves_none⟩
  | close => exact ⟨hc.of_same rfl rfl rfl rfl, Value.serves_none⟩
  | leaveScenario => exact ⟨hc.leave rfl rfl rfl rfl, Value.serves_none⟩
  | allocate => exact (upholds_addAllocations hc hv.allocations).done
  | depends => exact (set _ (by trivial)).done
  | ticks id => exact upholds_take fun _ _ => (set _ (by trivial)).done
  | start | stop =>
    refine upholds_take fun date _ => (set _ (by trivial)).bind fun _ d stays _ => ?_
    exact (upholds_setScenarioAttribute stays.intact _ (by trivial)).done
  | priority =>
    refine upholds_take fun priority _ => ?_
    dsimp only
    split
    · exact upholds_fail_bind _ _
    · exact (set _ (by trivial)).done
  | flags => exact (upholds_addFlags hc (hv.names (names 1 .flag rfl))).done
  | vacation => exact (upholds_get (set _ (by trivial))).done
  | relativeId =>
    refine upholds_take fun id _ => Upholds.andThen ?_ fun id d stays => ?_
    · refine upholds_project fun p _ => upholds_get ?_
      rw [Upholds, ends_orFail]
      exact fun _ _ => ⟨.refl hc, trivial⟩
    · exact upholds_give stays.intact trivial
  | resourceId =>
    refine upholds_take fun id _ => (upholds_knownResource hc id).bind fun id d stays known => ?_
    refine upholds_pure stays.intact fun x same => ?_
    cases same
    refine ⟨trivial, fun r hr => ?_⟩
    cases hr
    -- the id has just been looked up
    exact List.cons_subset.mpr ⟨known, List.nil_subset _⟩
  | allocation =>
    -- what stands for a resource in the pattern has the role of one, so it is known
    refine upholds_take fun resource taken => upholds_give hc ?_
    exact intact_allocationOf (hv.name (names 0 .resource rfl) taken) hv.list
  | alternatives =>
    refine upholds_give hc ⟨Value.intact_list.mpr hv.list, fun _ => ?_⟩
    exact hv.names (names 1 .resource rfl)
  | selectMode =>
    refine upholds_take fun word _ => ?_
    split
    · exact upholds_give hc ⟨trivial, fun word => absurd (Value.str.inj word) (by decide)⟩
    · exact upholds_fail _

/-! ## Attributes that a plan adds -/

/-- An attribute that is added to the language is no reference. -/
theorem Matcher.upholds_applyExtension (e : AttributeExtension) :
    Upholds (fun _ _ => True) (applyExtension e) env c := by
  simp only [Upholds, applyExtension, ends_bind, ends_get, ends_orFail, ends_live, ends_sound]
  intro target _ taken _
  -- a keyword that is taken is objected to
  cases taken with
  | true => simp
  | false =>
    simp only [Bool.false_eq_true, if_false, ends_bind]
    refine (upholds_defineAttribute hc target.kind e.definition).weaken fun _ d kept => ?_
    obtain ⟨stays, -⟩ := kept
    simp only [ends_read, ends_sound, ends_bind, ends_modify, ends_ite, ends_report, ends_pure]
    intro symbols _
    have behind := stays.trans (stays.intact.of_same (d := { d with
      extensions := d.extensions ++ [((if e.scenarioSpecific = true then target.scenarioRule
        else target.rule), ⟨symbols, some e.action⟩)] }) rfl rfl rfl rfl)
    split
    · exact ⟨behind.trans (behind.intact.of_same rfl rfl rfl rfl), trivial⟩
    · exact ⟨behind, trivial⟩

theorem Matcher.upholds_chooseTarget (word : String) :
    Upholds (fun _ _ => True) (chooseTarget word) env c := by
  simp only [Upholds, chooseTarget, ends_bind, ends_ite, ends_ruleId, ends_pure, ends_fail, ends_modify]
  have chosen (target : Option ExtendTarget) : c.StaysIntact { c with extendTarget := target } :=
    hc.of_same rfl rfl rfl rfl
  split
  · exact fun _ _ _ _ => ⟨chosen _, trivial⟩
  · split
    · exact fun _ _ _ _ => ⟨chosen _, trivial⟩
    · trivial

theorem ExtendAction.upholds_perform (a : ExtendAction) :
    Upholds (fun k x => Value.Serves k none x) (a.perform v) env c := by
  cases a with
  | target => exact upholds_take fun word _ => (upholds_chooseTarget hc word).done
  | close => exact ⟨hc.of_same rfl rfl rfl rfl, Value.serves_none⟩
  | declare kind =>
    refine Upholds.done ?_
    exact upholds_take fun id _ => upholds_take fun name _ => upholds_applyExtension hc _
  | id =>
    refine upholds_take fun id _ => Upholds.andThen ?_ fun id d stays => ?_
    · unfold extensionId
      split
      · exact upholds_pure hc trivial
      · exact upholds_fail _
    · exact upholds_give stays.intact trivial
  | store name kind specific =>
    refine upholds_take fun value given => ?_
    split
    · exact (upholds_setScenarioAttribute hc name (intact_extensionValue given)).done
    · refine (upholds_modifyProperty hc (fun q => q.heading_set _ _) fun q hq => ?_).done
      exact hq.set (intact_extensionValue given)

/-! ## Reports -/

theorem Matcher.upholds_openReport (word name : String) :
    Upholds (fun _ _ => True) (openReport word name) env c := by
  refine upholds_orFail fun kind _ => upholds_project fun p there => ?_
  have own := hc.project p there
  refine ⟨hc.of_change there rfl (own.withReports fun r hr => ?_) (.refl _) rfl rfl rfl rfl, trivial⟩
  rcases List.mem_append.mp hr with old | new
  · exact own.reports r old
  · rw [List.mem_singleton.mp new]
    exact own.element_over _ _

/-- What rows are ordered by is looked up. -/
theorem Matcher.upholds_sortCriterion (id : String) :
    Upholds (fun k s => s.Intact k) (sortCriterion id) env c := by
  have direction (word : String) : Upholds (fun _ _ => True) (sortDirection word) env c := by
    unfold sortDirection
    split
    · exact upholds_pure hc trivial
    · split
      · exact upholds_pure hc trivial
      · exact upholds_fail _
  unfold sortCriterion
  split
  · refine (direction _).bind fun ascending d stays _ => upholds_pure stays.intact fun i hi => ?_
    cases hi
  · refine upholds_project fun p there => upholds_orFail fun index found => ?_
    refine (direction _).bind fun ascending d stays _ => upholds_pure stays.intact fun i hi => ?_
    cases hi
    -- the scenario has been found among those of the project
    refine Nat.lt_of_lt_of_le ?_ stays.within.scenarios
    rw [Context.known_of_project there]
    exact Plan.Project.lt_of_scenarioIndex? found
  · exact upholds_fail _

/-- Those of some scenarios that are enabled are there. -/
theorem Matcher.upholds_enabledScenarios (items : List Value) :
    Upholds (fun k items => ∀ i ∈ items, i < k.scenarios) (enabledScenarios items) env c := by
  refine upholds_project fun p there => upholds_pure hc fun i hi => ?_
  rw [Context.known_of_project there]
  obtain ⟨x, -, kept⟩ := List.mem_filterMap.mp hi
  split at kept
  · split at kept
    · next enabled =>
      cases kept
      obtain ⟨s, found, -⟩ := (Option.any_eq_true _ _).mp enabled
      exact (List.getElem?_eq_some_iff.mp found).1
    · cases kept
  · cases kept

/-- What a statement changes in a report is intact where the report was. -/
theorem ReportAction.upholds_change (hv : v.Serve c.known roles) (a : ReportAction) :
    Upholds (fun k f => ∀ e, e.Intact k → (f e).Intact k) (a.change v) env c := by
  cases a with
  | hideResource =>
    refine upholds_take fun filter taken => upholds_pure hc fun e he => ?_
    exact { he with hideResource := fun f hf => by cases hf; exact hv.expression taken }
  | hideTask =>
    refine upholds_take fun filter taken => upholds_pure hc fun e he => ?_
    exact { he with hideTask := fun f hf => by cases hf; exact hv.expression taken }
  | rollupTask =>
    refine upholds_take fun filter taken => upholds_pure hc fun e he => ?_
    exact { he with rollupTask := fun f hf => by cases hf; exact hv.expression taken }
  | scenarios =>
    refine (upholds_enabledScenarios hc _).bind fun items d stays known => ?_
    exact upholds_pure stays.intact fun e he => { he with scenarios := known }
  | sortResources => exact upholds_pure hc fun e he => { he with sortResources := hv.sortCriteria }
  | sortTasks => exact upholds_pure hc fun e he => { he with sortTasks := hv.sortCriteria }
  | taskRoot =>
    refine upholds_take fun id _ => ?_
    rw [Upholds, ends_bind, ends_knownTask]
    intro p there found
    have known : id ∈ c.known.tasks := by
      rw [Context.known_of_project there]
      exact ((hc.project p there).properties .task).indexed.mem_ids found
    refine ⟨.refl hc, fun e he => ?_⟩
    exact { he with taskRoot := fun root hroot => by cases hroot; exact known }
  | columns => exact upholds_pure hc fun e he => ⟨he.1, he.2, he.3, he.4, he.5, he.6, he.7⟩
  | headline | period | start | stop | timeFormat =>
    exact upholds_take fun _ _ =>
      upholds_pure hc fun e he => ⟨he.1, he.2, he.3, he.4, he.5, he.6, he.7⟩
  | _ => exact upholds_pure hc fun e he => he

theorem ReportAction.upholds_perform (hv : v.Serve c.known roles) (a : ReportAction) :
    Upholds (fun k x => Value.Serves k none x) (a.perform v) env c := by
  have column (column : Option Plan.Column) : c.StaysIntact { c with column := column } :=
    hc.of_same rfl rfl rfl rfl
  cases a with
  | header =>
    exact upholds_take fun word _ => upholds_take fun name _ => (upholds_openReport hc word name).done
  | close => exact ⟨hc.of_same rfl rfl rfl rfl, Value.serves_none⟩
  | column =>
    refine ⟨column none, ?_⟩
    cases c.column with
    | none => exact Value.serves_none
    | some given => exact Value.serves_of_intact trivial
  | columnId =>
    refine upholds_take fun id _ => Upholds.done ?_
    simp only [Upholds, openColumn, ends_bind, ends_reportElement, ends_orFail, ends_modify]
    exact fun _ _ _ _ _ _ title _ => ⟨column _, trivial⟩
  | columnTitle =>
    refine upholds_take fun title _ => Upholds.done ?_
    simp only [Upholds, Matcher.setTitle, ends_bind, ends_get, ends_orFail, ends_modify]
    exact fun _ _ => ⟨column _, trivial⟩
  | sortPath =>
    refine upholds_take fun id _ => (upholds_sortCriterion hc id).bind fun s d stays intact => ?_
    exact upholds_give stays.intact intact
  | sortTree =>
    refine upholds_take fun word _ => ?_
    split
    · exact upholds_give hc fun i hi => by cases hi
    · exact upholds_fail _
  | _ =>
    refine (upholds_change hc hv _).bind fun f d stays intact => ?_
    exact (upholds_modifyReport stays.intact intact).done

/-! ## Logical expressions -/

theorem Matcher.upholds_declaredFlag (id : String) :
    Upholds (fun k id => id ∈ k.flags) (declaredFlag id) env c := by
  refine upholds_project fun p there => ?_
  split
  · next declared =>
    refine upholds_pure hc ?_
    rw [Context.known_of_project there]
    exact List.contains_iff_mem.mp declared
  · exact upholds_fail _

theorem Matcher.upholds_attributeOperand (id : String) :
    Upholds (fun k a => a.Intact k) (attributeOperand id) env c := by
  unfold attributeOperand
  split
  · refine upholds_project fun p there => upholds_orFail fun index found => upholds_pure hc ?_
    rw [Context.known_of_project there]
    exact Plan.Project.lt_of_scenarioIndex? found
  · exact upholds_fail _

/-- The operands of an operation are those of its parts. -/
theorem Matcher.upholds_operationOf {left : Plan.Operand} (hl : left.Intact c.known)
    {chain : Option Value} (h : Value.Serves c.known role chain) :
    Upholds (fun k o => o.Intact k) (operationOf left chain) env c := by
  unfold operationOf
  split
  · next operator right =>
    have behind := (h _ rfl).1.1
    refine Upholds.andThen ?_ fun operator d stays => ?_
    · unfold operatorOf
      split
      · rw [Upholds, ends_orFail]
        exact fun _ _ => ⟨.refl hc, trivial⟩
      · exact upholds_fail _
    · split
      · exact upholds_pure stays.intact
          ⟨Plan.Operand.Intact.mono stays.within hl, Plan.Operand.Intact.mono stays.within behind⟩
      · exact upholds_fail _
  · exact upholds_pure hc hl

theorem LogicalAction.upholds_perform (hv : v.Serve c.known roles) (a : LogicalAction) :
    Upholds (fun k x => Value.Serves k ((Action.logical a).role? roles) x) (a.perform v) env c := by
  cases a with
  | expression => exact upholds_take fun o taken => upholds_give hc (hv.operation taken)
  | operation =>
    refine upholds_take fun left taken =>
      (upholds_operationOf hc (hv.operand taken) (hv 1)).bind fun o d stays intact => ?_
    exact upholds_give stays.intact intact
  | nested =>
    refine upholds_take fun o taken => ?_
    have intact := hv.operation taken
    exact upholds_give hc intact
  | negation =>
    refine upholds_take fun a taken => ?_
    have intact := hv.operand taken
    exact upholds_give hc intact
  | attributeOf =>
    refine upholds_take fun id _ => (upholds_attributeOperand hc id).bind fun a d stays intact => ?_
    exact upholds_give stays.intact intact
  | date | integer | string => exact upholds_take fun _ _ => upholds_give hc trivial
  | name =>
    refine upholds_take fun id _ => ?_
    dsimp only
    split
    · -- of a call of a function only the number of its arguments is kept
      refine ⟨hc.of_same rfl rfl rfl rfl, Value.serves_of_intact trivial⟩
    · have flag : Upholds (fun k a => a.Intact k) (Plan.Operand.flag <$> declaredFlag id) env c := by
        rw [Upholds, ends_map]
        exact upholds_declaredFlag hc id
      exact flag.bind fun a d stays intact => upholds_give stays.intact intact
  | arguments => exact upholds_give hc (Value.intact_list.mpr hv.list)
  | flag =>
    refine upholds_take fun id _ => (upholds_declaredFlag hc id).bind fun id d stays declared => ?_
    refine upholds_pure stays.intact fun x same => ?_
    cases same
    refine ⟨trivial, fun r hr => ?_⟩
    cases hr
    exact List.cons_subset.mpr ⟨declared, List.nil_subset _⟩

/-! ## Dates, times and lengths -/

/-- Working hours are no references. -/
theorem Matcher.upholds_workingHours (v : Values) :
    Upholds (fun _ _ => True) (workingHours v) env c := by
  have store {d : Context} (hd : d.Intact) (hours : Calendar.WorkingHours) :
      Upholds (fun _ _ => True) (modifyProperty (·.set "workinghours" (.workingHours hours))) env d :=
    upholds_modifyProperty hd (fun q => q.heading_set _ _) fun q hq => hq.set (by trivial)
  refine upholds_take fun days _ => ?_
  split
  · refine upholds_get ?_
    split
    · exact upholds_modifySettings hc fun s => List.Subset.refl _
    · rw [Upholds, ends_bind, ends_currentProperty]
      intro kind i _ p there q _
      split
      · exact store hc _
      · simp only [ends_bind, ends_project, ends_pure]
        exact fun _ _ => store hc _
  · exact upholds_fail _

/-- What is read off the plan is no reference. -/
theorem Matcher.upholds_read {m : Matcher α} (hm : Ends (fun _ d => d = c) m env c) {f : α → Value}
    (plain : ∀ k x, (f x).Intact k) :
    Upholds (fun k x => Value.Serves k none x) (do return some (f (← m))) env c := by
  rw [Upholds, ends_bind]
  refine hm.weaken fun x d same => ?_
  subst same
  exact upholds_give hc (plain _ x)

theorem CalendarAction.upholds_perform (a : CalendarAction) :
    Upholds (fun k x => Value.Serves k none x) (a.perform v) env c := by
  cases a with
  | workingHours => exact (upholds_workingHours hc v).done
  | interval => exact upholds_read hc (by simp) fun _ _ => trivial
  | projectDate => exact upholds_read hc (by simp [Matcher.projectDate]) fun _ _ => trivial
  | projectInterval => exact upholds_read hc (by simp [Matcher.projectInterval]) fun _ _ => trivial
  | timeRange => exact upholds_read hc (by simp [Matcher.timeRange]) fun _ _ => trivial
  | dayRange =>
    refine upholds_read hc ?_ fun _ _ => trivial
    simp only [Matcher.dayRange, weekday, ends_bind, ends_take, ends_orFail]
    intros
    split <;> simp
  | endDate | endSeconds => exact upholds_take fun _ _ => upholds_give hc trivial
  | daySet => exact upholds_give hc trivial
  | noTimes => exact upholds_give hc (Value.intact_list.mpr fun x hx => by cases hx)
  | unit => exact upholds_take fun _ _ => upholds_orFail fun _ _ => upholds_give hc trivial
  | calendarTicks | workingTicks =>
    exact upholds_project fun _ _ => upholds_take fun _ _ => upholds_take fun _ _ =>
      upholds_give hc trivial
  | intervalSeconds =>
    exact upholds_take fun _ _ => upholds_take fun _ _ => upholds_give hc trivial

/-! ## All actions -/

/-- An operator and the operand behind it name nothing. -/
theorem Matcher.upholds_pair {i : Nat} {shapes : List Shape} {s : Shape}
    (gives : (Action.pair i).gives? shapes = some s) (suits : Suits v shapes)
    (hv : v.Serve c.known roles) (matchRule : RuleId → Matcher (Option Value)) :
    Upholds (fun k x => Value.Serves k none x) ((Action.pair i).perform matchRule v) env c := by
  refine upholds_take fun first _ => upholds_take fun second taken => upholds_give hc ?_
  refine ⟨hv.required taken, fun _ => ?_⟩
  rw [Action.gives?] at gives
  split at gives
  · next operand =>
    have shape := suits i
    rw [operand] at shape
    obtain ⟨o, found⟩ := shape
    rw [(Values.required_eq_ok_iff v i second).mp taken] at found
    cases found
    exact List.nil_subset _
  · cases gives

/-- Every action keeps references and gives a value that serves in its role, where the values of its
pattern do and it gets names for what it takes for names. -/
theorem Action.stays_of_run_perform {a : Action} (allows : c.Allows a) {shapes : List Shape} {s : Shape}
    (gives : a.gives? shapes = some s) (suits : Suits v shapes) (hv : v.Serve c.known roles)
    (names : ∀ i r, a.naming? = some (i, r) → roles i = some r)
    {matchRule : RuleId → Matcher (Option Value)} {x : Option Value} {d : Context}
    (run : a.perform matchRule v env c = (.ok x, d)) :
    c.StaysIntact d ∧ Value.Serves d.known (a.role? roles) x := by
  have of_upholds (h : Upholds (fun k x => Value.Serves k (a.role? roles) x) (a.perform matchRule v) env c) :
      c.StaysIntact d ∧ Value.Serves d.known (a.role? roles) x := h.of_ok run
  cases a with
  | value i => exact of_upholds (upholds_pure hc (hv i))
  | collect =>
    refine of_upholds (upholds_pure hc fun x same => ?_)
    cases same
    refine ⟨Value.intact_list.mpr fun x hx => ?_, fun r hr => ?_⟩
    · rcases List.mem_append.mp hx with first | more
      · exact (hv 0 x (Option.mem_toList.mp first)).1
      · exact hv.list x more
    · -- the first one and the others have the same role
      rw [role?] at hr
      split at hr
      · next same =>
        show strings ((v.value? 0).toList ++ v.list 1) ⊆ _
        rw [strings_append]
        refine List.append_subset.mpr ⟨strings_subset fun x hx => ?_, hv.names (same ▸ hr)⟩
        exact (hv 0 x (Option.mem_toList.mp hx)).2 r hr
      · cases hr
  | pair i => exact of_upholds (upholds_pair hc gives suits hv matchRule)
  | rule name => exact allows.not_rule.elim
  | includeFile i =>
    obtain ⟨rfl, path, tokens, journal, -, rfl, -⟩ := Action.eq_of_run_includeFile v run
    exact ⟨hc.of_same rfl rfl rfl rfl, Value.serves_none⟩
  | nothing => exact of_upholds (upholds_pure hc Value.serves_none)
  | project a => exact of_upholds (a.upholds_perform hc allows).done
  | scenario a => exact of_upholds (a.upholds_perform hc)
  | property a => exact of_upholds (a.upholds_perform hc hv names)
  | extend a => exact of_upholds (a.upholds_perform hc)
  | report a => exact of_upholds (a.upholds_perform hc hv)
  | logical a => exact of_upholds (a.upholds_perform hc hv)
  | calendar a => exact of_upholds (a.upholds_perform hc)
  | _ => cases gives

end

end Planfile
