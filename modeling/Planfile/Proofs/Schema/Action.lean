import Planfile.Proofs.Matching.Extension
import Planfile.Proofs.Schema.Effect

/-!
# Planfile — what actions store

An action that sets an attribute names it by a text. The text is in the schema that every project
starts with, with the kind of the value, for each place in which the action can be performed. What a
plan adds to the grammar names an attribute that its statement has just added to the schema.

Main results:

* `PropertyAction.moves_perform` — what actions on tasks and resources do in their places.
* `Matcher.moves_applyExtension` — an attribute that is added fits the schema that has it.
* `Action.leads_perform` — every action has its effect, and leaves a state that conforms.
-/

namespace Planfile

open Plan (PropertyKind AttributeKind AttributeValue Describes)

namespace Matcher

/-- Whether a computation objects, or has an effect and leaves a state that conforms. -/
def Moves (effects : Effects) (e : Effect) (m : Matcher α) (env : Surroundings) (c : Context) : Prop :=
  Ends (fun _ d => d.Conforming effects ∧ e.Leads c d) m env c

section
variable {effects : Effects} {env : Surroundings} {c : Context}

/-- What leaves alone what is about tasks and resources stays in its place. -/
theorem moves_of_keeps {m : Matcher α} (hk : Keeps Context.propertyState m) (hc : c.Conforming effects) :
    Moves effects .stay m env c := by
  refine (hk env c).weaken fun _ d same => ?_
  have matchingState : d.matchingState = c.matchingState := congrArg PropertyState.matchingState same
  exact hc.of_same (congrArg MatchingState.extensions matchingState) (congrArg PropertyState.property same)
    (congrArg PropertyState.target same) (congrArg PropertyState.sets same)

/-- Computations one after the other. -/
theorem Moves.bind {m : Matcher α} {f : α → Matcher β} (hm : Moves effects .stay m env c)
    (hf : ∀ a d, d.Conforming effects → d.place = c.place → Moves effects .stay (f a) env d) :
    Moves effects .stay (m >>= f) env c := by
  rw [Moves, ends_bind]
  refine hm.weaken fun a d ⟨conforms, onward⟩ => ?_
  exact (hf a d conforms onward.place).weaken fun _ x ⟨still, goesOn⟩ => ⟨still, onward.trans goesOn⟩

theorem moves_pure (a : α) (hc : c.Conforming effects) :
    Moves effects .stay (pure a) env c := ⟨hc, .refl c⟩

/-! ## Setting attributes -/

/-- Changing the current property in a way that keeps it below its parent and conforming. -/
theorem moves_modifyProperty (hc : c.Conforming effects) {f : Plan.Property → Plan.Property}
    (parent : ∀ q, (f q).parent = q.parent)
    (conforms : ∀ kind p q, c.place = some kind → c.project = some p → p.Conforms →
      q.ConformsTo (p.properties kind).definitions →
      (f q).ConformsTo (p.properties kind).definitions) :
    Moves effects .stay (modifyProperty f) env c := by
  rw [Moves, ends_modifyProperty]
  intro kind index current p there q _
  have place : c.place = some kind := by
    rw [Context.place, current]
    rfl
  have project := hc.project p there
  have grows := Plan.PropertySet.growsTo_modify (s := p.properties kind) parent index
  have changed : ((p.properties kind).modify index f).Conforms :=
    (project.sets kind).modify fun q _ hq => conforms kind p q place there project hq
  exact ⟨hc.of_grown rfl rfl there rfl (Plan.Project.growsTo_setProperties grows)
    (project.setProperties grows changed),
    .of_grown rfl there rfl (Plan.Project.growsTo_setProperties grows)⟩

/-- An attribute that every project has an entry for. -/
theorem describes_of_isBuiltin {kind : PropertyKind} {id : String} {valueKind : AttributeKind}
    (h : isBuiltin (some kind) id valueKind = true) {p : Plan.Project} (hp : p.Conforms) :
    Describes (p.properties kind).definitions true id valueKind := by
  simp only [isBuiltin, Option.all_some, List.any_eq_true, Bool.and_eq_true, beq_iff_eq] at h
  obtain ⟨d, mem, ⟨same, isKind⟩, specific⟩ := h
  exact ⟨d, hp.builtin kind mem, same, isKind, specific⟩

/-- Setting an attribute in a scenario that every project has an entry for. -/
theorem moves_setScenarioAttribute (hc : c.Conforming effects) {id : String} {value : AttributeValue}
    (builtin : isBuiltin c.place id value.kind = true) :
    Moves effects .stay (setScenarioAttribute id value) env c := by
  rw [Moves, ends_setScenarioAttribute]
  refine moves_modifyProperty hc (fun q => q.parent_setScenario _) ?_
  intro kind p q place _ project hq
  -- the current property is of the kind that the place says
  rw [place] at builtin
  exact hq.setScenario _ (describes_of_isBuiltin builtin project)

/-- Setting hours of the current resource, or of the project where there is none. -/
theorem moves_setWorkingHours (hc : c.Conforming effects) (place : c.place ≠ some .task)
    (days : Calendar.DaySet) (ranges : List Calendar.TimeRange) :
    Moves effects .stay (setWorkingHours days ranges) env c := by
  have described {p : Plan.Project} (hp : p.Conforms) :
      Describes (p.properties .resource).definitions false "workinghours" .workingHours := by
    refine ⟨⟨"workinghours", "Working Hours", .workingHours, true, false, false⟩, ?_, rfl, rfl, rfl⟩
    exact hp.builtin .resource (by decide)
  have store (hours : Calendar.WorkingHours) : Moves effects .stay
      (modifyProperty (·.set "workinghours" (.workingHours hours))) env c := by
    refine moves_modifyProperty hc (fun q => q.parent_set) ?_
    intro kind p q inside _ project hq
    cases kind with
    | task => exact absurd inside place
    | resource => exact hq.set (described project)
  refine .setWorkingHours (fun _ p there => ?_) store
  -- hours of the project are a setting, and no attribute
  refine hc.of_same rfl rfl rfl ?_
  rw [there]
  rfl

/-! ## Bodies -/

/-- A header enters the body of the property that it adds. -/
theorem moves_openProperty (hc : c.Conforming effects) {kind : PropertyKind}
    (place : c.place = none ∨ c.place = some kind) (id name : String) :
    Moves effects (.enter kind) (openProperty kind id name) env c := by
  rw [Moves, ends_openProperty]
  intro p there grown added
  generalize parent : openProperty? c kind = above at added
  -- the place is outside of bodies, or the body of what the new property is below
  have current : c.property = above.map (kind, ·) := by
    rw [← parent, openProperty?]
    cases property : c.property with
    | none => rfl
    | some current =>
      obtain ⟨other, index⟩ := current
      have same : other = kind := by
        rw [Context.place, property] at place
        rcases place with outside | inside
        · cases outside
        · exact Option.some.inj inside
      subst same
      simp
  have appended := Plan.PropertySet.eq_append_of_add? added
  have project := hc.project p there
  generalize before : p.properties kind = s at added appended
  have newGrows : s.GrowsTo grown := appended ▸ Plan.PropertySet.growsTo_append _ name above
  have inherits := Plan.PropertySet.growsTo_inheritAttributes (s := grown) s.length
  have grows : (p.properties kind).GrowsTo (grown.inheritAttributes s.length) :=
    before ▸ newGrows.trans inherits
  have conforms : (grown.inheritAttributes s.length).Conforms := by
    refine Plan.PropertySet.Conforms.inheritAttributes ?_ _
    rw [appended]
    exact (before ▸ project.sets kind).append _ name above
  -- the new property is at the end, and has inherited there
  have last : grown.get? s.length = some ⟨s.fullId id above, name, above, [], [], []⟩ := by
    rw [appended]
    exact Plan.PropertySet.get?_append_length _ name above
  obtain ⟨a, found, same⟩ := inherits.kept _ _ last
  have whole := Plan.Project.growsTo_setProperties grows
  refine ⟨hc.of_grown rfl rfl there rfl whole (project.setProperties grows conforms), ?_, ?_, ?_⟩
  · refine ⟨s.length, _, a, rfl, rfl, ?_, ?_⟩
    · rw [Plan.Project.properties_setProperties, if_pos rfl]
      exact found
    · rw [same]
      exact current
  · rw [there]
    exact Option.some_ne_none p
  · intro r hr
    rw [there] at hr
    cases hr
    exact ⟨_, rfl, whole⟩

/-- The end of a body goes back to the place of before. -/
theorem leads_closeProperty {kind : PropertyKind} {d e : Context} (h : Entered kind c d)
    (hd : d.Conforming effects) (run : closeProperty env d = (.ok (), e)) :
    e.Conforming effects ∧ Onward c e := by
  cases run
  obtain ⟨i, q, a, inside, there, found, above⟩ := h.property
  -- the property that has been entered is still the current one
  have current : d.currentProperty? = some a := by
    rw [Context.currentProperty?, inside, there]
    exact found
  refine ⟨⟨hd.project, hd.extensions, hd.target⟩, ?_, ?_, h.project⟩
  · dsimp only
    rw [inside, current, above]
    show (a.parent.bind fun i => some (kind, i)) = a.parent.map (kind, ·)
    cases a.parent <;> rfl
  · intro none
    exact absurd none h.started

/-! ## Added attributes -/

/-- Values of an added attribute are of its kind. -/
theorem kind_of_extensionValue {kind : AttributeKind} (addable : kind.isAddable = true) {v : Values}
    {value : AttributeValue} (h : extensionValue kind v = .ok value) : value.kind = kind := by
  have made {α : Type} {x : Except GrammarError α} {f : α → AttributeValue}
      (h : x.map f = .ok value) : ∃ a, f a = value := by
    cases x with
    | error e => cases h
    | ok a => exact ⟨a, Except.ok.inj h⟩
  cases kind with
  | date | reference | text =>
    obtain ⟨_, rfl⟩ := made h
    rfl
  | _ => cases addable

/-- The alternative of an added attribute stores what the schema describes. -/
theorem moves_store (hc : c.Conforming effects) {kind : PropertyKind} (place : c.place = some kind)
    {id : String} {valueKind : AttributeKind} {specific : Bool} (addable : valueKind.isAddable = true)
    (described : ∀ p, c.project = some p →
      Describes (p.properties kind).definitions specific id valueKind) (v : Values) :
    Moves effects .stay ((ExtendAction.store id valueKind specific).perform v) env c := by
  rw [Moves, ExtendAction.perform, ends_bind, ends_take]
  intro value taken
  have isKind := kind_of_extensionValue addable taken
  have same {other : PropertyKind} (inside : c.place = some other) : other = kind :=
    Option.some.inj (inside.symm.trans place)
  cases specific with
  | true =>
    rw [if_pos rfl, ends_bind, ends_setScenarioAttribute]
    refine moves_modifyProperty hc (fun q => q.parent_setScenario _) ?_
    intro other p q inside there _ hq
    obtain rfl := same inside
    exact hq.setScenario _ (isKind ▸ described p there)
  | false =>
    rw [if_neg Bool.false_ne_true, ends_bind]
    refine moves_modifyProperty hc (fun q => q.parent_set) ?_
    intro other p q inside there _ hq
    obtain rfl := same inside
    exact hq.set (isKind ▸ described p there)

/-- Symbols that each stay in the place do so one after the other. -/
theorem effectAlong?_of_stay {symbols : List Symbol}
    (h : ∀ s ∈ symbols, ∀ k, s.effect? effects k = some .stay) (k : Place) :
    effectAlong? effects k symbols = some .stay := by
  induction symbols with
  | nil => rfl
  | cons s symbols ih =>
    have first := h s List.mem_cons_self k
    have others := ih fun s hs => h s (List.mem_cons_of_mem _ hs)
    rw [effectAlong?, first]
    show (effectAlong? effects k symbols).bind (Effect.stay.andThen? ·) = some .stay
    rw [others]
    rfl

/-- The symbols of an added attribute stay in the place, because the body of a reference does. -/
theorem effectAlong?_extension {t : GrammarTable} (ht : t.Follows effects)
    {e : AttributeExtension} {symbols : List Symbol} (h : e.symbols.mapM t.symbol = .ok symbols)
    (k : Place) : effectAlong? effects k symbols = some .stay := by
  refine effectAlong?_of_stay (fun s hs k => ?_) k
  cases s with
  | literal text => rfl
  | tokenClass c => rfl
  | rule id =>
    obtain ⟨text, mem, resolved⟩ := exists_of_mem_mapM h hs
    -- a symbol that is resolved to a rule names it
    rw [GrammarTable.symbol, GrammarTable.resolveSymbol] at resolved
    cases spec : SymbolSpec.ofText? text with
    | none =>
      rw [spec] at resolved
      cases resolved
    | some spec' =>
      rw [spec] at resolved
      cases spec' with
      | literal text => cases resolved
      | tokenClass c => cases resolved
      | rule name =>
        obtain rfl := AttributeExtension.name_of_mem_symbols mem spec
        dsimp only at resolved
        cases known : t.ruleId? "referenceBody" with
        | none =>
          rw [known] at resolved
          cases resolved
        | some found =>
          rw [known] at resolved
          cases resolved
          exact ht.reference id known k

/-- An attribute that is added to the schema fits it where it is added to the grammar. -/
theorem moves_applyExtension {t : GrammarTable} (ht : t.Follows effects) (he : env.grammar = t)
    (hc : c.Conforming effects) {e : AttributeExtension} (addable : e.kind.isAddable = true) :
    Moves effects .stay (applyExtension e) env c := by
  subst he
  refine ends_applyExtension e fun target p set symbols journal there known _ defined resolved => ?_
  generalize chosen : (if e.scenarioSpecific = true then target.scenarioRule else target.rule) = rule
  obtain ⟨plain, scenarios⟩ := hc.target target there
  have onlyIn : effects.OnlyIn target.kind rule := by
    rw [← chosen]
    split
    · exact scenarios
    · exact plain
  have project := hc.project p known
  have grows := Plan.Project.growsTo_setProperties (Plan.PropertySet.growsTo_define? defined)
  have conforms := project.setProperties (Plan.PropertySet.growsTo_define? defined)
    ((project.sets target.kind).define? defined)
  -- the entry that the alternative relies on has just been added
  have described : Describes ((p.setProperties target.kind set).properties target.kind).definitions
      e.scenarioSpecific e.id e.kind := by
    obtain ⟨-, rfl⟩ := Plan.PropertySet.definitions_of_define? defined
    rw [Plan.Project.properties_setProperties, if_pos rfl]
    exact ⟨e.definition, List.mem_append_right _ (List.mem_singleton_self _), rfl, rfl, rfl⟩
  have fits : Fits effects (p.setProperties target.kind set) (rule, ⟨symbols, some e.action⟩) :=
    ⟨target.kind, e.id, e.kind, e.scenarioSpecific, rfl, addable, described, onlyIn,
      effectAlong?_extension ht resolved _⟩
  have added : ({ c with
      extensions := c.extensions ++ [(rule, ⟨symbols, some e.action⟩)]
      project := some (p.setProperties target.kind set) } : Context).Conforming effects := by
    refine ⟨fun q hq => ?_, fun x hx => ?_, hc.target⟩
    · cases hq
      exact conforms
    · rcases List.mem_append.mp hx with old | new
      · obtain ⟨q, hq, fitted⟩ := hc.extensions x old
        rw [known] at hq
        cases hq
        exact ⟨_, rfl, fitted.mono grows⟩
      · rw [List.mem_singleton.mp new]
        exact ⟨_, rfl, fits⟩
  have onward : Onward c { c with
      extensions := c.extensions ++ [(rule, ⟨symbols, some e.action⟩)]
      project := some (p.setProperties target.kind set) } :=
    .of_grown rfl known rfl grows
  exact onward.of_same added rfl rfl rfl rfl

/-- What is extended are bodies of its kind. -/
theorem moves_chooseTarget {t : GrammarTable} (ht : t.Follows effects) (he : env.grammar = t)
    (hc : c.Conforming effects) (word : String) :
    Moves effects .stay (chooseTarget word) env c := by
  subst he
  -- the rules of a target are those of the bodies of its kind
  have chosen {kind : PropertyKind} {rule scenarioRule : RuleId}
      (plain : effects.OnlyIn kind rule) (scenarios : effects.OnlyIn kind scenarioRule) :
      ({ c with extendTarget := some ⟨kind, rule, scenarioRule⟩ } : Context).Conforming effects := by
    refine ⟨hc.project, hc.extensions, fun x hx => ?_⟩
    cases hx
    exact ⟨plain, scenarios⟩
  have same (target : Option ExtendTarget) : Onward c { c with extendTarget := target } :=
    ⟨rfl, (Onward.refl c).unstarted, (Onward.refl c).project⟩
  simp only [Moves, chooseTarget, ends_bind, ends_ite, ends_ruleId, ends_pure, ends_fail, ends_modify]
  split
  · intro rule known scenarioRule scenarioKnown
    have plain := ht.bodies ("taskAttributes", .task) (by decide) rule known
    have scenarios := ht.bodies ("taskScenarioAttributes", .task) (by decide) scenarioRule
      scenarioKnown
    exact ⟨chosen plain scenarios, same _⟩
  · split
    · intro rule known scenarioRule scenarioKnown
      have plain := ht.bodies ("resourceAttributes", .resource) (by decide) rule known
      have scenarios := ht.bodies ("resourceScenarioAttributes", .resource) (by decide) scenarioRule
        scenarioKnown
      exact ⟨chosen plain scenarios, same _⟩
    · trivial

end

end Matcher

section
variable {effects : Effects} {env : Surroundings} {c : Context} (v : Values)

open Matcher

/-- Setting what every project has an entry for, and nothing more. -/
theorem Matcher.moves_writing (hc : c.Conforming effects) {id : String} {value : AttributeValue}
    (builtin : isBuiltin c.place id value.kind = true) :
    Moves effects .stay (do setScenarioAttribute id value; return none : Matcher (Option Value)) env
      c :=
  (moves_setScenarioAttribute hc builtin).bind fun _ _ hd _ => moves_pure none hd

/-- Actions on tasks and resources have their effects. -/
theorem PropertyAction.moves_perform (hc : c.Conforming effects) {a : PropertyAction} {e : Effect}
    (h : a.effect? c.place = some e) : Moves effects e (a.perform v) env c := by
  -- what is set has an entry in every project
  have entries {ws : List (String × AttributeKind)}
      (h : (if ws.all fun w => isBuiltin c.place w.1 w.2 then some Effect.stay else none) = some e) :
      (∀ w ∈ ws, isBuiltin c.place w.1 w.2 = true) ∧ .stay = e := by
    obtain ⟨all, same⟩ := Option.ite_none_right_eq_some.mp h
    exact ⟨List.all_eq_true.mp all, Option.some.inj same⟩
  cases a with
  | header kind =>
    obtain ⟨place, same⟩ := Option.ite_none_right_eq_some.mp h
    cases same
    have place : c.place = none ∨ c.place = some kind := by
      cases inside : c.place with
      | none => exact .inl rfl
      | some other =>
        rw [inside] at place
        exact .inr (congrArg some (by simpa using place))
    simp only [Moves, perform, ends_bind, ends_take]
    intro id _ name _
    refine (moves_openProperty hc place id name).weaken fun _ d moved => ?_
    obtain ⟨conforms, entered⟩ := moved
    -- then attributes are for the first scenario, wherever the header stands
    obtain ⟨still, stays⟩ := conforms.of_same (d := { d with scenarioIndex := 0 }) rfl rfl rfl rfl
    exact ⟨still, entered.onward stays⟩
  | close => cases h
  | leaveScenario | relativeId | resourceId | allocation | alternatives | selectMode =>
    cases h
    exact moves_of_keeps (keeps_propertyState v rfl) hc
  | allocate | flags | vacation =>
    obtain ⟨builtin, same⟩ := entries h
    cases same
    simp only [Moves, perform, addAllocations, addFlags, addVacations, ends_bind, ends_get, ends_pure]
    exact moves_setScenarioAttribute hc (builtin _ (List.mem_singleton_self _))
  | depends =>
    obtain ⟨builtin, same⟩ := entries h
    cases same
    exact moves_writing hc (builtin _ (List.mem_singleton_self _))
  | ticks id =>
    obtain ⟨builtin, same⟩ := entries h
    cases same
    rw [Moves, perform, ends_bind, ends_take]
    intro ticks _
    exact moves_writing hc (builtin _ (List.mem_singleton_self _))
  | priority =>
    obtain ⟨builtin, same⟩ := entries h
    cases same
    rw [Moves, perform, ends_bind, ends_take]
    intro priority _
    dsimp only
    split
    · simp
    · exact moves_writing hc (builtin _ (List.mem_singleton_self _))
  | start | stop =>
    obtain ⟨builtin, same⟩ := entries h
    cases same
    rw [Moves, perform, ends_bind, ends_take]
    intro date _
    -- the direction is set behind the date, in the same place
    refine (moves_setScenarioAttribute hc (builtin _ List.mem_cons_self)).bind fun _ d hd place => ?_
    refine moves_writing hd ?_
    rw [place]
    exact builtin _ (List.mem_cons_of_mem _ (List.mem_singleton_self _))

/-- A project starts with schemas that nothing contradicts, before a plan can add to the grammar. -/
theorem ProjectAction.moves_header (hc : c.Conforming effects) (unstarted : c.project = none) :
    Moves effects .start (ProjectAction.header.perform v) env c := by
  simp only [Moves, perform, ends_bind, ends_take, ends_modify]
  intro id _ name _ version _ time _
  refine ⟨⟨fun p hp => ?_, fun x hx => ?_, hc.target⟩, rfl, Option.some_ne_none _⟩
  · cases hp
    exact Plan.Project.conforms_initial id name version time
  · obtain ⟨p, hp, -⟩ := hc.extensions x hx
    rw [unstarted] at hp
    cases hp

/-- Actions on added attributes stay in the place. -/
theorem ExtendAction.moves_perform {t : GrammarTable} (ht : t.Follows effects) (he : env.grammar = t)
    (hc : c.Conforming effects) {a : ExtendAction} {e : Effect}
    (h : Action.effect? c.place (.extend a) = some e) : Moves effects e (a.perform v) env c := by
  cases a with
  | target =>
    cases h
    rw [Moves, perform, ends_bind, ends_take]
    intro word _
    exact (moves_chooseTarget ht he hc word).bind fun _ _ hd _ => moves_pure none hd
  | close =>
    cases h
    refine ⟨⟨hc.project, hc.extensions, fun x none => by cases none⟩, ?_⟩
    exact ⟨rfl, (Onward.refl c).unstarted, (Onward.refl c).project⟩
  | declare kind =>
    obtain ⟨addable, same⟩ := Option.ite_none_right_eq_some.mp h
    cases same
    simp only [Moves, perform, declareAttribute, ends_bind, ends_take, ends_pure]
    intro id _ name _
    exact moves_applyExtension ht he hc addable
  | id =>
    cases h
    exact moves_of_keeps (keeps_id v) hc
  | store id kind specific => cases h

/-- Working hours are set outside of tasks. -/
theorem Matcher.moves_workingHours (hc : c.Conforming effects) (place : c.place ≠ some .task) :
    Moves effects .stay (workingHours v) env c :=
  (ends_workingHours v).mpr fun days _ => moves_setWorkingHours hc place days _

/-- Every action has its effect, and leaves a state that conforms. -/
theorem Action.leads_perform {t : GrammarTable} (ht : t.Follows effects) (he : env.grammar = t)
    (hc : c.Conforming effects) {a : Action} {e : Effect} (h : a.effect? c.place = some e)
    (ready : e.Ready c) {matchRule : RuleId → Matcher (Option Value)} {d : Context} {x : Option Value}
    (run : a.perform matchRule v env c = (.ok x, d)) : d.Conforming effects ∧ e.Leads c d := by
  -- most actions leave alone all that the effects speak of
  have neutral (keepsProperties : a.keepsProperties = true) (same : some Effect.stay = some e) :
      d.Conforming effects ∧ e.Leads c d := by
    cases same
    exact (moves_of_keeps (keeps_propertyState v keepsProperties matchRule) hc).of_ok run
  cases a with
  | rule name => cases h
  | includeFile i =>
    cases h
    obtain ⟨-, path, tokens, journal, -, rfl, -⟩ := Action.eq_of_run_includeFile v run
    exact hc.of_same rfl rfl rfl rfl
  | project a =>
    cases a with
    | header =>
      cases h
      obtain ⟨_, f, started, last⟩ := exists_of_run_bind run
      cases last
      exact (ProjectAction.moves_header v hc (ready rfl)).of_ok started
    | _ => exact neutral rfl h
  | property a => exact (a.moves_perform v hc h).of_ok run
  | extend a => exact (a.moves_perform v ht he hc h).of_ok run
  | calendar a =>
    cases a with
    | workingHours =>
      obtain ⟨place, same⟩ := Option.ite_none_left_eq_some.mp h
      cases same
      obtain ⟨_, f, set, last⟩ := exists_of_run_bind run
      cases last
      exact (moves_workingHours v hc place).of_ok set
    | _ => exact neutral rfl h
  | _ => exact neutral rfl h

end

end Planfile
