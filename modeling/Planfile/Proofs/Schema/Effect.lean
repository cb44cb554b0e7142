import Planfile.Proofs.Matching.Postcondition
import Planfile.Proofs.Schema.Conformance

/-!
# Planfile — bodies of tasks and resources

What an attribute is stored in depends on where it stands: in the body of a task, in that of a
resource, or in neither. Most of what is matched leaves this place as it is. A header enters the body
of what it adds, and the end of the body goes back to the place of before, because what is above a
task or a resource never changes. The statement that starts a project can come only first.

So every rule has an effect, which may depend on the place, and what a plan adds to the grammar has
one as well: an attribute that is added for tasks or for resources is read in their bodies alone, and
the schema describes what it stores.

Main results:

* `Effect.leads_andThen` — effects one after the other.
* `Context.Conforming.of_same` — what changes nothing about tasks and resources.
-/

namespace Planfile

open Plan (PropertyKind AttributeKind Describes)

/-- Where a statement stands: in the body of a task or a resource, or in none. -/
abbrev Place := Option PropertyKind

/-- The place of what is read next. -/
def Context.place (c : Context) : Place := c.property.map (·.1)

/-- What matching does to the place. -/
inductive Effect where
  /-- It is the same as before. -/
  | stay
  /-- It is the body of a property that has been added. -/
  | enter (kind : PropertyKind)
  /-- A project has been started. -/
  | start
  deriving DecidableEq

/-- The effect of each rule in each place, if the rule can stand there. -/
abbrev Effects := RuleId → Place → Option Effect

namespace Effect

/-- The place behind what has an effect. -/
def placeAfter : Effect → Place → Place
  | .stay, k => k
  | .enter kind, _ => some kind
  | .start, _ => none

/-- The effect of one thing after another. -/
def andThen? : Effect → Effect → Option Effect
  | e, .stay => some e
  | .stay, f => some f
  | _, _ => none

/-- The effect of going back from the body that has been entered. -/
def back? : Effect → Option Effect
  | .enter _ => some .stay
  | _ => none

end Effect

/-! ## Symbols and patterns -/

section
variable (effects : Effects)

/-- The effect of a symbol. -/
def Symbol.effect? (k : Place) : Symbol → Option Effect
  | .rule id => effects id k
  | _ => some .stay

/-- The effect of several symbols. -/
def effectAlong? : Place → List Symbol → Option Effect
  | _, [] => some .stay
  | k, s :: rest => do
    let e ← s.effect? effects k
    let f ← effectAlong? (e.placeAfter k) rest
    e.andThen? f

/-- Whether a rule can stand in bodies of a kind alone, where it has no effect on the place. -/
def Effects.OnlyIn (kind : PropertyKind) (rule : RuleId) : Prop :=
  ∀ k e, effects rule k = some e → k = some kind ∧ e = .stay

end

/-- Whether values of a kind can be those of attributes that a plan adds. -/
def Plan.AttributeKind.isAddable : AttributeKind → Bool
  | .date | .reference | .text => true
  | _ => false

/-- What an action on tasks and resources sets in a scenario. -/
def PropertyAction.writes : PropertyAction → List (String × AttributeKind)
  | .allocate => [("allocate", .allocations)]
  | .depends => [("depends", .dependencies)]
  | .ticks id => [(id, .duration)]
  | .start => [("start", .date), ("forward", .boolean)]
  | .stop => [("end", .date), ("forward", .boolean)]
  | .priority => [("priority", .integer)]
  | .flags => [("flags", .flags)]
  | .vacation => [("vacations", .intervals)]
  | _ => []

/-- Whether every project has an entry for a value in a scenario that is set in a place. -/
def isBuiltin (k : Place) (id : String) (kind : AttributeKind) : Bool :=
  k.all fun property => (Plan.builtinDefinitions property).any fun d =>
    d.id == id && d.kind == kind && d.scenarioSpecific

/-- The effect of an action on tasks and resources. -/
def PropertyAction.effect? (k : Place) : PropertyAction → Option Effect
  | .header kind => if k.all (· = kind) then some (.enter kind) else none
  | .close => none
  | a => if a.writes.all fun w => isBuiltin k w.1 w.2 then some .stay else none

/-- The effect of an action, if it can be performed in a place. Going back from a body is the effect
of a whole pattern, and no rule stores what only a plan can add. -/
def Action.effect? (k : Place) : Action → Option Effect
  | .rule _ => none
  | .project .header => some .start
  | .property a => a.effect? k
  | .extend (.declare kind) => if kind.isAddable then some .stay else none
  | .extend (.store _ _ _) => none
  | .calendar .workingHours => if k = some .task then none else some .stay
  | _ => some .stay

/-- The effect of symbols together with the action at their end, which may go back from the body that
they have entered. -/
def Action.endOf? (k : Place) (a : Action) (e : Effect) : Option Effect :=
  if a = .property .close then e.back? else do e.andThen? (← a.effect? (e.placeAfter k))

/-- The effect of a pattern. -/
def Pattern.effect? (effects : Effects) (k : Place) (p : Pattern) : Option Effect := do
  let e ← effectAlong? effects k p.symbols
  match p.action with
  | none => some e
  | some a => a.endOf? k e

/-! ## States -/

/-- Whether an alternative that a plan has added stores what a schema describes, in bodies of its
kind. -/
def Fits (effects : Effects) (p : Plan.Project) (added : RuleId × Pattern) : Prop :=
  ∃ kind id valueKind specific,
    added.2.action = some (.extend (.store id valueKind specific)) ∧ valueKind.isAddable = true ∧
      Describes (p.properties kind).definitions specific id valueKind ∧
      effects.OnlyIn kind added.1 ∧ effectAlong? effects (some kind) added.2.symbols = some .stay

/-- Whether the project of a state conforms to its schemas, and so does what the plan has added to the
grammar. -/
structure Context.Conforming (effects : Effects) (c : Context) : Prop where
  project : ∀ p, c.project = some p → p.Conforms
  extensions : ∀ e ∈ c.extensions, ∃ p, c.project = some p ∧ Fits effects p e
  target : ∀ x, c.extendTarget = some x →
    effects.OnlyIn x.kind x.rule ∧ effects.OnlyIn x.kind x.scenarioRule

/-- Whether a state is behind another one in the same place, with a project that has grown. -/
structure Onward (c d : Context) : Prop where
  property : d.property = c.property
  unstarted : c.project = none → d.project = none
  project : ∀ p, c.project = some p → ∃ q, d.project = some q ∧ p.GrowsTo q

/-- Whether a state is behind another one, in the body of a property below the one whose body was
read before. -/
structure Entered (kind : PropertyKind) (c d : Context) : Prop where
  property : ∃ i q a, d.property = some (kind, i) ∧ d.project = some q ∧
    (q.properties kind).get? i = some a ∧ c.property = a.parent.map (kind, ·)
  started : c.project ≠ none
  project : ∀ p, c.project = some p → ∃ q, d.project = some q ∧ p.GrowsTo q

/-- What an effect says about the states before and behind. -/
def Effect.Leads : Effect → Context → Context → Prop
  | .stay, c, d => Onward c d
  | .enter kind, c, d => Entered kind c d
  | .start, _, d => d.property = none ∧ d.project ≠ none

/-- What has to hold before an effect: a project is started only once. -/
def Effect.Ready (e : Effect) (c : Context) : Prop := e = .start → c.project = none

theorem Onward.refl (c : Context) : Onward c c :=
  ⟨rfl, fun h => h, fun p hp => ⟨p, hp, fun _ => .refl _⟩⟩

namespace Onward

variable {c d e : Context} (h : Onward c d)

include h

theorem place : d.place = c.place := by
  rw [Context.place, h.property]
  rfl

/-- A project that has been started stays. -/
theorem started (hc : c.project ≠ none) : d.project ≠ none := by
  obtain ⟨p, there⟩ := Option.ne_none_iff_exists'.mp hc
  obtain ⟨q, still, -⟩ := h.project p there
  exact Option.ne_none_iff_exists'.mpr ⟨q, still⟩

theorem trans (hd : Onward d e) : Onward c e := by
  refine ⟨hd.property.trans h.property, fun none => hd.unstarted (h.unstarted none), fun p hp => ?_⟩
  obtain ⟨q, hq, grows⟩ := h.project p hp
  obtain ⟨r, hr, goesOn⟩ := hd.project q hq
  exact ⟨r, hr, grows.trans goesOn⟩

/-- A property whose body is entered later is below the one whose body was read before. -/
theorem entered {kind : PropertyKind} (hd : Entered kind d e) : Entered kind c e := by
  obtain ⟨i, r, a, inside, there, found, above⟩ := hd.property
  refine ⟨⟨i, r, a, inside, there, found, h.property ▸ above⟩,
    fun none => hd.started (h.unstarted none), fun p hp => ?_⟩
  obtain ⟨q, hq, grows⟩ := h.project p hp
  obtain ⟨r, hr, goesOn⟩ := hd.project q hq
  exact ⟨r, hr, grows.trans goesOn⟩

end Onward

/-- What is above a property does not change while its body is read. -/
theorem Entered.onward {kind : PropertyKind} {c d e : Context} (h : Entered kind c d)
    (hd : Onward d e) : Entered kind c e := by
  obtain ⟨i, q, a, inside, there, found, above⟩ := h.property
  obtain ⟨r, hr, grows⟩ := hd.project q there
  -- the property may have got values or children, but not another parent
  obtain ⟨b, still, same⟩ := (grows kind).kept i a found
  refine ⟨⟨i, r, b, hd.property.trans inside, hr, still, same ▸ above⟩, h.started, fun p hp => ?_⟩
  obtain ⟨q', hq', grown⟩ := h.project p hp
  obtain ⟨r', hr', goesOn⟩ := hd.project q' hq'
  exact ⟨r', hr', grown.trans goesOn⟩

namespace Effect

variable {e f g : Effect} {c d x : Context}

/-- What stays in the place adds nothing to an effect. -/
theorem andThen?_stay (e : Effect) : e.andThen? .stay = some e := by
  cases e <;> rfl

theorem stay_andThen? (e : Effect) : stay.andThen? e = some e := by
  cases e <;> rfl

/-- The place behind an effect. -/
theorem place_of_leads (h : e.Leads c d) : d.place = e.placeAfter c.place := by
  cases e with
  | stay => exact Onward.place h
  | enter kind =>
    obtain ⟨i, q, a, inside, -⟩ := h.property
    rw [Context.place, inside]
    rfl
  | start =>
    have outside : d.property = none := h.1
    rw [Context.place, outside]
    rfl

/-- Effects one after the other. -/
theorem leads_andThen (h : e.andThen? f = some g) (he : e.Leads c d) (hf : f.Leads d x) :
    g.Leads c x := by
  -- one of the two stays, so the effect is that of the other one
  cases f with
  | stay =>
    rw [andThen?_stay] at h
    cases h
    cases e with
    | stay => exact Onward.trans he hf
    | enter kind => exact Entered.onward he hf
    | start => exact ⟨hf.property.trans he.1, hf.started he.2⟩
  | enter kind =>
    cases e with
    | stay =>
      cases h
      exact Onward.entered he hf
    | enter other => cases h
    | start => cases h
  | start =>
    cases e with
    | stay =>
      cases h
      exact hf
    | enter other => cases h
    | start => cases h

/-- Where one effect can come after another, the first of them can come. -/
theorem ready_of_andThen (h : e.andThen? f = some g) (hg : g.Ready c) : e.Ready c := by
  rintro rfl
  cases f with
  | stay =>
    cases h
    exact hg rfl
  | enter kind => cases h
  | start => cases h

/-- And behind it, the second one can. -/
theorem ready_behind (h : e.andThen? f = some g) (hg : g.Ready c) (he : e.Leads c d) :
    f.Ready d := by
  rintro rfl
  cases e with
  | stay =>
    cases h
    exact he.unstarted (hg rfl)
  | enter kind => cases h
  | start => cases h

/-- What can be gone back from does not start a project. -/
theorem ready_of_back (h : e.back? = some g) : e.Ready c := by
  rintro rfl
  cases h

end Effect

/-! ## States that conform -/

section
variable {effects : Effects} {c d : Context} {p q : Plan.Project}

/-- What fits a schema fits one that has grown. -/
theorem Fits.mono {added : RuleId × Pattern} (h : Fits effects p added) (grows : p.GrowsTo q) :
    Fits effects q added := by
  obtain ⟨kind, id, valueKind, specific, action, addable, described, place⟩ := h
  exact ⟨kind, id, valueKind, specific, action, addable, described.mono (grows kind).definitions, place⟩

/-- A project that has grown is one of a state behind, in the same place. -/
theorem Onward.of_grown (property : d.property = c.property) (hc : c.project = some p)
    (hd : d.project = some q) (grows : p.GrowsTo q) : Onward c d := by
  refine ⟨property, fun none => ?_, fun r hr => ?_⟩
  · rw [hc] at none
    cases none
  · obtain rfl : p = r := Option.some.inj (hc.symm.trans hr)
    exact ⟨q, hd, grows⟩

namespace Context.Conforming

variable (h : c.Conforming effects)

include h

/-- Where a project has grown and conforms, so does the state. -/
theorem of_grown (extensions : d.extensions = c.extensions)
    (target : d.extendTarget = c.extendTarget) (hc : c.project = some p) (hd : d.project = some q)
    (grows : p.GrowsTo q) (hq : q.Conforms) : d.Conforming effects := by
  refine ⟨fun r hr => ?_, fun e he => ?_, target ▸ h.target⟩
  · obtain rfl : q = r := Option.some.inj (hd.symm.trans hr)
    exact hq
  · obtain ⟨r, hr, fits⟩ := h.extensions e (extensions ▸ he)
    obtain rfl : p = r := Option.some.inj (hc.symm.trans hr)
    -- what has been added before fits the schema still, since the schema has only grown
    exact ⟨q, hd, fits.mono grows⟩

/-- Where nothing about tasks and resources has changed, the state conforms as before, in the same
place. -/
theorem of_same (extensions : d.extensions = c.extensions) (property : d.property = c.property)
    (target : d.extendTarget = c.extendTarget)
    (sets : (d.project.map fun p => (p.tasks, p.resources)) =
      c.project.map fun p => (p.tasks, p.resources)) :
    d.Conforming effects ∧ Onward c d := by
  cases hc : c.project with
  | none =>
    rw [hc] at sets
    have none : d.project = none := Option.map_eq_none_iff.mp sets
    -- without a project nothing has been added to the grammar
    refine ⟨⟨fun q hq => ?_, fun e he => ?_, target ▸ h.target⟩, property, fun _ => none, fun p hp => ?_⟩
    · rw [none] at hq
      cases hq
    · obtain ⟨p, hp, -⟩ := h.extensions e (extensions ▸ he)
      rw [hc] at hp
      cases hp
    · rw [hc] at hp
      cases hp
  | some p =>
    rw [hc] at sets
    obtain ⟨q, hd, same⟩ := Option.map_eq_some_iff.mp sets
    have properties (kind : PropertyKind) : q.properties kind = p.properties kind := by
      cases kind
      · exact congrArg Prod.fst same
      · exact congrArg Prod.snd same
    have grows : p.GrowsTo q := fun kind => properties kind ▸ .refl _
    have conforms := h.project p hc
    have still : q.Conforms :=
      ⟨fun kind => properties kind ▸ conforms.sets kind,
        fun kind => properties kind ▸ conforms.builtin kind⟩
    exact ⟨h.of_grown extensions target hc hd grows still, .of_grown property hc hd grows⟩

end Context.Conforming

/-- What comes behind another state comes behind it still where nothing about tasks and resources has
changed since. -/
theorem Onward.of_same {b : Context} (onward : Onward b c) (h : c.Conforming effects)
    (extensions : d.extensions = c.extensions) (property : d.property = c.property)
    (target : d.extendTarget = c.extendTarget)
    (sets : (d.project.map fun p => (p.tasks, p.resources)) =
      c.project.map fun p => (p.tasks, p.resources)) :
    d.Conforming effects ∧ Onward b d := by
  obtain ⟨still, stays⟩ := h.of_same extensions property target sets
  exact ⟨still, onward.trans stays⟩

end

/-! ## Grammars -/

/-- The rules to which a plan can add attributes, with what the attributes belong to. -/
def bodyRules : List (String × PropertyKind) :=
  [("taskAttributes", .task), ("taskScenarioAttributes", .task), ("resourceAttributes", .resource),
    ("resourceScenarioAttributes", .resource)]

/-- Whether the rules of a grammar have some effects. -/
structure GrammarTable.Follows (t : GrammarTable) (effects : Effects) : Prop where
  patterns : ∀ id k e, effects id k = some e → ∀ p ∈ (t.rule id).patterns, p.effect? effects k = some e
  /-- What may be absent or be repeated has no effect on the place. -/
  stays : ∀ id k e, effects id k = some e →
    (t.rule id).optional = true ∨ (t.rule id).repeatable = true → e = .stay
  bodies : ∀ r ∈ bodyRules, ∀ id, t.ruleId? r.1 = some id → effects.OnlyIn r.2 id
  reference : ∀ id, t.ruleId? "referenceBody" = some id → ∀ k, effects id k = some .stay

end Planfile
