import Mathlib.Data.List.Nodup
import Planfile.Plan.Project

/-!
# Planfile — tasks and resources that conform to their schema

A schema says what attributes there are, and nothing checks a value against it when it is set. A set
of tasks or resources conforms to its schema if each value has an entry of its name and kind, in the
table that the entry asks for: that of the property, or those of its scenarios. Setting a value that
the schema describes keeps to it, and so does inheriting, because what is copied had an entry where it
came from.

A set grows by steps that leave every property where it is, below the parent that it had.

Main results:

* `PropertySet.Conforms.inheritAttributes`, `PropertySet.Conforms.define?` — inheriting and growing
  the schema keep to it.
* `PropertySet.Conforms.exists_definition` — every value that is stored has the entry that says where.
* `PropertySet.growsTo_inheritAttributes` — inheriting leaves properties in their places.
-/

namespace Planfile.Plan

variable {schema : List AttributeDefinition} {specific : Bool} {id : String} {value : AttributeValue}

/-- Whether a schema has an entry of a name and a kind, for values of scenarios or for others. -/
def Describes (schema : List AttributeDefinition) (specific : Bool) (id : String)
    (kind : AttributeKind) : Prop :=
  ∃ d ∈ schema, d.id = id ∧ d.kind = kind ∧ d.scenarioSpecific = specific

/-- A schema that grows still describes what it did. -/
theorem Describes.mono {more : List AttributeDefinition} {kind : AttributeKind}
    (h : Describes schema specific id kind) (sub : schema ⊆ more) :
    Describes more specific id kind := by
  obtain ⟨d, mem, entry⟩ := h
  exact ⟨d, sub mem, entry⟩

/-! ## Tables -/

/-- Whether each value of a table has an entry in a schema. -/
def AttributeTable.ConformsTo (schema : List AttributeDefinition) (specific : Bool)
    (t : AttributeTable) : Prop :=
  ∀ e ∈ t, Describes schema specific e.1 e.2.kind

namespace AttributeTable

/-- A value that is found is in the table. -/
theorem mem_of_get? {t : AttributeTable} (h : t.get? id = some value) : (id, value) ∈ t := by
  unfold get? at h
  obtain ⟨before, behind, rfl, -⟩ := List.lookup_eq_some_iff.mp h
  simp

/-- Setting a value brings that value, and no other. -/
theorem mem_set {t : AttributeTable} {e : String × AttributeValue} (h : e ∈ t.set id value) :
    e = (id, value) ∨ e ∈ t := by
  induction t with
  | nil => exact .inl (List.mem_singleton.mp h)
  | cons first rest ih =>
    obtain ⟨other, old⟩ := first
    rw [set] at h
    -- the value takes the place of the old one, or stands before it, or comes later
    split at h
    · rcases List.mem_cons.mp h with new | kept
      · exact .inl new
      · exact .inr (List.mem_cons_of_mem _ kept)
    · split at h
      · exact List.mem_cons.mp h
      · rcases List.mem_cons.mp h with kept | later
        · exact .inr (kept ▸ List.mem_cons_self)
        · exact (ih later).imp_right (List.mem_cons_of_mem _)

theorem ConformsTo.nil : ConformsTo schema specific [] := by
  intro e he
  cases he

/-- Setting a value that the schema describes keeps to it. -/
theorem ConformsTo.set {t : AttributeTable} (h : ConformsTo schema specific t)
    (hv : Describes schema specific id value.kind) : ConformsTo schema specific (t.set id value) := by
  intro e he
  rcases mem_set he with rfl | kept
  · exact hv
  · exact h e kept

/-- A value that is found has an entry. -/
theorem ConformsTo.describes {t : AttributeTable} (h : ConformsTo schema specific t)
    (found : t.get? id = some value) : Describes schema specific id value.kind :=
  h _ (mem_of_get? found)

theorem ConformsTo.mono {t : AttributeTable} (h : ConformsTo schema specific t)
    {more : List AttributeDefinition} (sub : schema ⊆ more) : ConformsTo more specific t :=
  fun e he => (h e he).mono sub

end AttributeTable

/-! ## Properties -/

namespace Property

/-- Whether the values of a property have entries in a schema that say where they are. -/
structure ConformsTo (schema : List AttributeDefinition) (p : Property) : Prop where
  plain : AttributeTable.ConformsTo schema false p.attributes
  scenarios : ∀ t ∈ p.scenarioAttributes, AttributeTable.ConformsTo schema true t

variable {p parent : Property}

theorem ConformsTo.mono (h : p.ConformsTo schema) {more : List AttributeDefinition}
    (sub : schema ⊆ more) : p.ConformsTo more :=
  ⟨h.plain.mono sub, fun t ht => (h.scenarios t ht).mono sub⟩

/-- Setting an attribute that has one value. -/
theorem ConformsTo.set (h : p.ConformsTo schema) (hv : Describes schema false id value.kind) :
    (p.set id value).ConformsTo schema :=
  ⟨h.plain.set hv, h.scenarios⟩

/-- Setting a value in the table of a scenario brings that value and no other. -/
theorem mem_setAt {tables : List AttributeTable} {index : Nat} {t : AttributeTable}
    (ht : t ∈ setAt index id value tables) {e : String × AttributeValue} (he : e ∈ t) :
    e = (id, value) ∨ ∃ old ∈ tables, e ∈ old := by
  induction tables generalizing index with
  | nil =>
    rw [setAt] at ht
    -- the scenarios in between get empty tables
    rcases List.mem_append.mp ht with empty | new
    · rw [(List.mem_replicate.mp empty).2] at he
      cases he
    · rw [List.mem_singleton.mp new] at he
      exact .inl (List.mem_singleton.mp he)
  | cons table rest ih =>
    have later (h : e = (id, value) ∨ ∃ old ∈ rest, e ∈ old) :
        e = (id, value) ∨ ∃ old ∈ table :: rest, e ∈ old := by
      rcases h with new | ⟨old, mem, there⟩
      · exact .inl new
      · exact .inr ⟨old, List.mem_cons_of_mem _ mem, there⟩
    cases index with
    | zero =>
      rcases List.mem_cons.mp ht with rfl | behind
      · exact (AttributeTable.mem_set he).imp_right fun old => ⟨table, List.mem_cons_self, old⟩
      · exact later (.inr ⟨t, behind, he⟩)
    | succ index =>
      rcases List.mem_cons.mp ht with rfl | behind
      · exact .inr ⟨t, List.mem_cons_self, he⟩
      · exact later (ih behind)

/-- Where the tables of all scenarios conform, they do after a value has been set in one of them,
those included that are only now there. -/
theorem conformsTo_setAt {tables : List AttributeTable} {index : Nat}
    (h : ∀ t ∈ tables, AttributeTable.ConformsTo schema true t)
    (hv : Describes schema true id value.kind) :
    ∀ t ∈ setAt index id value tables, AttributeTable.ConformsTo schema true t := by
  intro t ht e he
  rcases mem_setAt ht he with rfl | ⟨old, there, mem⟩
  · exact hv
  · exact h old there e mem

/-- Setting an attribute in a scenario. -/
theorem ConformsTo.setScenario (h : p.ConformsTo schema) (scenario : Nat)
    (hv : Describes schema true id value.kind) : (p.setScenario scenario id value).ConformsTo schema :=
  ⟨h.plain, conformsTo_setAt h.scenarios hv⟩

@[simp] theorem parent_set : (p.set id value).parent = p.parent := rfl

@[simp] theorem parent_setScenario (scenario : Nat) :
    (p.setScenario scenario id value).parent = p.parent := rfl

/-- What holds of a property and is kept by each value that is copied holds when it has inherited. -/
theorem inheritFrom_induction {motive : Property → Prop} (h : motive p)
    (plain : ∀ q id value, motive q → parent.get? id = some value → motive (q.set id value))
    (scenarios : ∀ q scenario t id value, motive q → parent.scenarioAttributes[scenario]? = some t →
      t.get? id = some value → motive (q.setScenario scenario id value))
    (definitions : List AttributeDefinition) : motive (p.inheritFrom parent definitions) := by
  unfold inheritFrom
  dsimp only
  generalize definitions.filter (·.inherit) = inherited
  refine List.foldlRecOn inherited _ ?_ fun q hq d _ => ?_
  · -- first the values of the property, one entry after the other
    refine List.foldlRecOn inherited _ h fun q hq d _ => ?_
    cases found : parent.get? d.id with
    | none => exact hq
    | some value => exact plain q d.id value hq found
  · -- then those of the scenarios, for each entry one table after the other
    refine List.foldlRecOn _ _ hq fun q hq e he => ?_
    have place : parent.scenarioAttributes[e.2]? = some e.1 := List.mem_zipIdx_iff_getElem?.mp he
    cases found : e.1.get? d.id with
    | none => exact hq
    | some value => exact scenarios q e.2 e.1 d.id value hq place found

/-- What is inherited had an entry where it came from. -/
theorem ConformsTo.inheritFrom (h : p.ConformsTo schema) (hp : parent.ConformsTo schema)
    (definitions : List AttributeDefinition) :
    (p.inheritFrom parent definitions).ConformsTo schema := by
  refine inheritFrom_induction h (fun q id value hq found => ?_)
    (fun q scenario t id value hq place found => ?_) definitions
  · exact hq.set (hp.plain.describes found)
  · have mem : t ∈ parent.scenarioAttributes := List.mem_of_getElem? place
    exact hq.setScenario scenario ((hp.scenarios t mem).describes found)

/-- Inheriting does not move a property. -/
theorem parent_inheritFrom (definitions : List AttributeDefinition) :
    (p.inheritFrom parent definitions).parent = p.parent := by
  refine inheritFrom_induction (motive := fun q => q.parent = p.parent) rfl ?_ ?_ definitions
  · intro q id value hq _
    exact hq
  · intro q scenario t id value hq _ _
    exact hq

/-- Inheriting gives no new id. -/
theorem id_inheritFrom (definitions : List AttributeDefinition) :
    (p.inheritFrom parent definitions).id = p.id := by
  refine inheritFrom_induction (motive := fun q => q.id = p.id) rfl ?_ ?_ definitions
  · intro q id value hq _
    exact hq
  · intro q scenario t id value hq _ _
    exact hq

/-- Whether a property has a value of a name, of its own or in a scenario. -/
def Stores (p : Property) (id : String) (value : AttributeValue) : Prop :=
  (id, value) ∈ p.attributes ∨ ∃ t ∈ p.scenarioAttributes, (id, value) ∈ t

/-- A property that is new stores nothing. -/
theorem not_stores_new {full name other : String} {parent : Option Nat} :
    ¬Stores ⟨full, name, parent, [], [], []⟩ other value := by
  rintro (plain | ⟨t, ht, -⟩)
  · cases plain
  · cases ht

/-- Setting an attribute stores its value, and no other. -/
theorem stores_set {other : String} {stored : AttributeValue} (h : (p.set id value).Stores other stored) :
    (other, stored) = (id, value) ∨ p.Stores other stored := by
  rcases h with plain | scenarios
  · exact (AttributeTable.mem_set plain).imp_right .inl
  · exact .inr (.inr scenarios)

/-- So does setting one in a scenario. -/
theorem stores_setScenario {scenario : Nat} {other : String} {stored : AttributeValue}
    (h : (p.setScenario scenario id value).Stores other stored) :
    (other, stored) = (id, value) ∨ p.Stores other stored := by
  rcases h with plain | ⟨t, ht, mem⟩
  · exact .inr (.inl plain)
  · exact (mem_setAt ht mem).imp_right fun old => .inr old

/-- What is inherited was stored where it came from. -/
theorem stores_inheritFrom {definitions : List AttributeDefinition} {other : String}
    {stored : AttributeValue} (h : (p.inheritFrom parent definitions).Stores other stored) :
    p.Stores other stored ∨ parent.Stores other stored := by
  -- by induction on the values that are copied
  revert h
  refine inheritFrom_induction (motive := fun q => q.Stores other stored → _) .inl ?_ ?_ definitions
  · intro q id value ih found h
    rcases stores_set h with copied | before
    · cases copied
      exact .inr (.inl (AttributeTable.mem_of_get? found))
    · exact ih before
  · intro q scenario t id value ih place found h
    rcases stores_setScenario h with copied | before
    · cases copied
      exact .inr (.inr ⟨t, List.mem_of_getElem? place, AttributeTable.mem_of_get? found⟩)
    · exact ih before

/-- Whether a property has a value of a name that is not one of a scenario. -/
def HasPlain (p : Property) (id : String) : Prop := ∃ value, (id, value) ∈ p.attributes

/-- Whether a property has a value of a name in a scenario. -/
def HasScenario (p : Property) (id : String) : Prop :=
  ∃ t ∈ p.scenarioAttributes, ∃ value, (id, value) ∈ t

end Property

/-! ## Sets -/

namespace PropertySet

/-- Whether a set conforms to its schema, in which no two entries have one id. -/
structure Conforms (s : PropertySet) : Prop where
  distinct : (s.definitions.map (·.id)).Nodup
  properties : ∀ p ∈ s.properties, p.ConformsTo s.definitions

/-- Whether one set comes from another by growing: its schema has at least the entries of before, and
every property is in its place, below the parent that it had. -/
structure GrowsTo (s t : PropertySet) : Prop where
  definitions : s.definitions ⊆ t.definitions
  kept : ∀ i p, s.get? i = some p → ∃ q, t.get? i = some q ∧ q.parent = p.parent

theorem GrowsTo.refl (s : PropertySet) : s.GrowsTo s :=
  ⟨List.Subset.refl _, fun _ p hp => ⟨p, hp, rfl⟩⟩

theorem GrowsTo.trans {s t u : PropertySet} (h : s.GrowsTo t) (ht : t.GrowsTo u) : s.GrowsTo u := by
  refine ⟨List.Subset.trans h.definitions ht.definitions, fun i p hp => ?_⟩
  obtain ⟨q, hq, same⟩ := h.kept i p hp
  obtain ⟨r, hr, still⟩ := ht.kept i q hq
  exact ⟨r, hr, still.trans same⟩

variable {s grown : PropertySet}

/-- A set starts with a schema that no property contradicts. -/
theorem conforms_empty (kind : PropertyKind) : (empty kind).Conforms := by
  refine ⟨?_, fun p hp => ?_⟩
  · cases kind <;> decide
  · cases Array.not_mem_empty p hp

/-- The properties of a set in which one has been changed are those of before, or that one. -/
theorem get?_modify (i j : Nat) (f : Property → Property) :
    (s.modify i f).get? j = if i = j then (s.get? j).map f else s.get? j :=
  Array.getElem?_modify

/-- A property is in a set if it is somewhere in it. -/
theorem mem_iff_get? {p : Property} : p ∈ s.properties ↔ ∃ i, s.get? i = some p :=
  Array.mem_iff_getElem?

/-- What holds of all properties holds still when one has been changed in a way that keeps it. -/
theorem forall_modify {motive : Property → Prop} (h : ∀ p ∈ s.properties, motive p) {i : Nat}
    {f : Property → Property} (hf : ∀ p ∈ s.properties, motive p → motive (f p)) :
    ∀ p ∈ (s.modify i f).properties, motive p := by
  intro p hp
  obtain ⟨j, found⟩ := mem_iff_get?.mp hp
  -- it is the one that has been changed, or another one
  rw [get?_modify] at found
  split at found
  · obtain ⟨q, hq, rfl⟩ := Option.map_eq_some_iff.mp found
    have mem : q ∈ s.properties := mem_iff_get?.mpr ⟨j, hq⟩
    exact hf q mem (h q mem)
  · exact h p (mem_iff_get?.mpr ⟨j, found⟩)

/-- Changing a property in a way that conforms. -/
theorem Conforms.modify (h : s.Conforms) {i : Nat} {f : Property → Property}
    (hf : ∀ p ∈ s.properties, p.ConformsTo s.definitions → (f p).ConformsTo s.definitions) :
    (s.modify i f).Conforms :=
  ⟨h.distinct, forall_modify h.properties hf⟩

/-- Changing a property in a way that leaves it below its parent. -/
theorem growsTo_modify {f : Property → Property} (hf : ∀ p, (f p).parent = p.parent) (i : Nat) :
    s.GrowsTo (s.modify i f) := by
  refine ⟨List.Subset.refl _, fun j p hp => ?_⟩
  rw [get?_modify, hp]
  split
  · exact ⟨f p, rfl, hf p⟩
  · exact ⟨p, rfl, rfl⟩

/-- The parent takes the new property as its child, and the others are the same. -/
def adopted (s : PropertySet) (parent : Option Nat) : PropertySet :=
  match parent with
  | some p => s.modify p fun q => { q with children := q.children ++ [s.properties.size] }
  | none => s

/-- A property that is added comes behind the others, and is entered in the index. -/
theorem append_eq (id name : String) (parent : Option Nat) :
    s.append id name parent = { s.adopted parent with
      properties := (s.adopted parent).properties.push ⟨id, name, parent, [], [], []⟩
      index := (id, s.length) :: s.index } := by
  unfold append adopted
  cases parent <;> rfl

theorem size_adopted (parent : Option Nat) :
    (s.adopted parent).properties.size = s.properties.size := by
  cases parent with
  | none => rfl
  | some p => exact Array.size_modify

theorem growsTo_adopted (parent : Option Nat) : s.GrowsTo (s.adopted parent) := by
  cases parent with
  | none => exact .refl s
  | some p =>
    refine growsTo_modify (fun q => ?_) p
    rfl

/-- What holds of all properties holds still when one has been added, if children do not matter to it and
it holds of one without values. -/
theorem forall_append {motive : Property → Prop} (h : ∀ p ∈ s.properties, motive p) {id name : String}
    {parent : Option Nat} (adopts : ∀ p children, motive p → motive { p with children })
    (new : motive ⟨id, name, parent, [], [], []⟩) :
    ∀ p ∈ (s.append id name parent).properties, motive p := by
  have before : ∀ p ∈ (s.adopted parent).properties, motive p := by
    cases parent with
    | none => exact h
    | some index => exact forall_modify h fun p _ hp => adopts p _ hp
  rw [append_eq]
  intro p hp
  rcases Array.mem_push.mp hp with old | rfl
  · exact before p old
  · exact new

theorem growsTo_append (id name : String) (parent : Option Nat) :
    s.GrowsTo (s.append id name parent) := by
  refine (growsTo_adopted parent).trans ?_
  rw [append_eq]
  refine ⟨List.Subset.refl _, fun i p hp => ⟨p, ?_, rfl⟩⟩
  -- what is in the set has a place before the end
  have inside : i < (s.adopted parent).properties.size := (Array.getElem?_eq_some_iff.mp hp).1
  show ((s.adopted parent).properties.push _)[i]? = some p
  rw [Array.getElem?_push, if_neg (Nat.ne_of_lt inside)]
  exact hp

theorem definitions_append (id name : String) (parent : Option Nat) :
    (s.append id name parent).definitions = s.definitions := by
  unfold append
  cases parent <;> rfl

/-- A new property has no values, and so nothing that the schema does not have. -/
theorem Conforms.append (h : s.Conforms) (id name : String) (parent : Option Nat) :
    (s.append id name parent).Conforms := by
  refine ⟨?_, ?_⟩
  · rw [definitions_append]
    exact h.distinct
  · rw [definitions_append]
    exact forall_append h.properties (fun p _ hp => ⟨hp.plain, hp.scenarios⟩)
      ⟨.nil, fun t ht => by cases ht⟩

/-- The new property is at the end. -/
theorem get?_append_length (id name : String) (parent : Option Nat) :
    (s.append id name parent).get? s.length = some ⟨id, name, parent, [], [], []⟩ := by
  rw [append_eq, length, ← size_adopted parent]
  exact Array.getElem?_push_size

/-- What is added is added at the end, under its full id. -/
theorem eq_append_of_add? {id name : String} {parent : Option Nat}
    (h : s.add? id name parent = .ok grown) : grown = s.append (s.fullId id parent) name parent := by
  unfold add? at h
  dsimp only at h
  split at h
  · cases h
  · cases h
    rfl

theorem growsTo_inheritAttributes (i : Nat) : s.GrowsTo (s.inheritAttributes i) := by
  unfold inheritAttributes
  split
  · exact .refl s
  · split
    · exact .refl s
    · exact growsTo_modify (fun _ => Property.parent_inheritFrom _) i

/-- What holds of all properties and is inherited holds when one has inherited. -/
theorem forall_inheritAttributes {motive : Property → Prop} (h : ∀ p ∈ s.properties, motive p) {i : Nat}
    (hf : ∀ p parent, motive p → motive parent → motive (p.inheritFrom parent s.definitions)) :
    ∀ p ∈ (s.inheritAttributes i).properties, motive p := by
  unfold PropertySet.inheritAttributes
  split
  · exact h
  · split
    · exact h
    · rename_i parent found
      have mem : parent ∈ s.properties := mem_iff_get?.mpr ⟨_, found⟩
      exact forall_modify h fun p _ hp => hf p parent hp (h parent mem)

theorem definitions_inheritAttributes (i : Nat) :
    (s.inheritAttributes i).definitions = s.definitions := by
  unfold inheritAttributes
  split
  · rfl
  · split <;> rfl

/-- Inheriting keeps to the schema. -/
theorem Conforms.inheritAttributes (h : s.Conforms) (i : Nat) : (s.inheritAttributes i).Conforms := by
  refine ⟨?_, ?_⟩
  · rw [definitions_inheritAttributes]
    exact h.distinct
  · rw [definitions_inheritAttributes]
    exact forall_inheritAttributes h.properties fun p parent hp hparent => hp.inheritFrom hparent _

/-- A schema grows by an entry with an id that it does not have. -/
theorem definitions_of_define? {d : AttributeDefinition} (h : s.define? d = .ok grown) :
    (∀ other ∈ s.definitions, other.id ≠ d.id) ∧
      grown = { s with definitions := s.definitions ++ [d] } := by
  unfold define? at h
  split at h
  · cases h
  · rename_i fresh
    cases h
    refine ⟨fun other mem same => ?_, rfl⟩
    have differs := List.find?_eq_none.mp fresh other mem
    exact differs (beq_iff_eq.mpr same)

theorem growsTo_define? {d : AttributeDefinition} (h : s.define? d = .ok grown) :
    s.GrowsTo grown := by
  obtain ⟨-, rfl⟩ := definitions_of_define? h
  exact ⟨List.subset_append_left _ _, fun _ p hp => ⟨p, hp, rfl⟩⟩

/-- Growing the schema leaves ids distinct, and every value its entry. -/
theorem Conforms.define? (h : s.Conforms) {d : AttributeDefinition}
    (added : s.define? d = .ok grown) : grown.Conforms := by
  obtain ⟨fresh, rfl⟩ := definitions_of_define? added
  refine ⟨?_, fun p hp => (h.properties p hp).mono (List.subset_append_left _ _)⟩
  show ((s.definitions ++ [d]).map (·.id)).Nodup
  rw [List.map_append, List.nodup_append]
  refine ⟨h.distinct, List.nodup_singleton _, fun id hid other hother => ?_⟩
  obtain ⟨entry, mem, rfl⟩ := List.mem_map.mp hid
  rw [List.mem_singleton.mp hother]
  exact fresh entry mem

/-- The entry of a name is the only one. -/
theorem Conforms.eq_of_id (h : s.Conforms) {d e : AttributeDefinition} (hd : d ∈ s.definitions)
    (he : e ∈ s.definitions) (same : d.id = e.id) : d = e :=
  List.inj_on_of_nodup_map h.distinct hd he same

/-- Every value that is stored has an entry of its name and kind, and it is where the entry says:
among the values of scenarios if the entry is for these, and else not. -/
theorem Conforms.exists_definition (h : s.Conforms) {p : Property} (hp : p ∈ s.properties)
    {id : String} {value : AttributeValue} (stored : p.Stores id value) :
    ∃ d ∈ s.definitions, d.id = id ∧ d.kind = value.kind ∧
      (p.HasPlain id ↔ d.scenarioSpecific = false) ∧
      (p.HasScenario id ↔ d.scenarioSpecific = true) := by
  have conforms := h.properties p hp
  -- wherever there is a value of the name, the one entry of the name asks for it there
  have placed {d : AttributeDefinition} (hd : d ∈ s.definitions) {specific : Bool}
      {kind : AttributeKind} (described : Describes s.definitions specific d.id kind) :
      d.kind = kind ∧ d.scenarioSpecific = specific := by
    obtain ⟨e, he, same, rfl, rfl⟩ := described
    rw [h.eq_of_id hd he same.symm]
    exact ⟨rfl, rfl⟩
  have plain {d : AttributeDefinition} (hd : d ∈ s.definitions) :
      p.HasPlain d.id → d.scenarioSpecific = false := by
    rintro ⟨other, mem⟩
    exact (placed hd (conforms.plain _ mem)).2
  have scenarios {d : AttributeDefinition} (hd : d ∈ s.definitions) :
      p.HasScenario d.id → d.scenarioSpecific = true := by
    rintro ⟨t, ht, other, mem⟩
    exact (placed hd (conforms.scenarios t ht _ mem)).2
  -- the value has an entry where it is, so it can be nowhere else
  rcases stored with mem | ⟨t, ht, mem⟩
  · obtain ⟨d, hd, rfl, kind, general⟩ := conforms.plain _ mem
    refine ⟨d, hd, rfl, kind, ⟨plain hd, fun _ => ⟨value, mem⟩⟩, ⟨scenarios hd, fun specific => ?_⟩⟩
    rw [general] at specific
    cases specific
  · obtain ⟨d, hd, rfl, kind, specific⟩ := conforms.scenarios t ht _ mem
    refine ⟨d, hd, rfl, kind, ⟨plain hd, fun general => ?_⟩, scenarios hd,
      fun _ => ⟨t, ht, value, mem⟩⟩
    rw [specific] at general
    cases general

end PropertySet

/-! ## Projects -/

namespace Project

/-- Whether tasks and resources conform to their schemas, which have the entries that every project
starts with. -/
structure Conforms (p : Project) : Prop where
  sets : ∀ kind, (p.properties kind).Conforms
  builtin : ∀ kind, builtinDefinitions kind ⊆ (p.properties kind).definitions

/-- Whether tasks and resources come from others by growing. -/
def GrowsTo (p q : Project) : Prop := ∀ kind, (p.properties kind).GrowsTo (q.properties kind)

theorem GrowsTo.trans {p q r : Project} (h : p.GrowsTo q) (hq : q.GrowsTo r) : p.GrowsTo r :=
  fun kind => (h kind).trans (hq kind)

variable {p : Project}

/-- Replacing the tasks leaves the resources, and the other way round. -/
theorem properties_setProperties (kind other : PropertyKind) (s : PropertySet) :
    (p.setProperties kind s).properties other = if kind = other then s else p.properties other := by
  cases kind <;> cases other <;> rfl

theorem conforms_initial (id name version : String) (time : Calendar.Interval) :
    (initial id name version time).Conforms := by
  refine ⟨fun kind => ?_, fun kind => ?_⟩
  · cases kind
    · exact PropertySet.conforms_empty .task
    · exact PropertySet.conforms_empty .resource
  · cases kind <;> exact List.Subset.refl _

/-- Where tasks or resources have grown, the project has. -/
theorem growsTo_setProperties {kind : PropertyKind} {s : PropertySet}
    (h : (p.properties kind).GrowsTo s) : p.GrowsTo (p.setProperties kind s) := by
  intro other
  rw [properties_setProperties]
  split
  · next same => exact same ▸ h
  · exact .refl _

/-- Tasks or resources that have grown and conform can take the place of those of before. -/
theorem Conforms.setProperties (h : p.Conforms) {kind : PropertyKind} {s : PropertySet}
    (grows : (p.properties kind).GrowsTo s) (hs : s.Conforms) : (p.setProperties kind s).Conforms := by
  refine ⟨fun other => ?_, fun other =>
    List.Subset.trans (h.builtin other) (growsTo_setProperties grows other).definitions⟩
  rw [properties_setProperties]
  split
  · exact hs
  · exact h.sets other

end Project

end Planfile.Plan
