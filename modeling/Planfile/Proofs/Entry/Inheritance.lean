import Mathlib.Data.String.Basic
import Planfile.Proofs.Entry.Tree
import Planfile.Proofs.Extension.Usage

/-!
# Planfile — values that children start with

A task or a resource has one table of values of its own, and one for each scenario, which is made when a value
is first set in it. To inherit is to set values one after the other: for each inheritable attribute of the
schema that of the parent, in each table of the parent that has one. All of them come from the parent, so that
where two are set in one place, which happens if a schema has two entries of one name, they are the same. So it
does not matter in which order values are set, and each of them is found in the end.

That inheriting again changes nothing is more than that the same values are found: a value that is set stands
behind smaller names only, and so it is set again where it is.

Main results:

* `Property.inheritFrom_eq_storeAll` — to inherit is to set values one after the other.
* `Property.stored?_inheritFrom` — which value is found where, when an entry has inherited.
* `Property.inheritFrom_again` — inheriting again changes nothing.
* `PropertySet.inherits` — inheriting within a set of tasks or of resources.
-/

namespace Planfile.Plan

/-- Whether a schema says that children start with the value of their parent. -/
def inheritable (definitions : List AttributeDefinition) (id : String) : Bool :=
  definitions.any fun d => d.id == id && d.inherit

variable {id name : String} {value stored : AttributeValue}

/-! ## Tables -/

namespace AttributeTable

variable {t : AttributeTable}

/-- Whether a name has a value in a table, behind smaller names only. -/
def Settled (t : AttributeTable) (id : String) (value : AttributeValue) : Prop :=
  ∃ before behind, t = before ++ (id, value) :: behind ∧ ∀ e ∈ before, e.1 < id

/-- A value is set behind smaller names only. -/
theorem settled_set (t : AttributeTable) (id : String) (value : AttributeValue) :
    (t.set id value).Settled id value := by
  induction t with
  | nil => exact ⟨[], [], rfl, List.forall_mem_nil _⟩
  | cons entry rest ih =>
    obtain ⟨other, old⟩ := entry
    rw [set]
    split
    · exact ⟨[], rest, rfl, List.forall_mem_nil _⟩
    · next differs =>
      split
      · exact ⟨[], (other, old) :: rest, rfl, List.forall_mem_nil _⟩
      · next larger =>
        obtain ⟨before, behind, parts, smaller⟩ := ih
        have first : other < id := lt_of_le_of_ne (not_lt.mp larger) (Ne.symm differs)
        refine ⟨(other, old) :: before, behind, by rw [parts]; rfl, fun e he => ?_⟩
        rcases List.mem_cons.mp he with rfl | mem
        · exact first
        · exact smaller e mem

namespace Settled

/-- Setting the value of another name leaves it there. -/
theorem set_ne (h : t.Settled id value) (differs : name ≠ id) : (t.set name stored).Settled id value := by
  obtain ⟨before, behind, rfl, smaller⟩ := h
  -- the other name comes somewhere in front of it, where names are smaller, or behind it
  induction before with
  | nil =>
    rw [List.nil_append, set, if_neg differs]
    split
    · next less => exact ⟨[(name, stored)], behind, rfl, fun e he => List.mem_singleton.mp he ▸ less⟩
    · exact ⟨[], _, rfl, List.forall_mem_nil _⟩
  | cons entry before ih =>
    obtain ⟨other, old⟩ := entry
    obtain ⟨first, others⟩ := List.forall_mem_cons.mp smaller
    rw [List.cons_append, set]
    split
    · next same => exact ⟨(name, stored) :: before, behind, rfl, List.forall_mem_cons.mpr ⟨same ▸ first, others⟩⟩
    · split
      · next less =>
        exact ⟨(name, stored) :: (other, old) :: before, behind, rfl,
          List.forall_mem_cons.mpr ⟨lt_trans less first, smaller⟩⟩
      · obtain ⟨before', behind', parts, smaller'⟩ := ih others
        exact ⟨(other, old) :: before', behind', by rw [parts]; rfl, List.forall_mem_cons.mpr ⟨first, smaller'⟩⟩

/-- Setting it again changes nothing. -/
theorem set_self (h : t.Settled id value) : t.set id value = t := by
  obtain ⟨before, behind, rfl, smaller⟩ := h
  induction before with
  | nil => simp [set]
  | cons entry before ih =>
    obtain ⟨other, old⟩ := entry
    obtain ⟨first, others⟩ := List.forall_mem_cons.mp smaller
    rw [List.cons_append, set, if_neg (ne_of_gt first), if_neg (lt_asymm first), ih others]

/-- It is the value that is found. -/
theorem get?_eq (h : t.Settled id value) : t.get? id = some value := by
  rw [← h.set_self]
  exact get?_set_self t id value

end Settled

end AttributeTable

/-! ## Entries -/

namespace Property

variable {q parent : Property} {scenario other : Option Nat}

/-- The table of a scenario, or, where no scenario is given, the one for all of them. -/
def table (q : Property) : Option Nat → AttributeTable
  | none => q.attributes
  | some scenario => q.scenarioAttributes[scenario]?.getD []

theorem stored?_eq (q : Property) (scenario : Option Nat) (id : String) :
    q.stored? scenario id = (q.table scenario).get? id := by
  cases scenario with
  | none => rfl
  | some scenario => exact q.getScenario?_eq scenario id

/-- A value is set in the table of its scenario. -/
theorem table_store_self (q : Property) (scenario : Option Nat) (id : String) (value : AttributeValue) :
    (q.store scenario id value).table scenario = (q.table scenario).set id value := by
  cases scenario with
  | none => rfl
  | some scenario =>
    show ((setAt scenario id value q.scenarioAttributes)[scenario]?).getD [] = _
    rw [getElem?_setAt_self]
    rfl

/-- It is not set in another table. -/
theorem table_store_ne (q : Property) (differs : other ≠ scenario) (id : String) (value : AttributeValue) :
    (q.store scenario id value).table other = q.table other := by
  cases scenario with
  | none =>
    cases other with
    | none => exact absurd rfl differs
    | some other => rfl
  | some scenario =>
    cases other with
    | none => rfl
    | some other => exact getElem?_setAt_ne (fun same => differs (congrArg some same)) _ _ _

/-- Where a value is, setting it again changes no table. -/
theorem setAt_of_settled {tables : List AttributeTable} {index : Nat}
    (h : (tables[index]?.getD []).Settled id value) : setAt index id value tables = tables := by
  induction tables generalizing index with
  | nil =>
    obtain ⟨before, behind, parts, -⟩ := h
    exact absurd parts.symm (by simp)
  | cons table rest ih =>
    cases index with
    | zero => exact congrArg (· :: rest) h.set_self
    | succ index => exact congrArg (table :: ·) (ih h)

theorem store_of_settled (h : (q.table scenario).Settled id value) : q.store scenario id value = q := by
  cases scenario with
  | none => exact congrArg (fun t => { q with attributes := t }) h.set_self
  | some scenario => exact congrArg (fun ts => { q with scenarioAttributes := ts }) (setAt_of_settled h)

/-- A value that is set stays where it is when another one is set. -/
theorem settled_store_ne (h : (q.table scenario).Settled id value)
    (differs : ¬(scenario = other ∧ id = name)) :
    ((q.store other name stored).table scenario).Settled id value := by
  by_cases same : scenario = other
  · subst same
    rw [table_store_self]
    exact h.set_ne fun named => differs ⟨rfl, named.symm⟩
  · rwa [table_store_ne q same]

/-! ## Several values -/

/-- Sets values one after the other. -/
def storeAll (q : Property) (values : List (Option Nat × String × AttributeValue)) : Property :=
  values.foldl (fun q w => q.store w.1 w.2.1 w.2.2) q

variable {values : List (Option Nat × String × AttributeValue)}

/-- Where no value is set, the one of before is found. -/
theorem stored?_storeAll_of_not_mem (h : ∀ value, (scenario, id, value) ∉ values) :
    (q.storeAll values).stored? scenario id = q.stored? scenario id := by
  induction values generalizing q with
  | nil => rfl
  | cons w rest ih =>
    obtain ⟨other, name, stored⟩ := w
    have elsewhere : ¬(scenario = other ∧ id = name) := by
      rintro ⟨rfl, rfl⟩
      exact h stored List.mem_cons_self
    calc ((q.store other name stored).storeAll rest).stored? scenario id
        = (q.store other name stored).stored? scenario id :=
          ih fun value mem => h value (List.mem_cons_of_mem _ mem)
      _ = q.stored? scenario id := stored?_store_ne q stored elsewhere

/-- Where values that are set in one place are the same, each of them is there in the end. -/
theorem settled_storeAll (found : Option Nat → String → Option AttributeValue)
    (agree : ∀ w ∈ values, found w.1 w.2.1 = some w.2.2) (mem : (scenario, id, value) ∈ values) :
    ((q.storeAll values).table scenario).Settled id value := by
  have kept {rest : List (Option Nat × String × AttributeValue)} {q : Property}
      (agree : ∀ w ∈ rest, found w.1 w.2.1 = some w.2.2) (here : found scenario id = some value)
      (h : (q.table scenario).Settled id value) : ((q.storeAll rest).table scenario).Settled id value := by
    induction rest generalizing q with
    | nil => exact h
    | cons w rest ih =>
      obtain ⟨other, name, stored⟩ := w
      obtain ⟨first, others⟩ := List.forall_mem_cons.mp agree
      refine ih others ?_
      by_cases same : scenario = other ∧ id = name
      · -- what is set in its place is this value again
        obtain ⟨rfl, rfl⟩ := same
        obtain rfl := Option.some.inj (here.symm.trans first)
        dsimp only
        rwa [store_of_settled h]
      · exact settled_store_ne h same
  induction values generalizing q with
  | nil => cases mem
  | cons w rest ih =>
    obtain ⟨first, others⟩ := List.forall_mem_cons.mp agree
    rcases List.mem_cons.mp mem with rfl | later
    · have here : ((q.store scenario id value).table scenario).Settled id value := by
        rw [table_store_self]
        exact AttributeTable.settled_set _ _ _
      have there : (((q.store scenario id value).storeAll rest).table scenario).Settled id value :=
        kept others first here
      exact there
    · exact ih others later

/-- Where all values are there, setting them changes nothing. -/
theorem storeAll_of_settled (h : ∀ w ∈ values, (q.table w.1).Settled w.2.1 w.2.2) : q.storeAll values = q := by
  induction values with
  | nil => rfl
  | cons w rest ih =>
    obtain ⟨first, others⟩ := List.forall_mem_cons.mp h
    have same : q.store w.1 w.2.1 w.2.2 = q := store_of_settled first
    show (q.store w.1 w.2.1 w.2.2).storeAll rest = q
    rw [same]
    exact ih others

/-! ## Inheriting -/

/-- What is inherited: the values of the parent that it has for all scenarios, then those that it has for one. -/
def bequest (parent : Property) (definitions : List AttributeDefinition) :
    List (Option Nat × String × AttributeValue) :=
  let inherited := definitions.filter (·.inherit)
  inherited.filterMap (fun d => (parent.get? d.id).map fun value => (none, d.id, value)) ++
    inherited.flatMap fun d => parent.scenarioAttributes.zipIdx.filterMap fun (table, scenario) =>
      (table.get? d.id).map fun value => (some scenario, d.id, value)

/-- To inherit is to set values one after the other. -/
theorem inheritFrom_eq_storeAll (q parent : Property) (definitions : List AttributeDefinition) :
    q.inheritFrom parent definitions = q.storeAll (parent.bequest definitions) := by
  rw [storeAll, bequest, List.foldl_append, List.foldl_filterMap, List.foldl_flatMap, inheritFrom]
  congr 1
  · funext q d
    rw [List.foldl_filterMap]
    congr 1
    funext q ⟨table, scenario⟩
    dsimp only
    cases table.get? d.id <;> rfl
  · congr 1
    funext q d
    cases parent.get? d.id <;> rfl

/-- What is inherited are the values of the parent for inheritable attributes, in each table. -/
theorem mem_bequest (parent : Property) (definitions : List AttributeDefinition) (scenario : Option Nat)
    (id : String) (value : AttributeValue) : (scenario, id, value) ∈ parent.bequest definitions ↔
      inheritable definitions id = true ∧ parent.stored? scenario id = some value := by
  have listed : inheritable definitions id = true ↔ ∃ d ∈ definitions.filter (·.inherit), d.id = id := by
    simp only [inheritable, List.any_eq_true, List.mem_filter, Bool.and_eq_true, beq_iff_eq]
    exact exists_congr fun d => by tauto
  rw [listed, bequest, List.mem_append, List.mem_filterMap, List.mem_flatMap]
  simp only [List.mem_filterMap, Option.map_eq_some_iff, Prod.mk.injEq, Prod.exists]
  constructor
  · rintro (⟨d, mem, _, found, rfl, rfl, rfl⟩ | ⟨d, mem, table, index, place, _, found, rfl, rfl, rfl⟩)
    · exact ⟨⟨d, mem, rfl⟩, found⟩
    · refine ⟨⟨d, mem, rfl⟩, ?_⟩
      have there : parent.scenarioAttributes[index]? = some table := List.mem_zipIdx_iff_getElem?.mp place
      show (parent.scenarioAttributes[index]?).bind _ = _
      rw [there]
      exact found
  · rintro ⟨⟨d, mem, rfl⟩, found⟩
    cases scenario with
    | none => exact .inl ⟨d, mem, value, found, rfl, rfl, rfl⟩
    | some index =>
      obtain ⟨table, there, found⟩ := Option.bind_eq_some_iff.mp found
      exact .inr ⟨d, mem, table, index, List.mem_zipIdx_iff_getElem?.mpr there, value, found, rfl, rfl, rfl⟩

/-- What is inherited is there in the end. -/
theorem settled_inheritFrom (q : Property) {definitions : List AttributeDefinition}
    (inherits : inheritable definitions id = true) (found : parent.stored? scenario id = some value) :
    ((q.inheritFrom parent definitions).table scenario).Settled id value := by
  rw [inheritFrom_eq_storeAll]
  refine settled_storeAll parent.stored? (fun w mem => ?_) ?_
  · exact ((mem_bequest parent definitions w.1 w.2.1 w.2.2).mp mem).2
  · exact (mem_bequest parent definitions scenario id value).mpr ⟨inherits, found⟩

/-- The value of the parent is found where the attribute is inheritable and the parent has one, and anywhere else
the one of before. -/
theorem stored?_inheritFrom (q parent : Property) (definitions : List AttributeDefinition)
    (scenario : Option Nat) (id : String) : (q.inheritFrom parent definitions).stored? scenario id =
      if inheritable definitions id then (parent.stored? scenario id).or (q.stored? scenario id)
      else q.stored? scenario id := by
  have kept (h : ¬(inheritable definitions id = true ∧ ∃ value, parent.stored? scenario id = some value)) :
      (q.inheritFrom parent definitions).stored? scenario id = q.stored? scenario id := by
    rw [inheritFrom_eq_storeAll]
    refine stored?_storeAll_of_not_mem fun value mem => h ?_
    obtain ⟨inherits, found⟩ := (mem_bequest parent definitions scenario id value).mp mem
    exact ⟨inherits, value, found⟩
  split
  · next inherits =>
    cases found : parent.stored? scenario id with
    | none => exact kept fun ⟨_, value, other⟩ => by simp [found] at other
    | some value =>
      rw [stored?_eq]
      exact (settled_inheritFrom q inherits found).get?_eq
  · next not_inherits => exact kept fun ⟨inherits, _⟩ => not_inherits inherits

/-- Inheriting again changes nothing, from the same parent or from one that has no other values. -/
theorem inheritFrom_again (q : Property) {parent : Property} (again : Property)
    {definitions : List AttributeDefinition}
    (same : ∀ scenario id, again.stored? scenario id = parent.stored? scenario id) :
    (q.inheritFrom parent definitions).inheritFrom again definitions = q.inheritFrom parent definitions := by
  rw [inheritFrom_eq_storeAll _ again]
  refine storeAll_of_settled fun w mem => ?_
  obtain ⟨inherits, found⟩ := (mem_bequest again definitions w.1 w.2.1 w.2.2).mp mem
  exact settled_inheritFrom q inherits ((same _ _).symm.trans found)

/-- What inherits from itself has the values of before. -/
theorem stored?_inheritFrom_self (q : Property) (definitions : List AttributeDefinition)
    (scenario : Option Nat) (id : String) :
    (q.inheritFrom q definitions).stored? scenario id = q.stored? scenario id := by
  rw [stored?_inheritFrom]
  split
  · cases q.stored? scenario id <;> rfl
  · rfl

/-- What is there of an entry besides its values. -/
theorem heading_children_inheritFrom (q parent : Property) (definitions : List AttributeDefinition) :
    (q.inheritFrom parent definitions).heading = q.heading ∧
      (q.inheritFrom parent definitions).children = q.children := by
  refine ⟨q.heading_inheritFrom parent definitions, ?_⟩
  exact congrArg (·.2.2) (q.links_inheritFrom parent definitions)

end Property

/-! ## Sets -/

namespace PropertySet

variable {s : PropertySet} {i k : Nat} {q parent : Property}

/-- An entry inherits from its parent. -/
theorem inheritAttributes_eq (entry : s.get? i = some q) (above : q.parent = some k)
    (there : s.get? k = some parent) :
    s.inheritAttributes i = s.modify i (·.inheritFrom parent s.definitions) := by
  simp [inheritAttributes, entry, above, there]

theorem get?_inheritAttributes (entry : s.get? i = some q) (above : q.parent = some k)
    (there : s.get? k = some parent) :
    (s.inheritAttributes i).get? i = some (q.inheritFrom parent s.definitions) := by
  rw [inheritAttributes_eq entry above there, get?_modify, if_pos rfl, entry, Option.map_some]

/-- Inheriting again changes nothing. -/
theorem inheritAttributes_again (entry : s.get? i = some q) (above : q.parent = some k)
    (there : s.get? k = some parent) : (s.inheritAttributes i).inheritAttributes i = s.inheritAttributes i := by
  have inherited := get?_inheritAttributes entry above there
  have still : (q.inheritFrom parent s.definitions).parent = some k :=
    (Property.parent_inheritFrom s.definitions).trans above
  -- the parent has the values that it had, also where it is the entry itself
  obtain ⟨again, there', same⟩ : ∃ again, (s.inheritAttributes i).get? k = some again ∧
      ∀ scenario id, again.stored? scenario id = parent.stored? scenario id := by
    by_cases own : i = k
    · subst own
      obtain rfl := Option.some.inj (entry.symm.trans there)
      exact ⟨_, inherited, q.stored?_inheritFrom_self s.definitions⟩
    · exact ⟨parent, (get?_inheritAttributes_ne own).trans there, fun _ _ => rfl⟩
  rw [inheritAttributes_eq inherited still there', definitions_inheritAttributes]
  have unchanged : ∀ j, ((s.inheritAttributes i).modify i (·.inheritFrom again s.definitions)).get? j =
      (s.inheritAttributes i).get? j := by
    intro j
    rw [get?_modify]
    split
    · next own =>
      subst own
      rw [inherited, Option.map_some, Property.inheritFrom_again q again same]
    · rfl
  exact congrArg (fun ps => { s.inheritAttributes i with properties := ps }) (Array.ext_getElem? unchanged)

/-- Whether a set has come from another one in that an entry has got the values of its parent for inheritable
attributes, in each table in which the parent has one, while nothing else has changed. To inherit again would
change nothing. -/
structure Inherited (s : PropertySet) (i : Nat) (q parent : Property) (t : PropertySet) : Prop where
  entry : ∃ r, t.get? i = some r ∧ r.heading = q.heading ∧ r.children = q.children ∧
    ∀ scenario id, r.stored? scenario id =
      if inheritable s.definitions id then (parent.stored? scenario id).or (q.stored? scenario id)
      else q.stored? scenario id
  others : ∀ j, j ≠ i → t.get? j = s.get? j
  length : t.length = s.length
  kind : t.kind = s.kind
  definitions : t.definitions = s.definitions
  again : t.inheritAttributes i = t

/-- To inherit is nothing else. -/
theorem inherits (entry : s.get? i = some q) (above : q.parent = some k) (there : s.get? k = some parent) :
    s.Inherited i q parent (s.inheritAttributes i) where
  entry := by
    obtain ⟨heading, children⟩ := q.heading_children_inheritFrom parent s.definitions
    exact ⟨_, get?_inheritAttributes entry above there, heading, children,
      q.stored?_inheritFrom parent s.definitions⟩
  others j other := get?_inheritAttributes_ne (Ne.symm other)
  length := length_inheritAttributes s i
  kind := by
    rw [inheritAttributes_eq entry above there]
    rfl
  definitions := definitions_inheritAttributes i
  again := inheritAttributes_again entry above there

/-- A new entry starts with the values of the one above for inheritable attributes, and with no others. -/
theorem exists_inherited_of_add? {grown : PropertySet} {above : Option Nat}
    (added : s.add? id name above = .ok grown) (inside : ∀ k ∈ above, k < s.length) :
    ∃ r, (grown.inheritAttributes s.length).get? s.length = some r ∧ r.parent = above ∧
      ∀ scenario id, r.stored? scenario id = (above.bind s.get?).bind fun parent =>
        if inheritable s.definitions id then parent.stored? scenario id else none := by
  obtain rfl := eq_append_of_add? added
  generalize s.fullId id above = full
  have entry := get?_append_length (s := s) full name above
  have nothing (scenario : Option Nat) (id : String) :
      (⟨full, name, above, [], [], []⟩ : Property).stored? scenario id = none := by
    cases scenario <;> rfl
  cases above with
  | none =>
    refine ⟨_, ?_, rfl, nothing⟩
    rw [inheritAttributes, entry]
    exact entry
  | some k =>
    have before : k < s.length := inside k rfl
    obtain ⟨parent, there⟩ : ∃ parent, s.get? k = some parent := ⟨_, Array.getElem?_eq_getElem before⟩
    -- it has taken the new entry as a child, and its values are those of before
    have adopts : (s.append full name (some k)).get? k =
        some { parent with children := parent.children ++ [s.length] } := by
      rw [get?_append_of_lt before, get?_adopted, there, Option.map_some, if_pos rfl]
    refine ⟨_, get?_inheritAttributes entry rfl adopts, Property.parent_inheritFrom _, fun scenario id => ?_⟩
    rw [Property.stored?_inheritFrom, nothing, definitions_append, Option.bind_some, there, Option.bind_some,
      Option.or_none]
    cases scenario <;> rfl

end PropertySet

end Planfile.Plan
