import Planfile.Proofs.Schema.Conformance

/-!
# Planfile — what is new below an entry

Tasks and resources are kept in sequences, in which what is new comes behind all others. What stands in the
body of an entry changes this entry and adds others below it. What a statement adds is one entry, together
with all that its body adds below that one; of the entries before only the one above the statement changes,
in that it gets one more child.

Where an entry is the index says, which is kept beside the sequence. It is right as long as what is added
is entered and no id changes afterwards.

Main results:

* `adds_of_add?` — a header adds an entry.
* `Adds.amended`, `Adds.amends` — an entry is added with all that is in its body, and this is a change of
  the entry above.
* `PropertySet.Indexed.add?`, `PropertySet.Indexed.modify` and their like — the index stays right.
-/

namespace Planfile.Plan

variable {i : Nat} {above : Option Nat} {s t u : Array Property}

/-! ## Changes below an entry -/

/-- Whether on the way from one sequence to another nothing has changed but one entry, which is where it was,
and whether all that is new is below it. -/
structure Amends (i : Nat) (s t : Array Property) : Prop where
  size : s.size ≤ t.size
  kept : ∀ j, j ≠ i → j < s.size → t[j]? = s[j]?
  own : ∀ a, s[i]? = some a → ∃ b, t[i]? = some b ∧ b.parent = a.parent
  below : ∀ j b, j ≠ i → s.size ≤ j → t[j]? = some b → ∃ k, b.parent = some k ∧ (k = i ∨ s.size ≤ k)

namespace Amends

theorem refl (i : Nat) (s : Array Property) : Amends i s s where
  size := Nat.le_refl _
  kept _ _ _ := rfl
  own a there := ⟨a, there, rfl⟩
  below j b _ behind there := by
    rw [Array.getElem?_eq_none behind] at there
    cases there

theorem trans (h : Amends i s t) (ht : Amends i t u) : Amends i s u where
  size := Nat.le_trans h.size ht.size
  kept j other before :=
    (ht.kept j other (Nat.lt_of_lt_of_le before h.size)).trans (h.kept j other before)
  own a there := by
    obtain ⟨b, still, same⟩ := h.own a there
    obtain ⟨e, last, goesOn⟩ := ht.own b still
    exact ⟨e, last, goesOn.trans same⟩
  below j b other behind there := by
    -- it was new on the first way, or is on the second one
    by_cases early : j < t.size
    · rw [ht.kept j other early] at there
      exact h.below j b other behind there
    · have late : t.size ≤ j := Nat.le_of_not_lt early
      obtain ⟨k, parent, own | new⟩ := ht.below j b other late there
      · exact ⟨k, parent, .inl own⟩
      · exact ⟨k, parent, .inr (Nat.le_trans h.size new)⟩

end Amends

/-- Changing values of an entry is a change of this one alone. -/
theorem amends_modify {f : Property → Property} (hf : ∀ p, (f p).parent = p.parent) (i : Nat)
    (s : Array Property) : Amends i s (s.modify i f) where
  size := Nat.le_of_eq Array.size_modify.symm
  kept j other _ := by
    rw [Array.getElem?_modify, if_neg (Ne.symm other)]
  own a there := by
    rw [Array.getElem?_modify, if_pos rfl, there]
    exact ⟨f a, rfl, hf a⟩
  below j b other behind there := by
    rw [Array.getElem?_modify, if_neg (Ne.symm other), Array.getElem?_eq_none behind] at there
    cases there

/-! ## New entries -/

/-- Whether on the way from one sequence to another an entry has been added, as the last child of the one
above it, if there is one. Nothing else has changed, and all that is new besides is below the new entry. -/
structure Adds (above : Option Nat) (s t : Array Property) : Prop where
  kept : ∀ j, above ≠ some j → j < s.size → t[j]? = s[j]?
  adopts : ∀ i a, above = some i → s[i]? = some a →
    t[i]? = some { a with children := a.children ++ [s.size] }
  entry : ∃ b, t[s.size]? = some b ∧ b.parent = above
  below : ∀ j b, s.size < j → t[j]? = some b → ∃ k, b.parent = some k ∧ s.size ≤ k

namespace Adds

theorem size_lt (h : Adds above s t) : s.size < t.size := by
  obtain ⟨b, there, -⟩ := h.entry
  exact (Array.getElem?_eq_some_iff.mp there).1

/-- An entry is added with all that is in its body. -/
theorem amended (h : Adds above s t) (ht : Amends s.size t u) : Adds above s u where
  kept j other before := by
    rw [ht.kept j (Nat.ne_of_lt before) (Nat.lt_trans before h.size_lt)]
    exact h.kept j other before
  adopts i a inside there := by
    have before : i < s.size := (Array.getElem?_eq_some_iff.mp there).1
    rw [ht.kept i (Nat.ne_of_lt before) (Nat.lt_trans before h.size_lt)]
    exact h.adopts i a inside there
  entry := by
    obtain ⟨b, there, parent⟩ := h.entry
    obtain ⟨e, still, same⟩ := ht.own b there
    exact ⟨e, still, same.trans parent⟩
  below j b behind there := by
    have other : j ≠ s.size := Nat.ne_of_gt behind
    -- what was below already is so still, and what has come later is below the entry or a later one
    by_cases early : j < t.size
    · rw [ht.kept j other early] at there
      exact h.below j b behind there
    · have late : t.size ≤ j := Nat.le_of_not_lt early
      have larger := h.size_lt
      obtain ⟨k, parent, own | new⟩ := ht.below j b other late there
      · exact ⟨k, parent, by omega⟩
      · exact ⟨k, parent, by omega⟩

/-- An entry that is added below another one is a change of that one. -/
theorem amends (h : Adds (some i) s t) : Amends i s t where
  size := Nat.le_of_lt h.size_lt
  kept j other before := h.kept j (fun same => other (Option.some.inj same).symm) before
  own a there := ⟨_, h.adopts i a rfl there, rfl⟩
  below j b _ behind there := by
    by_cases first : j = s.size
    · subst first
      obtain ⟨e, entry, parent⟩ := h.entry
      obtain rfl := Option.some.inj (there.symm.trans entry)
      exact ⟨i, parent, .inl rfl⟩
    · obtain ⟨k, parent, new⟩ := h.below j b (by omega) there
      exact ⟨k, parent, .inr new⟩

end Adds

/-! ## Headers -/

namespace PropertySet

variable {set grown : PropertySet}

/-- Of the entries of before only the one above takes note of a new one. -/
theorem get?_append_of_lt {id name : String} {j : Nat} (before : j < set.length) :
    (set.append id name above).get? j = (set.adopted above).get? j := by
  have other : j ≠ set.properties.size := Nat.ne_of_lt before
  rw [append_eq]
  show ((set.adopted above).properties.push _)[j]? = _
  rw [Array.getElem?_push, size_adopted, if_neg other]
  rfl

/-- Inheriting changes the entry that inherits. -/
theorem get?_inheritAttributes_ne {i j : Nat} (other : i ≠ j) :
    (set.inheritAttributes i).get? j = set.get? j := by
  unfold inheritAttributes
  split
  · rfl
  · split
    · rfl
    · rw [get?_modify, if_neg other]

/-- Inheriting adds no entry. -/
theorem length_inheritAttributes (set : PropertySet) (i : Nat) :
    (set.inheritAttributes i).length = set.length := by
  unfold inheritAttributes
  split
  · rfl
  · split
    · rfl
    · exact Array.size_modify

/-- A header adds an entry, which then inherits. -/
theorem adds_of_add? {id name : String} (added : set.add? id name above = .ok grown) :
    Adds above set.properties (grown.inheritAttributes set.length).properties := by
  obtain rfl := eq_append_of_add? added
  generalize hfull : set.fullId id above = full
  have before {j : Nat} (inside : j < set.length) :
      ((set.append full name above).inheritAttributes set.length).get? j = (set.adopted above).get? j := by
    rw [get?_inheritAttributes_ne (Nat.ne_of_gt inside), get?_append_of_lt inside]
  have size : ((set.append full name above).inheritAttributes set.length).length = set.length + 1 := by
    rw [length_inheritAttributes, append_eq]
    exact (Array.size_push _).trans (congrArg (· + 1) (size_adopted above))
  refine ⟨fun j other inside => (before inside).trans ?_, fun i a own there => ?_, ?_,
    fun j b behind there => ?_⟩
  · -- the entries of before are those that they were, but for the new child of the parent
    unfold adopted
    cases above with
    | none => rfl
    | some i =>
      dsimp only
      rw [get?_modify, if_neg fun same => other (congrArg some same)]
      rfl
  · have inside : i < set.length := (Array.getElem?_eq_some_iff.mp there).1
    refine (before inside).trans ?_
    subst own
    unfold adopted
    dsimp only
    rw [get?_modify, if_pos rfl, get?, there]
    rfl
  · exact (growsTo_inheritAttributes set.length).kept _ _ (get?_append_length full name above)
  · have inside : j < set.length + 1 := size ▸ (Array.getElem?_eq_some_iff.mp there).1
    exact absurd behind (Nat.not_lt.mpr (Nat.le_of_lt_succ inside))

end PropertySet

/-! ## The index -/

namespace PropertySet

variable {s t : PropertySet} {id name : String} {parent : Option Nat}

/-- The number of entries grows by the new one. -/
theorem length_append (id name : String) (parent : Option Nat) :
    (s.append id name parent).length = s.length + 1 := by
  rw [append_eq]
  exact (Array.size_push _).trans (congrArg (· + 1) (size_adopted parent))

/-- The parent takes the new entry as a child; apart from that the entries of before are unchanged. -/
theorem get?_adopted (parent : Option Nat) (j : Nat) :
    (s.adopted parent).get? j =
      (s.get? j).map fun p =>
        if parent = some j then { p with children := p.children ++ [s.length] } else p := by
  unfold adopted
  cases parent with
  | none => simp
  | some k =>
    dsimp only
    rw [get?_modify]
    by_cases same : k = j
    · subst same
      simp [length]
    · simp [same]

/-- After an addition there are the entries of before, one of them with a child more, and the new one. -/
theorem get?_append_iff {j : Nat} {q : Property} :
    (s.append id name parent).get? j = some q ↔
      (∃ p, s.get? j = some p ∧
        q = if parent = some j then { p with children := p.children ++ [s.length] } else p) ∨
      (j = s.length ∧ q = ⟨id, name, parent, [], [], []⟩) := by
  rcases Nat.lt_trichotomy j s.length with before | rfl | behind
  · have here : j ≠ s.length := Nat.ne_of_lt before
    rw [get?_append_of_lt before, get?_adopted, Option.map_eq_some_iff]
    simp [here, eq_comm]
  · have nothing : s.get? s.length = none := Array.getElem?_eq_none (Nat.le_refl _)
    rw [get?_append_length, nothing]
    simp [eq_comm]
  · have here : j ≠ s.length := Nat.ne_of_gt behind
    have nothing : s.get? j = none := Array.getElem?_eq_none (Nat.le_of_lt behind)
    have still : (s.append id name parent).get? j = none := by
      refine Array.getElem?_eq_none ?_
      rw [← length, length_append]
      exact behind
    simp [nothing, still, here]

/-- Whether the index has each id that an entry has, with the place of this entry, and no other. Then there
is one entry at most of an id. -/
def Indexed (s : PropertySet) : Prop :=
  ∀ id i, s.indexOf? id = some i ↔ ∃ p, s.get? i = some p ∧ p.id = id

theorem indexed_empty (kind : PropertyKind) : (empty kind).Indexed := by
  intro id i
  constructor
  · intro found
    cases found
  · rintro ⟨p, hp, -⟩
    cases i <;> cases hp

/-- What is added is found behind the others, and all else where it was found before. -/
theorem indexOf?_append (id name : String) (parent : Option Nat) (other : String) :
    (s.append id name parent).indexOf? other =
      if other = id then some s.length else s.indexOf? other := by
  rw [append_eq, indexOf?, List.lookup_cons]
  by_cases same : other = id
  · simp [same]
  · rw [beq_eq_false_iff_ne.mpr same, if_neg same]
    rfl

/-- What has been added was not in the index. -/
theorem indexOf?_of_add? (added : s.add? id name parent = .ok t) :
    s.indexOf? (s.fullId id parent) = none := by
  cases found : s.indexOf? (s.fullId id parent) with
  | none => rfl
  | some i =>
    obtain ⟨e, refused⟩ := (add?_eq_error_iff s id name parent).mpr ⟨i, found⟩
    cases refused.symm.trans added

/-- What is found is written in the index. -/
theorem mem_index_of_indexOf? {i : Nat} (found : s.indexOf? id = some i) : (id, i) ∈ s.index := by
  obtain ⟨before, behind, entries, -⟩ := List.lookup_eq_some_iff.mp found
  simp [entries]

theorem index_inheritAttributes (s : PropertySet) (i : Nat) : (s.inheritAttributes i).index = s.index := by
  unfold inheritAttributes
  split
  · rfl
  · split <;> rfl

namespace Indexed

/-- An id that the index has is the id of an entry. -/
theorem exists_indexOf?_iff (h : s.Indexed) (id : String) :
    (∃ i, s.indexOf? id = some i) ↔ ∃ p ∈ s.properties, p.id = id := by
  constructor
  · rintro ⟨i, found⟩
    obtain ⟨p, hp, same⟩ := (h id i).mp found
    exact ⟨p, mem_iff_get?.mpr ⟨i, hp⟩, same⟩
  · rintro ⟨p, mem, same⟩
    obtain ⟨i, hp⟩ := mem_iff_get?.mp mem
    exact ⟨i, (h id i).mpr ⟨p, hp, same⟩⟩

/-- Two entries of one id are one entry, for the index has one place for them. -/
theorem distinct (h : s.Indexed) {i j : Nat} {p q : Property} (hp : s.get? i = some p)
    (hq : s.get? j = some q) (same : p.id = q.id) : i = j := by
  have first : s.indexOf? p.id = some i := (h p.id i).mpr ⟨p, hp, rfl⟩
  have second : s.indexOf? p.id = some j := (h p.id j).mpr ⟨q, hq, same.symm⟩
  exact Option.some.inj (first.symm.trans second)

/-- As long as entries keep their ids, and nothing is entered, the index is right. -/
theorem of_ids (h : s.Indexed) (index : t.index = s.index)
    (ids : ∀ i, (t.get? i).map (·.id) = (s.get? i).map (·.id)) : t.Indexed := by
  have entry (u : PropertySet) (id : String) (i : Nat) :
      (∃ p, u.get? i = some p ∧ p.id = id) ↔ (u.get? i).map (·.id) = some id :=
    Option.map_eq_some_iff.symm
  intro id i
  rw [indexOf?, index, entry, ids, ← entry]
  exact h id i

/-- Changing an entry that keeps its id. -/
theorem modify (h : s.Indexed) {f : Property → Property} (hf : ∀ p, (f p).id = p.id) (i : Nat) :
    (s.modify i f).Indexed := by
  refine h.of_ids rfl fun j => ?_
  rw [get?_modify]
  split
  · rw [Option.map_map]
    exact congrArg (Option.map · (s.get? j)) (funext hf)
  · rfl

theorem inheritAttributes (h : s.Indexed) (i : Nat) : (s.inheritAttributes i).Indexed := by
  unfold PropertySet.inheritAttributes
  split
  · exact h
  · split
    · exact h
    · exact h.modify (fun p => p.id_inheritFrom _) i

theorem define? (h : s.Indexed) {d : AttributeDefinition} (defined : s.define? d = .ok t) :
    t.Indexed := by
  obtain ⟨-, rfl⟩ := definitions_of_define? defined
  exact h.of_ids rfl fun _ => rfl

/-- Entering an id that the index has not. -/
theorem append (h : s.Indexed) (fresh : s.indexOf? id = none) (name : String) (parent : Option Nat) :
    (s.append id name parent).Indexed := by
  have adopted {i : Nat} {p : Property} :
      (if parent = some i then { p with children := p.children ++ [s.length] } else p).id = p.id := by
    split <;> rfl
  intro other i
  rw [indexOf?_append]
  split
  · next own =>
    -- no entry of before has the id
    subst own
    constructor
    · intro last
      cases last
      exact ⟨_, get?_append_length other name parent, rfl⟩
    · rintro ⟨p, hp, same⟩
      rcases get?_append_iff.mp hp with ⟨q, hq, rfl⟩ | ⟨rfl, -⟩
      · have found := (h other i).mpr ⟨q, hq, adopted.symm.trans same⟩
        cases fresh.symm.trans found
      · rfl
  · next another =>
    rw [h other i]
    constructor
    · rintro ⟨q, hq, same⟩
      exact ⟨_, get?_append_iff.mpr (.inl ⟨q, hq, rfl⟩), adopted.trans same⟩
    · rintro ⟨p, hp, same⟩
      rcases get?_append_iff.mp hp with ⟨q, hq, rfl⟩ | ⟨-, rfl⟩
      · exact ⟨q, hq, adopted.symm.trans same⟩
      · exact absurd same.symm another

/-- What is added is looked up first, and entered then. -/
theorem add? (h : s.Indexed) (added : s.add? id name parent = .ok t) : t.Indexed := by
  rw [eq_append_of_add? added]
  exact h.append (indexOf?_of_add? added) name parent

end Indexed

end PropertySet

end Planfile.Plan
