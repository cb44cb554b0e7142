import Mathlib.Data.List.TakeWhile
import Planfile.Proofs.Subtree.Entries

/-!
# Planfile — the tree of tasks and the tree of resources

The tree is written down three times: an entry names its parent, the parent lists its children, and the
id of a task is the path to it. On top of that an id is looked up in an index. Additions are what writes
all of these, and they are written so that they agree, because an addition links the new entry with
its parent only, at the end of both lists, and because the index has not had its id.

That an addition is refused exactly when a sibling has the local id is more than that the full id is
looked up: a local id has no dots, so a path determines both the path above and the local id, and the
path above determines the parent.

Main results:

* `PropertySet.Tree.add?` — an addition keeps a tree a tree.
* `PropertySet.Tree.taken_iff` — a full id is in use exactly when a sibling has the local id.
* `PropertySet.tree_of_edits` — the trees that arise from any edits.
-/

namespace Planfile.Plan

/-! ## Local ids -/

namespace Property

variable {p : Property} {id above : String}

/-- A local id has no dots. -/
theorem dot_not_mem_localId (p : Property) : '.' ∉ p.localId.toList := by
  intro mem
  simp only [localId, String.toList_ofList, List.mem_reverse] at mem
  have differs := List.mem_takeWhile_imp mem
  simp at differs

/-- An id without dots is a local id. -/
theorem localId_of_flat (flat : '.' ∉ id.toList) (h : p.id = id) : p.localId = id := by
  have whole : id.toList.reverse.takeWhile (· != '.') = id.toList.reverse := by
    refine List.takeWhile_eq_self_iff.mpr fun c hc => ?_
    exact bne_iff_ne.mpr fun same => flat (same ▸ List.mem_reverse.mp hc)
  rw [localId, h, whole, List.reverse_reverse, String.ofList_toList]

/-- What is added to a path behind a dot is the local id. -/
theorem localId_of_path (flat : '.' ∉ id.toList) (h : p.id = above ++ "." ++ id) : p.localId = id := by
  have whole : ∀ c ∈ id.toList.reverse, (c != '.') = true := fun c hc =>
    bne_iff_ne.mpr fun same => flat (same ▸ List.mem_reverse.mp hc)
  have parts : p.id.toList.reverse = id.toList.reverse ++ '.' :: above.toList.reverse := by
    simp [h, String.toList_append]
  rw [localId, parts, List.takeWhile_append_of_pos whole, List.takeWhile_cons_of_neg (by simp),
    List.append_nil, List.reverse_reverse, String.ofList_toList]

/-- A path has one way to be taken apart. -/
theorem path_inj {above' id' : String} (flat : '.' ∉ id.toList) (flat' : '.' ∉ id'.toList)
    (h : above ++ "." ++ id = above' ++ "." ++ id') : above = above' ∧ id = id' := by
  let q : Property := ⟨above ++ "." ++ id, "", none, [], [], []⟩
  have same : id = id' := (localId_of_path (p := q) flat rfl).symm.trans (localId_of_path flat' h)
  subst same
  rw [String.append_assoc, String.append_assoc] at h
  exact ⟨String.append_left_inj _ |>.mp h, rfl⟩

/-- What the tree is made of. -/
def links (p : Property) : String × Option Nat × List Nat := (p.id, p.parent, p.children)

theorem links_inheritFrom (p parent : Property) (definitions : List AttributeDefinition) :
    (p.inheritFrom parent definitions).links = p.links := by
  refine inheritFrom_induction (motive := fun q => q.links = p.links) rfl ?_ ?_ definitions
  · intro q id value hq _
    exact hq
  · intro q scenario t id value hq _ _
    exact hq

end Property

/-! ## Trees -/

namespace PropertySet

variable {s t : PropertySet} {id name : String} {parent : Option Nat}

/-- Whether the entries of a set are a tree, in which the links and the ids agree. -/
structure Tree (s : PropertySet) : Prop where
  /-- Each id is at its place in the index, so no two entries have one. -/
  indexed : s.Indexed
  /-- Parents come before their children. -/
  parent_lt : ∀ {i p k}, s.get? i = some p → p.parent = some k → k < i
  /-- Children are listed in their order, -/
  ordered : ∀ {i p}, s.get? i = some p → p.children.Pairwise (· < ·)
  /-- and they are the entries that name the parent. -/
  mem_children : ∀ {i p}, s.get? i = some p →
    ∀ j, j ∈ p.children ↔ ∃ q, s.get? j = some q ∧ q.parent = some i
  /-- The id is the one that the local id has below the parent. -/
  path : ∀ {i p}, s.get? i = some p → p.id = s.fullId p.localId p.parent

theorem tree_empty (kind : PropertyKind) : (empty kind).Tree := by
  have none {i : Nat} {p : Property} (h : (empty kind).get? i = some p) : False := by
    cases i <;> cases h
  exact ⟨indexed_empty kind, fun h => (none h).elim, fun h => (none h).elim,
    fun h => (none h).elim, fun h => (none h).elim⟩

/-- Whether two sets have the same links and ids, and one index. -/
structure SameLinks (s t : PropertySet) : Prop where
  kind : s.kind = t.kind
  index : t.index = s.index
  links : ∀ i, (t.get? i).map (·.links) = (s.get? i).map (·.links)

theorem SameLinks.refl (s : PropertySet) : SameLinks s s := ⟨rfl, rfl, fun _ => rfl⟩

/-- The entry at a place has the links that it had. -/
theorem SameLinks.exists_get? (h : SameLinks s t) {i : Nat} {q : Property} (hq : t.get? i = some q) :
    ∃ p, s.get? i = some p ∧ q.id = p.id ∧ q.parent = p.parent ∧ q.children = p.children := by
  have same := h.links i
  rw [hq, Option.map_some] at same
  obtain ⟨p, hp, links⟩ := Option.map_eq_some_iff.mp same.symm
  cases p
  cases q
  cases links
  exact ⟨_, hp, rfl, rfl, rfl⟩

theorem SameLinks.symm (h : SameLinks s t) : SameLinks t s :=
  ⟨h.kind.symm, h.index.symm, fun i => (h.links i).symm⟩

/-- In particular entries have the same ids. -/
theorem SameLinks.ids (h : SameLinks s t) (i : Nat) : (t.get? i).map (·.id) = (s.get? i).map (·.id) := by
  have same := congrArg (Option.map (·.1)) (h.links i)
  rwa [Option.map_map, Option.map_map] at same

/-- Of the parent a full id takes the id. -/
theorem fullId_congr (kind : s.kind = t.kind)
    (ids : ∀ k ∈ parent, (t.get? k).map (·.id) = (s.get? k).map (·.id)) (id : String) :
    t.fullId id parent = s.fullId id parent := by
  unfold fullId
  rw [kind]
  cases parent with
  | none => rfl
  | some k =>
    have same := ids k rfl
    rw [Option.bind_some, Option.bind_some]
    cases hq : t.get? k with
    | none =>
      rw [hq, Option.map_none] at same
      rw [Option.map_eq_none_iff.mp same.symm]
    | some q =>
      rw [hq, Option.map_some] at same
      obtain ⟨p, hp, same⟩ := Option.map_eq_some_iff.mp same.symm
      rw [hp]
      cases t.kind
      · exact congrArg (· ++ "." ++ id) same.symm
      · rfl

theorem SameLinks.fullId (h : SameLinks s t) (id : String) (parent : Option Nat) :
    t.fullId id parent = s.fullId id parent :=
  fullId_congr h.kind (fun k _ => h.ids k) id

/-- A set that has the links of a tree is one. -/
theorem Tree.of_sameLinks (h : s.Tree) (same : SameLinks s t) : t.Tree where
  indexed := h.indexed.of_ids same.index same.ids
  parent_lt := by
    intro i p k hp above
    obtain ⟨p', hp', -, parents, -⟩ := same.exists_get? hp
    exact h.parent_lt hp' (parents ▸ above)
  ordered := by
    intro i p hp
    obtain ⟨p', hp', -, -, children⟩ := same.exists_get? hp
    exact children ▸ h.ordered hp'
  mem_children := by
    intro i p hp j
    obtain ⟨p', hp', -, -, children⟩ := same.exists_get? hp
    rw [children, h.mem_children hp' j]
    constructor
    · rintro ⟨q, hq, above⟩
      obtain ⟨q', hq', -, parents, -⟩ := same.symm.exists_get? hq
      exact ⟨q', hq', parents ▸ above⟩
    · rintro ⟨q, hq, above⟩
      obtain ⟨q', hq', -, parents, -⟩ := same.exists_get? hq
      exact ⟨q', hq', parents ▸ above⟩
  path := by
    intro i p hp
    obtain ⟨p', hp', ids, parents, -⟩ := same.exists_get? hp
    have locals : p.localId = p'.localId := by
      unfold Property.localId
      rw [ids]
    rw [same.fullId, ids, parents, locals]
    exact h.path hp'

/-- Changing values does not change links. -/
theorem sameLinks_modify {f : Property → Property} (hf : ∀ p, (f p).links = p.links) (i : Nat) :
    SameLinks s (s.modify i f) := by
  refine ⟨rfl, rfl, fun j => ?_⟩
  rw [get?_modify]
  split
  · rw [Option.map_map]
    exact congrArg (Option.map · (s.get? j)) (funext hf)
  · rfl

theorem sameLinks_inheritAttributes (i : Nat) : SameLinks s (s.inheritAttributes i) := by
  unfold inheritAttributes
  split
  · exact .refl s
  · split
    · exact .refl s
    · exact sameLinks_modify (fun p => p.links_inheritFrom _ _) i

theorem sameLinks_define? {d : AttributeDefinition} (h : s.define? d = .ok t) : SameLinks s t := by
  obtain ⟨-, rfl⟩ := definitions_of_define? h
  exact ⟨rfl, rfl, fun _ => rfl⟩

/-! ## Additions -/

/-- Whether something can be asked to be added: its local id has no dots, and its parent is there. -/
def Admits (s : PropertySet) (id : String) (parent : Option Nat) : Prop :=
  '.' ∉ id.toList ∧ ∀ k ∈ parent, k < s.length

/-- Whether a local id is taken: among tasks by a sibling, among resources by any of them. -/
def Taken (s : PropertySet) (id : String) (parent : Option Nat) : Prop :=
  ∃ i p, s.get? i = some p ∧
    match s.kind with
    | .task => p.parent = parent ∧ p.localId = id
    | .resource => p.id = id

/-- The local id of what has the id that a local id has below a parent. -/
theorem localId_of_fullId {p : Property} (flat : '.' ∉ id.toList) (h : p.id = s.fullId id parent) :
    p.localId = id := by
  unfold fullId at h
  split at h
  · exact Property.localId_of_path flat h
  · exact Property.localId_of_flat flat h

/-- Among tasks, a full id determines the parent: a path with dots is not one of a root, and what is
in front of the last dot is the id of one entry only. -/
theorem Tree.parent_inj (h : s.Tree) (task : s.kind = .task) {id' : String} {parent' : Option Nat}
    (inside : ∀ k ∈ parent, k < s.length) (inside' : ∀ k ∈ parent', k < s.length)
    (flat : '.' ∉ id.toList) (flat' : '.' ∉ id'.toList)
    (same : s.fullId id parent = s.fullId id' parent') : parent = parent' := by
  have entry {k : Nat} (below : k < s.length) : ∃ p, s.get? k = some p :=
    ⟨s.properties[k], Array.getElem?_eq_getElem below⟩
  -- below an entry there is a dot, and the local ids have none
  have dotted {k : Nat} {p : Property} (hp : s.get? k = some p) (id : String) :
      s.fullId id (some k) = p.id ++ "." ++ id := by
    simp [fullId, task, hp]
  have root (id : String) : s.fullId id none = id := by
    simp [fullId]
  have dot_mem (above id : String) : '.' ∈ (above ++ "." ++ id).toList := by
    simp [String.toList_append]
  cases parent with
  | none =>
    cases parent' with
    | none => rfl
    | some k' =>
      obtain ⟨q, hq⟩ := entry (inside' k' rfl)
      rw [root, dotted hq] at same
      exact absurd (same ▸ dot_mem q.id id') flat
  | some k =>
    obtain ⟨p, hp⟩ := entry (inside k rfl)
    cases parent' with
    | none =>
      rw [root, dotted hp] at same
      exact absurd (same ▸ dot_mem p.id id) flat'
    | some k' =>
      obtain ⟨q, hq⟩ := entry (inside' k' rfl)
      rw [dotted hp, dotted hq] at same
      -- the paths above are ids of entries, and these have different ones
      rw [h.indexed.distinct hp hq (Property.path_inj flat flat' same).1]

/-- The parent of an entry is an entry. -/
theorem Tree.parent_inside (h : s.Tree) {i : Nat} {p : Property} (hp : s.get? i = some p) :
    ∀ k ∈ p.parent, k < s.length := by
  intro k hk
  have before : k < i := h.parent_lt hp hk
  have inside : i < s.length := (Array.getElem?_eq_some_iff.mp hp).1
  exact Nat.lt_trans before inside

/-- A full id is in use exactly when the local id is taken. -/
theorem Tree.taken_iff (h : s.Tree) (admits : s.Admits id parent) :
    (∃ p ∈ s.properties, p.id = s.fullId id parent) ↔ s.Taken id parent := by
  obtain ⟨flat, inside⟩ := admits
  unfold Taken
  cases kind : s.kind with
  | task =>
    constructor
    · rintro ⟨p, mem, same⟩
      obtain ⟨i, hp⟩ := mem_iff_get?.mp mem
      -- a path is split at its last dot in one way only
      have local_eq : p.localId = id := localId_of_fullId flat same
      have parents := h.parent_inj kind (h.parent_inside hp) inside p.dot_not_mem_localId flat
        ((h.path hp).symm.trans same)
      exact ⟨i, p, hp, parents, local_eq⟩
    · rintro ⟨i, p, hp, rfl, rfl⟩
      exact ⟨p, mem_iff_get?.mpr ⟨i, hp⟩, h.path hp⟩
  | resource =>
    have full : s.fullId id parent = id := by
      simp [fullId, kind]
    rw [full]
    constructor
    · rintro ⟨p, mem, same⟩
      obtain ⟨i, hp⟩ := mem_iff_get?.mp mem
      exact ⟨i, p, hp, same⟩
    · rintro ⟨i, p, hp, same⟩
      exact ⟨p, mem_iff_get?.mpr ⟨i, hp⟩, same⟩

/-- An addition is refused exactly when the local id is taken. -/
theorem Tree.add?_error_iff (h : s.Tree) (admits : s.Admits id parent) (name : String) :
    (∃ e, s.add? id name parent = .error e) ↔ s.Taken id parent := by
  rw [add?_eq_error_iff, h.indexed.exists_indexOf?_iff]
  exact h.taken_iff admits

/-- An entry is named as parent by those that have named it before, and by the new one where this has been added
below it. -/
theorem exists_parent_append_iff {i j : Nat} :
    (∃ q, (s.append id name parent).get? j = some q ∧ q.parent = some i) ↔
      (∃ q, s.get? j = some q ∧ q.parent = some i) ∨ (j = s.length ∧ parent = some i) := by
  constructor
  · rintro ⟨q, hq, above⟩
    rcases get?_append_iff.mp hq with ⟨q', hq', rfl⟩ | ⟨rfl, rfl⟩
    · exact .inl ⟨q', hq', by split at above <;> exact above⟩
    · exact .inr ⟨rfl, above⟩
  · rintro (⟨q, hq, above⟩ | ⟨rfl, above⟩)
    · exact ⟨_, get?_append_iff.mpr (.inl ⟨q, hq, rfl⟩), by split <;> exact above⟩
    · exact ⟨_, get?_append_iff.mpr (.inr ⟨rfl, rfl⟩), above⟩

theorem kind_append (id name : String) (parent : Option Nat) :
    (s.append id name parent).kind = s.kind := by
  unfold append
  cases parent <;> rfl

/-- Ids below an entry are made of its id, which an addition leaves. -/
theorem fullId_append {k : Option Nat} (inside : ∀ i ∈ k, i < s.length) (full id name : String)
    (parent : Option Nat) : (s.append full name parent).fullId id k = s.fullId id k := by
  refine fullId_congr (kind_append full name parent).symm (fun i hi => ?_) id
  rw [get?_append_of_lt (inside i hi), get?_adopted, Option.map_map]
  refine congrArg (Option.map · (s.get? i)) (funext fun p => ?_)
  dsimp only [Function.comp_apply]
  split <;> rfl

/-- Adding below an entry that is there, under an id that is not in use, keeps a tree a tree. -/
theorem Tree.append (h : s.Tree) (admits : s.Admits id parent)
    (free : s.indexOf? (s.fullId id parent) = none) (name : String) :
    (s.append (s.fullId id parent) name parent).Tree := by
  have before {j : Nat} {p : Property} (hp : s.get? j = some p) : j < s.length :=
    (Array.getElem?_eq_some_iff.mp hp).1
  -- in each case an entry is one of before, maybe with a child more, or the new one
  constructor
  case indexed =>
    exact h.indexed.append free name parent
  case parent_lt =>
    intro i p k hp above
    rcases get?_append_iff.mp hp with ⟨p', hp', rfl⟩ | ⟨rfl, rfl⟩
    · exact h.parent_lt hp' (by split at above <;> exact above)
    · exact admits.2 k above
  case ordered =>
    intro i p hp
    rcases get?_append_iff.mp hp with ⟨p', hp', rfl⟩ | ⟨rfl, rfl⟩
    · split
      · -- children are entries of before, so the new one comes behind them
        refine List.pairwise_append.mpr ⟨h.ordered hp', List.pairwise_singleton _ _, ?_⟩
        intro j hj k hk
        obtain ⟨q, hq, -⟩ := (h.mem_children hp' j).mp hj
        exact List.mem_singleton.mp hk ▸ before hq
      · exact h.ordered hp'
    · exact .nil
  case mem_children =>
    intro i p hp j
    rw [exists_parent_append_iff]
    rcases get?_append_iff.mp hp with ⟨p', hp', rfl⟩ | ⟨rfl, rfl⟩
    · rw [← h.mem_children hp' j]
      split
      · next own => simp [own]
      · next own => simp [own]
    · -- nothing names the new entry, which was not there
      have nowhere : ¬∃ q, s.get? j = some q ∧ q.parent = some s.length := by
        rintro ⟨q, hq, above⟩
        exact absurd (h.parent_inside hq _ above) (Nat.lt_irrefl _)
      have not_own : parent ≠ some s.length := fun own =>
        absurd (admits.2 _ own) (Nat.lt_irrefl _)
      simp [nowhere, not_own]
  case path =>
    intro i p hp
    rcases get?_append_iff.mp hp with ⟨p', hp', rfl⟩ | ⟨rfl, rfl⟩
    · -- no id changes, so the paths are those of before
      have same : p'.id = (s.append (s.fullId id parent) name parent).fullId p'.localId p'.parent := by
        rw [fullId_append (h.parent_inside hp')]
        exact h.path hp'
      split <;> exact same
    · dsimp only
      rw [localId_of_fullId (p := ⟨s.fullId id parent, name, parent, [], [], []⟩) admits.1 rfl,
        fullId_append admits.2]

/-- An addition keeps a tree a tree. -/
theorem Tree.add? (h : s.Tree) (admits : s.Admits id parent) (added : s.add? id name parent = .ok t) :
    t.Tree := by
  rw [eq_append_of_add? added]
  exact h.append admits (indexOf?_of_add? added) name

/-! ## Edits -/

/-- What can be done with a set. -/
inductive Edit where
  | add (id name : String) (parent : Option Nat)
  | define (d : AttributeDefinition)
  | inherit (i : Nat)
  | set (i : Nat) (id : String) (value : AttributeValue)
  | setScenario (i scenario : Nat) (id : String) (value : AttributeValue)

namespace Edit

/-- Makes an edit. One that is refused changes nothing. -/
def perform (s : PropertySet) : Edit → PropertySet
  | add id name parent =>
    match s.add? id name parent with
    | .ok t => t
    | .error _ => s
  | define d =>
    match s.define? d with
    | .ok t => t
    | .error _ => s
  | inherit i => s.inheritAttributes i
  | set i id value => s.modify i (·.set id value)
  | setScenario i scenario id value => s.modify i (·.setScenario scenario id value)

/-- Whether an edit can be asked for. -/
def Fits (s : PropertySet) : Edit → Prop
  | add id _ parent => s.Admits id parent
  | _ => True

/-- An edit that adds nothing leaves the links; what it is about are values and the schema. -/
theorem cases_of_perform (s : PropertySet) (e : Edit) :
    SameLinks s (e.perform s) ∨
      ∃ id name parent, e = add id name parent ∧ s.add? id name parent = .ok (e.perform s) := by
  cases e with
  | add id name parent =>
    rw [perform]
    cases added : s.add? id name parent with
    | error e => exact .inl (.refl s)
    | ok t => exact .inr ⟨id, name, parent, rfl, added⟩
  | define d =>
    rw [perform]
    cases defined : s.define? d with
    | error e => exact .inl (.refl s)
    | ok t => exact .inl (sameLinks_define? defined)
  | inherit i => exact .inl (sameLinks_inheritAttributes i)
  | set i id value => exact .inl (sameLinks_modify (f := (·.set id value)) (fun _ => rfl) i)
  | setScenario i scenario id value =>
    exact .inl (sameLinks_modify (f := (·.setScenario scenario id value)) (fun _ => rfl) i)

/-- An edit keeps a tree a tree, of the same kind of entries. -/
theorem tree_perform {e : Edit} (h : s.Tree) (fits : e.Fits s) :
    (e.perform s).Tree ∧ (e.perform s).kind = s.kind := by
  rcases e.cases_of_perform s with same | ⟨id, name, parent, rfl, added⟩
  · exact ⟨h.of_sameLinks same, same.kind.symm⟩
  · refine ⟨h.add? fits added, ?_⟩
    rw [eq_append_of_add? added, kind_append]

end Edit

/-- The set after a sequence of edits. -/
def edited (s : PropertySet) (edits : List Edit) : PropertySet := edits.foldl Edit.perform s

/-- Whether each of a sequence of edits can be asked for when its turn comes. -/
def AllFit (s : PropertySet) : List Edit → Prop
  | [] => True
  | e :: rest => e.Fits s ∧ AllFit (e.perform s) rest

/-- A sequence of edits keeps a tree a tree. -/
theorem tree_edited {edits : List Edit} (h : s.Tree) (fit : s.AllFit edits) :
    (s.edited edits).Tree ∧ (s.edited edits).kind = s.kind := by
  induction edits generalizing s with
  | nil => exact ⟨h, rfl⟩
  | cons e rest ih =>
    obtain ⟨first, later⟩ := fit
    obtain ⟨tree, kind⟩ := Edit.tree_perform h first
    obtain ⟨whole, still⟩ := ih tree later
    exact ⟨whole, still.trans kind⟩

/-- Whatever edits are made of a new set, its entries are a tree. Ids are distinct and looking one up
finds its entry, parents come before their children, which they list in order, and the id of a task is
the path to it. An addition is refused exactly when a sibling has the local id, or among resources any
entry the id, and then it changes nothing; else the new entry is the last one. -/
theorem tree_of_edits {kind : PropertyKind} {edits : List Edit} {s : PropertySet}
    (fit : (empty kind).AllFit edits) (made : (empty kind).edited edits = s) :
    s.kind = kind ∧
    (∀ i j p q, s.get? i = some p → s.get? j = some q → p.id = q.id → i = j) ∧
    (∀ id i, s.indexOf? id = some i ↔ ∃ p, s.get? i = some p ∧ p.id = id) ∧
    (∀ i p k, s.get? i = some p → p.parent = some k → k < i) ∧
    (∀ i p, s.get? i = some p → p.children.Pairwise (· < ·) ∧
      ∀ j, j ∈ p.children ↔ ∃ q, s.get? j = some q ∧ q.parent = some i) ∧
    (kind = .task → ∀ i p k q, s.get? i = some p → p.parent = some k → s.get? k = some q →
      p.id = q.id ++ "." ++ p.localId) ∧
    ∀ id name parent, s.Admits id parent →
      ((∃ e, s.add? id name parent = .error e) ↔ s.Taken id parent) ∧
      (s.Taken id parent → (Edit.add id name parent).perform s = s) ∧
      (¬s.Taken id parent → ∃ p, ((Edit.add id name parent).perform s).get? s.length = some p ∧
        p.localId = id ∧ p.name = name ∧ p.parent = parent) := by
  obtain ⟨tree, same⟩ := tree_edited (tree_empty kind) fit
  rw [made] at tree same
  refine ⟨same, fun _ _ _ _ => tree.indexed.distinct, tree.indexed, fun _ _ _ => tree.parent_lt,
    fun i p hp => ⟨tree.ordered hp, tree.mem_children hp⟩, fun task i p k q hp above hq => ?_,
    fun id name parent admits => ?_⟩
  · have path := tree.path hp
    rw [fullId, same, above, Option.bind_some, hq] at path
    subst task
    exact path
  · -- an addition that is refused leaves the set, and one that is not puts its entry behind the others
    have refused := tree.add?_error_iff admits name
    refine ⟨refused, fun taken => ?_, fun free => ?_⟩
    · obtain ⟨e, he⟩ := refused.mpr taken
      rw [Edit.perform, he]
    · cases added : s.add? id name parent with
      | error e => exact absurd (refused.mp ⟨e, added⟩) free
      | ok t =>
        refine ⟨⟨s.fullId id parent, name, parent, [], [], []⟩, ?_, localId_of_fullId admits.1 rfl, rfl,
          rfl⟩
        rw [Edit.perform, added, eq_append_of_add? added]
        exact get?_append_length _ _ _

/-- A task with two tasks below it, one of which is asked for twice, and values that are inherited. -/
def buildEdits : List Edit :=
  [.add "build" "Build" none, .setScenario 0 0 "priority" (.integer 700),
    .add "compile" "Compile" (some 0), .inherit 1,
    .define ⟨"Cost", "Cost center", .text, false, false, true⟩, .set 1 "Cost" (.text "C1"),
    .add "compile" "Again" (some 0), .add "test" "Test" (some 0)]

/-- The task is the tree that it should be: the second addition of one id has been refused, the other
task below it is found by its path, and a third one of that id would be refused. -/
theorem tree_of_edits_build :
    (empty .task).AllFit buildEdits ∧
      ((empty .task).edited buildEdits).indexOf? "build.test" = some 2 ∧
      ∃ e, ((empty .task).edited buildEdits).add? "test" "Again" (some 0) = .error e := by
  have fit : (empty .task).AllFit buildEdits := by
    refine ⟨⟨by decide, ?_⟩, trivial, ⟨by decide, ?_⟩, trivial, trivial, trivial, ⟨by decide, ?_⟩,
      ⟨by decide, ?_⟩, trivial⟩
    all_goals
      rintro k ⟨⟩
    all_goals decide +kernel
  obtain ⟨kind, -, found, -, -, -, refused⟩ := tree_of_edits fit rfl
  have third : ((empty .task).edited buildEdits).get? 2 =
      some ⟨"build.test", "Test", some 0, [], [], []⟩ := by decide +kernel
  have taken : ((empty .task).edited buildEdits).Taken "test" (some 0) := by
    refine ⟨2, _, third, ?_⟩
    rw [kind]
    exact ⟨rfl, by decide +kernel⟩
  refine ⟨fit, (found _ _).mpr ⟨_, third, rfl⟩, ?_⟩
  refine (refused "test" "Again" (some 0) ⟨by decide, ?_⟩).1.mpr taken
  rintro k ⟨⟩
  decide +kernel

end PropertySet

end Planfile.Plan
