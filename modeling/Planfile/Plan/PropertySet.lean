import Planfile.Plan.Attribute

/-!
# Planfile — the tasks and the resources of a project

Tasks form a tree and resources form a tree, and each tree is kept as a sequence in which parents
come before their children. The id of a task is the path to it from the root; resource ids stand
alone. A set of either kind carries its schema, which can grow, and an index, by which ids are looked
up: the sequence itself is not searched.

Main results:

* `PropertySet.add?_eq_error_iff` — a property is refused exactly when the index has its id.
-/

namespace Planfile.Plan

/-- A task or a resource. -/
structure Property where
  /-- The full id; that of a nested task is the path to it. -/
  id : String
  name : String
  parent : Option Nat
  children : List Nat
  attributes : AttributeTable
  /-- The values in each scenario. -/
  scenarioAttributes : List AttributeTable
  deriving DecidableEq, Repr

namespace Property

/-- The value of an attribute that has one value. -/
def get? (p : Property) (id : String) : Option AttributeValue := p.attributes.get? id

/-- Sets an attribute that has one value. -/
def set (p : Property) (id : String) (value : AttributeValue) : Property :=
  { p with attributes := p.attributes.set id value }

/-- The value of an attribute in a scenario. -/
def getScenario? (p : Property) (scenario : Nat) (id : String) : Option AttributeValue :=
  p.scenarioAttributes[scenario]?.bind (·.get? id)

/-- Sets a value in the table at an index, which may lie behind the end. -/
def setAt (index : Nat) (id : String) (value : AttributeValue) :
    List AttributeTable → List AttributeTable
  | [] => List.replicate index [] ++ [AttributeTable.set id value []]
  | table :: rest =>
    match index with
    | 0 => table.set id value :: rest
    | index + 1 => table :: setAt index id value rest

/-- Sets an attribute in a scenario. -/
def setScenario (p : Property) (scenario : Nat) (id : String) (value : AttributeValue) :
    Property :=
  { p with scenarioAttributes := setAt scenario id value p.scenarioAttributes }

/-- What comes behind the last dot of the id. -/
def localId (p : Property) : String :=
  String.ofList (p.id.toList.reverse.takeWhile (· != '.')).reverse

/-- The values of the parent for attributes that children start with. A value of the parent stands
for each scenario in which the parent has one. -/
def inheritFrom (p parent : Property) (definitions : List AttributeDefinition) : Property :=
  let inherited := definitions.filter (·.inherit)
  let p := inherited.foldl (fun p d =>
    match parent.get? d.id with
    | some value => p.set d.id value
    | none => p) p
  inherited.foldl (fun p d =>
    (parent.scenarioAttributes.zipIdx).foldl (fun p (table, scenario) =>
      match table.get? d.id with
      | some value => p.setScenario scenario d.id value
      | none => p) p) p

end Property

/-- Why a property or a definition is refused. -/
inductive PropertyError where
  | propertyExists (kind : PropertyKind) (id : String)
  | attributeExists (kind : PropertyKind) (id : String)
  deriving DecidableEq, Repr

/-- The wording of a refusal. -/
def PropertyError.message : PropertyError → String
  | .propertyExists kind id => s!"{kind.title} {id} has already been defined"
  | .attributeExists kind id => s!"Attribute {id} has already been defined for {kind.word}s"

/-- All tasks or all resources, with their schema. -/
structure PropertySet where
  kind : PropertyKind
  definitions : List AttributeDefinition
  properties : Array Property
  /-- The ids with their places. What has been entered last is in front, and hides what was there. -/
  index : List (String × Nat)
  deriving DecidableEq, Repr

namespace PropertySet

/-- No properties, and the schema that every project starts with. -/
def empty (kind : PropertyKind) : PropertySet := ⟨kind, builtinDefinitions kind, #[], []⟩

/-- The number of properties. -/
def length (s : PropertySet) : Nat := s.properties.size

/-- A property by its place. -/
def get? (s : PropertySet) (index : Nat) : Option Property := s.properties[index]?

/-- The place of an id, as the index has it. -/
def indexOf? (s : PropertySet) (id : String) : Option Nat := s.index.lookup id

/-- A property by its id. -/
def byId? (s : PropertySet) (id : String) : Option Property := (s.indexOf? id).bind s.get?

/-- The set with a property changed. -/
def modify (s : PropertySet) (index : Nat) (f : Property → Property) : PropertySet :=
  { s with properties := s.properties.modify index f }

/-- The entry of the schema for an attribute. -/
def definition? (s : PropertySet) (id : String) : Option AttributeDefinition :=
  s.definitions.find? (·.id == id)

/-- The id that a property gets: below a task it is a path. -/
def fullId (s : PropertySet) (id : String) (parent : Option Nat) : String :=
  match s.kind, parent.bind s.get? with
  | .task, some p => p.id ++ "." ++ id
  | _, _ => id

/-- The set with a new property at the end, which its parent takes as its last child, and which is
entered in the index. -/
def append (s : PropertySet) (id name : String) (parent : Option Nat) : PropertySet :=
  let place := s.properties.size
  let added := match parent with
    | some p =>
      s.properties.modify p fun q => { q with children := q.children ++ [place] }
    | none => s.properties
  { s with
    properties := added.push ⟨id, name, parent, [], [], []⟩
    index := (id, place) :: s.index }

/-- Adds a property below another one, unless the index has its id. -/
def add? (s : PropertySet) (id name : String) (parent : Option Nat) :
    Except PropertyError PropertySet :=
  let id := s.fullId id parent
  match s.indexOf? id with
  | some _ => .error (.propertyExists s.kind id)
  | none => .ok (s.append id name parent)

/-- A property is refused exactly when the index has its full id. -/
theorem add?_eq_error_iff (s : PropertySet) (id name : String) (parent : Option Nat) :
    (∃ e, s.add? id name parent = .error e) ↔ ∃ i, s.indexOf? (s.fullId id parent) = some i := by
  unfold add?
  dsimp only
  cases s.indexOf? (s.fullId id parent) with
  | none => simp
  | some i => simp

/-- Gives a property the values of its parent that children start with. -/
def inheritAttributes (s : PropertySet) (index : Nat) : PropertySet :=
  match (s.get? index).bind (·.parent) with
  | none => s
  | some parent =>
    match s.get? parent with
    | none => s
    | some p => s.modify index (·.inheritFrom p s.definitions)

/-- Adds an attribute to the schema, unless its id is taken. -/
def define? (s : PropertySet) (d : AttributeDefinition) : Except PropertyError PropertySet :=
  match s.definition? d.id with
  | some _ => .error (.attributeExists s.kind d.id)
  | none => .ok { s with definitions := s.definitions ++ [d] }

end PropertySet

end Planfile.Plan
