import Planfile.Parse.Context
import Planfile.Plan.Identifier

/-!
# Planfile — the meaning of statements about tasks and resources

A header adds a task or a resource below the one whose body is read, with the values it inherits,
and what follows in its body is about it. Attributes belong to a scenario, the first one unless
another is chosen.
-/

namespace Planfile

open Plan (PropertyKind AttributeValue Allocation SelectionMode TaskDependency)

namespace Matcher

/-! ## Bodies -/

/-- The property whose body is read, if it is of some kind. -/
def openProperty? (c : Context) (kind : PropertyKind) : Option Nat :=
  match c.property with
  | some (current, index) => if current = kind then some index else none
  | none => none

/-- Adds a property below the one whose body is read. -/
def openProperty (kind : PropertyKind) (id name : String) : Matcher Unit := do
  let parent := openProperty? (← get) kind
  let p ← project
  let set := p.properties kind
  match set.add? id name parent with
  | .error e => fail (.property e)
  | .ok grown =>
    let index := set.length
    -- the values of the parent are those of this moment
    let grown := grown.inheritAttributes index
    modify fun c => { c with
      project := some (p.setProperties kind grown), property := some (kind, index) }

/-- Goes back to the property around the one whose body is read. -/
def closeProperty : Matcher Unit :=
  modify fun c =>
    let parent := do
      let (kind, _) ← c.property
      return (kind, ← (← c.currentProperty?).parent)
    { c with property := parent }

/-- The next attributes are meant for the first scenario again. -/
def leaveScenario : Matcher Unit := modify fun c => { c with scenarioIndex := 0 }

/-! ## Attributes that grow -/

/-- Adds allocations to those of the task. -/
def addAllocations (added : List Allocation) : Matcher Unit := do
  let known := match (← get).scenarioAttribute? "allocate" with
    | some (.allocations known) => known
    | _ => []
  setScenarioAttribute "allocate" (.allocations (known ++ added))

/-- Adds flags, each once. -/
def addFlags (added : List String) : Matcher Unit := do
  let known := match (← get).scenarioAttribute? "flags" with
    | some (.flags known) => known
    | _ => []
  setScenarioAttribute "flags" (.flags (Plan.withFlags known added))

/-- Adds vacations to those of the resource. -/
def addVacations (added : List Calendar.Interval) : Matcher Unit := do
  let known := match (← get).scenarioAttribute? "vacations" with
    | some (.intervals known) => known
    | _ => []
  setScenarioAttribute "vacations" (.intervals (known ++ added))

/-! ## Ids -/

/-- The id of a task that is given relative to the one whose body is read. -/
def relativeTask (id : String) : Matcher String := do
  let tasks := (← project).tasks
  orFail (Plan.resolveRelative? tasks (openProperty? (← get) .task) id) .tooManyBangs

/-- The id of a resource, which has to be known. -/
def knownResource (id : String) : Matcher String := do
  match (← project).resources.byId? id with
  | some _ => return id
  | none => fail (.unknownResource id)

end Matcher

/-! ## Allocations -/

/-- What an attribute of an allocation changes: alternatives are further candidates, the others set
what they name. -/
def allocationWith (a : Allocation) : Value → Allocation
  | .pair (.str "alternative") (.list alternatives) =>
    { a with candidates := a.candidates ++ strings alternatives }
  | .pair (.str "select") (.str mode) =>
    { a with mode := (SelectionMode.ofWord? mode).getD .minLoaded }
  | .str "persistent" => { a with persistent := true }
  | .str "mandatory" => { a with mandatory := true }
  | _ => a

/-- An allocation of a resource with attributes. -/
def allocationOf (resource : String) (attributes : List Value) : Allocation :=
  attributes.foldl allocationWith ⟨[resource], .minLoaded, false, false⟩

/-! ## Actions -/

/-- What a statement about tasks and resources does. -/
def PropertyAction.perform (v : Values) : PropertyAction → Matcher (Option Value)
  | .header kind => do
    .openProperty kind (← .take v (v.string 1)) (← .take v (v.string 2))
    .leaveScenario
    return none
  | .close => do
    .closeProperty
    return none
  | .leaveScenario => do
    .leaveScenario
    return none
  | .allocate => do
    .addAllocations ((v.list 1).filterMap (·.allocation?))
    return none
  | .depends => do
    .setScenarioAttribute "depends" (.dependencies ((strings (v.list 1)).map TaskDependency.mk))
    return none
  | .ticks id => do
    .setScenarioAttribute id (.duration (← .take v (v.int 1)))
    return none
  | .start => do
    .setScenarioAttribute "start" (.date (← .take v (v.date 1)))
    .setScenarioAttribute "forward" (.boolean true)
    return none
  | .stop => do
    .setScenarioAttribute "end" (.date (← .take v (v.date 1)))
    .setScenarioAttribute "forward" (.boolean false)
    return none
  | .priority => do
    let priority ← .take v (v.int 1)
    if priority < 0 ∨ 1000 < priority then .fail .priorityOutOfRange
    .setScenarioAttribute "priority" (.integer priority)
    return none
  | .flags => do
    .addFlags (strings (v.list 1))
    return none
  | .vacation => do
    .addVacations (intervals (v.list 2))
    return none
  | .relativeId => do return some (.str (← .relativeTask (← .take v (v.string 0))))
  | .resourceId => do return some (.str (← .knownResource (← .take v (v.string 0))))
  | .allocation => do
    return some (.allocation (allocationOf (← .take v (v.string 0)) (v.list 1)))
  | .alternatives => return some (.pair (.str "alternative") (.list (v.list 1)))
  | .selectMode => do
    let word ← .take v (v.string 1)
    match SelectionMode.ofWord? word with
    | some _ => return some (.pair (.str "select") (.str word))
    | none => .fail .selectionModeExpected

end Planfile
