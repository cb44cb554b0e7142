import Planfile.Grammar.Live
import Planfile.Parse.Context

/-!
# Planfile — the meaning of statements that extend the language

A plan can add attributes to tasks or resources. From then on the attribute is in the schema, and
its keyword, the id in lower case, is an alternative among the attributes of the extended kind. The
table that reading started with does not change.

Main results:

* `AttributeExtension.head_symbols` — an added alternative starts with its keyword.
-/

namespace Planfile

open Plan (AttributeDefinition AttributeKind AttributeValue PropertyKind)

/-- An attribute that a plan adds. -/
structure AttributeExtension where
  id : String
  name : String
  kind : AttributeKind
  inherit : Bool
  scenarioSpecific : Bool
  deriving DecidableEq, Repr

namespace AttributeExtension

/-- The keyword of an added attribute. -/
def keyword (e : AttributeExtension) : String := String.ofList (e.id.toList.map Char.toLower)

/-- The entry in the schema. -/
def definition (e : AttributeExtension) : AttributeDefinition :=
  ⟨e.id, e.name, e.kind, e.inherit, e.scenarioSpecific, true⟩

/-- How the attribute is written: its keyword and then its value. -/
def symbols (e : AttributeExtension) : List String :=
  ("_" ++ e.keyword) ::
    match e.kind with
    | .date => ["$DATE"]
    | .reference => ["$STRING", "!referenceBody"]
    | _ => ["$STRING"]

/-- An added alternative starts with its keyword. -/
theorem head_symbols (e : AttributeExtension) : e.symbols.head? = some ("_" ++ e.keyword) := rfl

/-- What reading the attribute does. -/
def action (e : AttributeExtension) : Action := .extend (.store e.id e.kind e.scenarioSpecific)

end AttributeExtension

/-- The value of an added attribute; the label of a reference is the first one given. -/
def extensionValue (kind : AttributeKind) (v : Values) : Except GrammarError AttributeValue :=
  match kind with
  | .date => (v.date 1).map .date
  | .reference => (v.string 1).map fun url => .reference url (strings (v.list 2)).head?
  | _ => (v.string 1).map .text

namespace Matcher

/-- The grammar in force. -/
def live : Matcher LiveGrammar := do return ⟨(← read).grammar, (← get).extensions⟩

/-- A fault of the grammar counts as one at the next token. -/
def sound (a : Except GrammarError α) : Matcher α :=
  match a with
  | .ok a => return a
  | .error e => failNext (.grammar e)

/-- Adds an attribute to the schema. -/
def defineAttribute (kind : PropertyKind) (d : AttributeDefinition) : Matcher Unit := do
  let p ← project
  match (p.properties kind).define? d with
  | .error e => fail (.property e)
  | .ok set => modify fun c => { c with project := some (p.setProperties kind set) }

/-- Adds an attribute to what is extended. -/
def applyExtension (e : AttributeExtension) : Matcher Unit := do
  let target ← orFail (← get).extendTarget .extensionTargetExpected
  let keyword := e.keyword
  if ← sound ((← live).ruleAccepts target.rule (.id keyword)) then
    report <| (Log.Event.error .extensionError "Extension keyword collision").detail
      "keyword" keyword
    fail (.extensionKeywordUsed keyword target.kind)
  -- the grammar grows only if the schema takes the attribute
  defineAttribute target.kind e.definition
  let symbols ← sound (e.symbols.mapM (← read).grammar.symbol)
  let rule := if e.scenarioSpecific then target.scenarioRule else target.rule
  modify fun c => { c with extensions := c.extensions ++ [(rule, ⟨symbols, some e.action⟩)] }
  if (← read).preferences.parser.logExtensions then
    report <| (Log.Event.success .extensionApplied "Attribute pattern appended").detailed
      [("attribute", e.id), ("property", target.kind.word),
        ("rule", ((← read).grammar.rule rule).name)]

/-- Chooses what is extended. -/
def chooseTarget (word : String) : Matcher Unit := do
  let (kind, rule, scenarioRule) ←
    if word = "task" then pure (.task, "taskAttributes", "taskScenarioAttributes")
    else if word = "resource" then
      pure (PropertyKind.resource, "resourceAttributes", "resourceScenarioAttributes")
    else fail .extensionTargetExpected
  let target : ExtendTarget := ⟨kind, ← ruleId rule, ← ruleId scenarioRule⟩
  modify fun c => { c with extendTarget := some target }

/-- The id of an added attribute, which starts with a capital letter. -/
def extensionId (id : String) : Matcher String :=
  if id.toList.head?.any Char.isUpper then return id else fail .extensionIdLowerCase

/-- Adds the attribute that a statement declares. -/
def declareAttribute (v : Values) (kind : AttributeKind) : Matcher Unit := do
  let options := strings (v.list 3)
  applyExtension {
    id := ← take v (v.string 1)
    name := ← take v (v.string 2)
    kind
    inherit := options.contains "inherit"
    scenarioSpecific := options.contains "scenariospecific" }

end Matcher

/-- What a statement about added attributes does. -/
def ExtendAction.perform (v : Values) : ExtendAction → Matcher (Option Value)
  | .target => do
    .chooseTarget (← .take v (v.string 0))
    return none
  | .close => do
    modify fun c => { c with extendTarget := none }
    return none
  | .declare kind => do
    .declareAttribute v kind
    return none
  | .id => do return some (.str (← .extensionId (← .take v (v.string 0))))
  | .store name kind scenarioSpecific => do
    let value ← .take v (extensionValue kind v)
    if scenarioSpecific then .setScenarioAttribute name value
    else .modifyProperty (·.set name value)
    return none

end Planfile
