import Planfile.Grammar.Table
import Planfile.Grammar.Value
import Planfile.Parse.Error
import Planfile.Token.Narration

/-!
# Planfile — the state of a parse

While a plan is read, actions build up the project and remember what the statement around them is
about. This state outlives an error: what has been read and built stays as it is.

Main results:

* `Matcher.run_bind` — a computation followed by another runs in the state the first one leaves.
* `Matcher.run_nested_depth` — a nested computation that keeps the depth it is given leaves the
  depth as it was.
-/

namespace Planfile

open Plan (Project PropertyKind Property AttributeValue ReportElement Column)

/-- What stays the same while a plan is read. -/
structure Surroundings where
  grammar : GrammarTable
  files : File.System
  preferences : Settings.Preferences

/-- The rules to which attributes are added. -/
structure ExtendTarget where
  kind : PropertyKind
  rule : RuleId
  scenarioRule : RuleId
  deriving DecidableEq, Repr

/-- Where a repeatable rule last found nothing more. -/
structure StopMark where
  consumed : Nat
  rule : RuleId
  deriving DecidableEq, Repr

/-- The state of a parse. -/
structure Context where
  tokens : TokenSource
  /-- The alternatives that were added to rules, in order. -/
  extensions : List (RuleId × Pattern)
  project : Option Project
  /-- The task or resource whose body is read. -/
  property : Option (PropertyKind × Nat)
  /-- The scenario that attributes are meant for. -/
  scenarioIndex : Nat
  /-- The scenario whose body is read. -/
  scenario : Option Nat
  /-- Whether the scenario that a project starts with has given way to declared ones. -/
  scenariosReplaced : Bool
  /-- The report whose body is read. -/
  report : Option Nat
  /-- The column whose options are read. -/
  column : Option Column
  extendTarget : Option ExtendTarget
  /-- How many rules are being matched inside each other. -/
  depth : Nat
  stop : Option StopMark
  journal : Log.Journal

namespace Context

/-- The state before the first token. -/
def initial (tokens : TokenSource) (journal : Log.Journal) : Context where
  tokens := tokens
  extensions := []
  project := none
  property := none
  scenarioIndex := 0
  scenario := none
  scenariosReplaced := false
  report := none
  column := none
  extendTarget := none
  depth := 0
  stop := none
  journal := journal

/-- The task or resource whose body is read. -/
def currentProperty? (c : Context) : Option Property := do
  let (kind, index) ← c.property
  let project ← c.project
  (project.properties kind).get? index

/-- The value of an attribute of the current task or resource in the current scenario. -/
def scenarioAttribute? (c : Context) (id : String) : Option AttributeValue := do
  (← c.currentProperty?).getScenario? c.scenarioIndex id

end Context

/-! ## Computations on the state -/

/-- Why a computation ends early. -/
inductive Stop where
  | error (error : ParseError)
  /-- The fuel is used up. Only a plan whose includes never end gets here. -/
  | outOfFuel
  deriving DecidableEq, Repr

/-- A computation that reads tokens and changes the state. -/
abbrev Matcher := ReaderT Surroundings (ExceptT Stop (StateM Context))

namespace Matcher

/-- A value alone changes nothing. -/
@[simp] theorem run_pure (a : α) (env : Surroundings) (c : Context) :
    (pure a : Matcher α) env c = (.ok a, c) := rfl

/-- What follows a computation runs in the state that it leaves, unless it has ended early. -/
theorem run_bind (m : Matcher α) (f : α → Matcher β) (env : Surroundings) (c : Context) :
    (m >>= f) env c =
      match m env c with
      | (.ok a, c) => f a env c
      | (.error e, c) => (.error e, c) := by
  simp only [bind, ReaderT.bind, ExceptT.bind, ExceptT.mk, StateT.bind]
  rcases m env c with ⟨a | a, c⟩ <;> rfl

/-- The state can be looked at. -/
@[simp] theorem run_get (env : Surroundings) (c : Context) :
    (get : Matcher Context) env c = (.ok c, c) := rfl

/-- The surroundings can be looked at. -/
@[simp] theorem run_read (env : Surroundings) (c : Context) :
    (read : Matcher Surroundings) env c = (.ok env, c) := rfl

/-- A change of the state does not fail. -/
@[simp] theorem run_modify (f : Context → Context) (env : Surroundings) (c : Context) :
    (modify f : Matcher Unit) env c = (.ok (), f c) := rfl

/-- Ending early keeps the state. -/
@[simp] theorem run_throw (e : Stop) (env : Surroundings) (c : Context) :
    (throw e : Matcher α) env c = (.error e, c) := rfl

/-- Ends with an error at a given place. -/
def failAt (location : Location) (fault : ParseFault) : Matcher α :=
  throw (.error ⟨fault, location⟩)

/-- Ends with an error at the next token. -/
def failNext (fault : ParseFault) : Matcher α := do
  failAt (← get).tokens.location fault

/-- The error has the place of the next token, and the state is kept. -/
@[simp] theorem run_failNext (fault : ParseFault) (env : Surroundings) (c : Context) :
    (failNext fault : Matcher α) env c = (.error (.error ⟨fault, c.tokens.location⟩), c) := rfl

/-- Ends with a semantic fault at the token that was read last. -/
def fail (fault : SemanticFault) : Matcher α := do
  failAt (← get).tokens.lastLocation (.semantic fault)

/-- A value, or else a semantic fault at the token that was read last. -/
def orFail (a : Option α) (fault : SemanticFault) : Matcher α :=
  match a with
  | some a => return a
  | none => fail fault

/-- A value of a matched pattern; one of the wrong kind is a defect of the grammar. -/
def take (v : Values) (a : Except GrammarError α) : Matcher α :=
  match a with
  | .ok a => return a
  | .error e => failAt v.location (.grammar e)

/-- Reports an event. -/
def report (event : Log.Event) : Matcher Unit :=
  modify fun c => { c with journal := c.journal.record event }

/-- Runs a computation one level deeper, and comes back to the level of before, error or not. -/
def nested (m : Matcher α) : Matcher α := fun env => ExceptT.mk fun c =>
  let r := m env { c with depth := c.depth + 1 }
  (r.1, { r.2 with depth := r.2.depth - 1 })

/-- A computation that keeps the depth it is given leaves the depth as it was. -/
theorem run_nested_depth {m : Matcher α} {env : Surroundings} {c : Context}
    (h : (m env { c with depth := c.depth + 1 }).2.depth = c.depth + 1) :
    (nested m env c).2.depth = c.depth := by
  simp [nested, ExceptT.mk, h]

/-! ## The project and what is current in it -/

/-- The project, which a header has to have started. -/
def project : Matcher Project := do orFail (← get).project .noProject

/-- Changes the project. -/
def modifyProject (f : Project → Project) : Matcher Unit := do
  let p ← project
  modify fun c => { c with project := some (f p) }

/-- Changes the settings of the project. -/
def modifySettings (f : Plan.Settings → Plan.Settings) : Matcher Unit :=
  modifyProject (·.modifySettings f)

/-- The current task or resource. Without a project there is none, and that is what is wrong. -/
def currentProperty : Matcher Property := do
  let (kind, index) ← orFail (← get).property .noProperty
  orFail (((← project).properties kind).get? index) .noProperty

/-- Changes the current task or resource. -/
def modifyProperty (f : Property → Property) : Matcher Unit := do
  let c ← get
  let (kind, index) ← orFail c.property .noProperty
  let p ← orFail c.project .noProperty
  let set := p.properties kind
  let _ ← orFail (set.get? index) .noProperty
  modify fun c => { c with project := some (p.setProperties kind (set.modify index f)) }

/-- Sets an attribute of the current task or resource in the current scenario. -/
def setScenarioAttribute (id : String) (value : AttributeValue) : Matcher Unit := do
  let scenario := (← get).scenarioIndex
  modifyProperty (·.setScenario scenario id value)

/-- The current report's element. -/
def reportElement : Matcher ReportElement := do
  let c ← get
  let index ← orFail c.report .noReport
  let p ← orFail c.project .noReport
  return (← orFail p.reports[index]? .noReport).element

/-- Changes the current report. -/
def modifyReport (f : ReportElement → ReportElement) : Matcher Unit := do
  let c ← get
  let index ← orFail c.report .noReport
  let p ← orFail c.project .noReport
  let _ ← orFail p.reports[index]? .noReport
  modify fun c => { c with
    project := some { p with
      reports := p.reports.modify index fun r => { r with element := f r.element } } }

/-- Goes on with the tokens of a file. -/
def includeFile (path : String) : Matcher Unit := do
  let env ← read
  let c ← get
  modify fun c => { c with
    journal := Narration.included env.preferences env.files c.tokens path c.journal }
  -- an error has the place of the path, which has been read
  match c.tokens.pushInclude? env.preferences env.files path with
  | .ok tokens => modify fun c => { c with tokens := tokens }
  | .error e => failAt c.tokens.lastLocation (.ofSourceError e)

/-- The number of a rule of the grammar. -/
def ruleId (name : String) : Matcher RuleId := do
  match (← read).grammar.ruleId? name with
  | some id => return id
  | none => failNext (.grammar (.undefinedRule "<runtime>" name))

end Matcher

end Planfile
