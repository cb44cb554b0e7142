import Planfile.Meaning

/-!
# Planfile — matching rules

An alternative of a rule is chosen by the next token. Once chosen it has to match to its end: there
is no way back. An optional rule matches nothing where no alternative can start, and a repeatable
rule goes on until none can. Rules nest up to a limit.

An identifier that is not expected is called an unknown attribute if a repeatable rule has just come
to its end in front of it.

Main results:

* `Matcher.matchRule_tooDeep` — at the limit of nesting nothing is read.
* `Matcher.run_expectEnd_of_isEof` — the end of the text is accepted as such.
* `Matcher.run_takeProject` — taking the project leaves none.
-/

namespace Planfile

namespace Matcher

/-! ## Faults at the next token -/

/-- The fault of an identifier in front of which a repeatable rule has just come to its end. -/
def unknownAttribute? (g : GrammarTable) (c : Context) : Option ParseFault :=
  match c.tokens.peek, c.stop with
  | .id keyword, some stop =>
    if stop.consumed = c.tokens.consumed then
      some (.unknownAttribute keyword (g.rule stop.rule).name)
    else none
  | _, _ => none

/-- Ends because the next token does not fit, unless it is an unknown attribute. -/
def unfit (fault : ParseFault) : Matcher α := do
  failNext ((unknownAttribute? (← read).grammar (← get)).getD fault)

/-- Ends because something else is expected. -/
def expected (what : String) : Matcher α := do
  unfit (.unexpectedToken what (← get).tokens.peek.text)

/-- Requires that everything has been read. -/
def expectEnd : Matcher Unit := do
  if !(← get).tokens.peek.isEof then expected "End of input"

/-- The end of the text is accepted as such, and nothing is read. -/
theorem run_expectEnd_of_isEof {env : Surroundings} {c : Context}
    (h : c.tokens.peek.isEof = true) : expectEnd env c = (.ok (), c) := by
  simp [expectEnd, run_bind, h]

/-! ## Symbols -/

/-- Reads a token. -/
def consume : Matcher Token := do
  let c ← get
  match c.tokens.advance with
  | some (t, tokens) =>
    let logIncludes := (← read).preferences.parser.logIncludes
    modify fun c => { c with
      tokens, journal := Narration.advanced logIncludes c.tokens c.journal }
    return t.token
  | none => expected "A token"

/-- Matches a symbol, where `matchRule` matches a rule. -/
def matchSymbol (matchRule : RuleId → Matcher (Option Value)) : Symbol → Matcher MatchedValue
  | .literal text => do
    if !(← get).tokens.peek.matchesLiteral text then expected s!"'{text}'"
    let _ ← consume
    return .literal text
  | .tokenClass c => do
    let next := (← get).tokens.peek
    if next.class? ≠ some c then unfit (.tokenMismatch c next.text)
    return .token (← consume)
  | .rule id => return .rule (← matchRule id)

/-- Matches symbols one after the other. -/
def matchSymbols (matchRule : RuleId → Matcher (Option Value)) :
    List Symbol → Matcher (List MatchedValue)
  | [] => return []
  | s :: rest => do
    let item ← matchSymbol matchRule s
    return item :: (← matchSymbols matchRule rest)

/-! ## Patterns and rules -/

section
variable [Meaning]

/-- Matches a pattern and performs its action. -/
def matchPattern (matchRule : RuleId → Matcher (Option Value)) (p : Pattern) :
    Matcher (Option Value) := do
  let location := (← get).tokens.location
  let items ← matchSymbols matchRule p.symbols
  match p.action with
  | some action =>
    report <| (Log.Event.debug "Running pattern action").detail "symbols" (toString items.length)
    Meaning.perform matchRule ⟨items, location⟩ action
  | none => return none

/-- The alternative of a rule that the next token chooses: of several, the first. -/
def choose (rule : RuleId) : Matcher (Option Pattern) := do
  let env ← read
  let token := (← get).tokens.peek
  -- a sound grammar leaves at most one alternative
  let found ← sound ((← live).candidates rule token)
  if 1 < found.length && env.preferences.parser.warnOnAmbiguity then
    report <| (Log.Event.warning (some .ambiguousMatch)
      "Several alternatives match; using the first").detailed
        [("rule", (env.grammar.rule rule).name), ("token", token.text),
          ("candidates", toString found.length)]
  return found.head?

/-- Ends because a rule is expected. -/
def ruleExpected (name : String) : Matcher α := do
  failNext (.ruleExpected name (← get).tokens.peek.text)

/-- Notes that a repeatable rule has come to its end. -/
def markStop (rule : RuleId) : Matcher Unit :=
  modify fun c => { c with stop := some ⟨c.tokens.consumed, rule⟩ }

/-- Matches a repeatable rule as long as an alternative can start, and collects the values, the
latest first. Every match has to read something. -/
def matchRepeatedly (matchRule : RuleId → Matcher (Option Value)) (rule : RuleId)
    (mayStop : Bool) : Nat → List Value → Matcher (List Value)
  | 0, _ => throw .outOfFuel
  | fuel + 1, values => do
    match ← choose rule with
    | none =>
      if !mayStop then ruleExpected ((← read).grammar.rule rule).name
      -- an identifier that does not fit from here on may be a misspelt attribute of this rule
      markStop rule
      return values
    | some p =>
      let before := (← get).tokens.consumed
      let value ← matchPattern matchRule p
      -- the same alternative would be chosen over and over
      if (← get).tokens.consumed = before then
        failNext (.grammar (.noProgress ((← read).grammar.rule rule).name))
      matchRepeatedly matchRule rule true fuel (value.toList ++ values)

/-- Matches one of the alternatives of a rule, or several if it is repeatable. A repeatable rule
produces the list of the values, if there are any. -/
def matchAlternatives (matchRule : RuleId → Matcher (Option Value)) (fuel : Nat)
    (rule : RuleId) : Matcher (Option Value) := do
  let definition := (← read).grammar.rule rule
  if definition.repeatable then
    let values ← matchRepeatedly matchRule rule definition.optional fuel []
    return if values.isEmpty then none else some (.list values.reverse)
  else
    match ← choose rule with
    | some p => matchPattern matchRule p
    | none => if definition.optional then return none else ruleExpected definition.name

/-- Matches a rule. The fuel bounds how deeply rules nest and how often a rule is repeated. -/
def matchRule : Nat → RuleId → Matcher (Option Value)
  | 0, _ => throw .outOfFuel
  | fuel + 1, rule => do
    if Limits.parseDepth ≤ (← get).depth then failNext (.maxParseDepth Limits.parseDepth)
    nested (matchAlternatives (matchRule fuel) fuel rule)

/-- At the limit of nesting nothing is read. -/
theorem matchRule_tooDeep {env : Surroundings} {c : Context} (fuel : Nat) (rule : RuleId)
    (h : Limits.parseDepth ≤ c.depth) :
    matchRule (fuel + 1) rule env c =
      (.error (.error ⟨.maxParseDepth Limits.parseDepth, c.tokens.location⟩), c) := by
  simp [matchRule, run_bind, h]

/-- More fuel than a run can use. -/
def ampleFuel : Nat := Nat.pow 2 62

/-- Matches the rule of a name. -/
def parseRule (name : String) : Matcher (Option Value) := do
  matchRule ampleFuel (← ruleId name)

end

end Matcher

end Planfile

/-!
## Matching a plan

A plan is matched from its first token to its last, and what comes out is its project.
-/

namespace Planfile.Matcher

/-- The project, which is no longer kept. -/
def takeProject : Matcher (Option Plan.Project) := do
  let p := (← get).project
  modify fun c => { c with project := none }
  return p

/-- The project is given and is no longer there. -/
theorem run_takeProject (env : Surroundings) (c : Context) :
    takeProject env c = (.ok c.project, { c with project := none }) := rfl

/-- Matches a whole plan. -/
def plan : Matcher Plan.Project := do
  let _ ← parseRule "project"
  expectEnd
  orFail (← takeProject) .noProject

end Planfile.Matcher
