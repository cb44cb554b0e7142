import Planfile.Grammar.Table

/-!
# Planfile — declaring a grammar

Rules are declared by name, with symbols as text; a table is built from all declarations at once, so
rules may refer to rules that are declared later. Lists and chains of operands have declarations of
their own.

Main results:

* `build_eq_ok_iff` — a table is built if it is resolved and passes both checks.
-/

namespace Planfile

/-- An alternative as it is declared. -/
structure PatternDeclaration where
  symbols : List String
  action : Option Action
  deriving DecidableEq, Repr

/-- A rule as it is declared. -/
structure RuleDeclaration where
  name : String
  patterns : List PatternDeclaration
  optional : Bool
  repeatable : Bool
  deriving DecidableEq, Repr

namespace PatternDeclaration

/-- An alternative with an action. -/
def acting (symbols : List String) (action : Action) : PatternDeclaration :=
  ⟨symbols, some action⟩

/-- An alternative that produces no value. -/
def sequence (symbols : List String) : PatternDeclaration := ⟨symbols, none⟩

/-- An alternative of one symbol that produces the symbol's value. -/
def single (symbol : String) : PatternDeclaration := acting [symbol] (.value 0)

/-- A symbol between braces. -/
def inBraces (symbol : String) : List String := ["_\x7b", symbol, "_\x7d"]

end PatternDeclaration

namespace RuleDeclaration

/-- A rule that has to match once. -/
def once (name : String) (patterns : List PatternDeclaration) : RuleDeclaration :=
  ⟨name, patterns, false, false⟩

/-- A rule that may be absent. -/
def optionally (name : String) (patterns : List PatternDeclaration) : RuleDeclaration :=
  ⟨name, patterns, true, false⟩

/-- A rule that may be absent and may match again and again. -/
def anyNumber (name : String) (patterns : List PatternDeclaration) : RuleDeclaration :=
  ⟨name, patterns, true, true⟩

/-- A body that may be absent and produces no value. -/
def body (name content : String) : RuleDeclaration :=
  optionally name [.sequence (PatternDeclaration.inBraces content)]

/-- A body that may be absent and produces the value of its content. -/
def valueBody (name content : String) : RuleDeclaration :=
  optionally name [.acting (PatternDeclaration.inBraces content) (.value 1)]

/-- A rule that is a choice among single symbols. -/
def choice (name : String) (symbols : List String) : RuleDeclaration :=
  once name (symbols.map .single)

/-- The name of the rule for the further elements of a list. -/
def moreName (name : String) : String :=
  match name.toList with
  | [] => "more"
  | c :: rest => "more" ++ String.ofList (c.toUpper :: rest)

/-- A rule for one or more elements, and before it the rule for all but the first: each of these is
read as `continuation`, where the element stands at the place `index`. -/
def elements (name element : String) (continuation : List String) (index : Nat) :
    List RuleDeclaration :=
  [anyNumber (moreName name) [.acting continuation (.value index)],
    once name [.acting [element, "!" ++ moreName name] .collect]]

/-- One or more elements. -/
def listOf (name element : String) : List RuleDeclaration := elements name element [element] 0

/-- One or more elements with commas between them. -/
def commaListOf (name element : String) : List RuleDeclaration :=
  elements name element ["_,", element] 1

/-- An operator and the operand behind it, if there is one; it produces both. -/
def operandChain (name : String) (operators : List String) (operand : String) : RuleDeclaration :=
  optionally name (operators.map fun o => .acting ["_" ++ o, operand] (.pair 1))

end RuleDeclaration

namespace GrammarTable

/-- The name that is declared a second time. -/
def duplicate? : List String → List RuleDeclaration → Option String
  | _, [] => none
  | seen, d :: rest =>
    if seen.contains d.name then some d.name else duplicate? (d.name :: seen) rest

/-- Resolves the symbols of an alternative. -/
def resolvePattern (find : String → Option RuleId) (rule : String) (p : PatternDeclaration) :
    Except GrammarError Pattern :=
  if p.symbols.isEmpty then .error (.emptyPattern rule)
  else do
    let symbols ← p.symbols.mapM (resolveSymbol find rule)
    return ⟨symbols, p.action⟩

/-- Resolves the symbols of a rule. -/
def resolveRule (find : String → Option RuleId) (d : RuleDeclaration) : Except GrammarError Rule :=
  if d.patterns.isEmpty then .error (.emptyPattern d.name)
  else do
    let patterns ← d.patterns.mapM (resolvePattern find d.name)
    return ⟨d.name, patterns, d.optional, d.repeatable⟩

/-- The table of some declarations, not yet looked at as a whole. -/
def resolve (declarations : List RuleDeclaration) : Except GrammarError GrammarTable :=
  match duplicate? [] declarations with
  | some name => .error (.duplicateRule name)
  | none => do
    -- a rule may refer to rules that are declared behind it
    let find (name : String) : Option RuleId :=
      (declarations.findIdx? (·.name == name)).map RuleId.mk
    let rules ← declarations.mapM (resolveRule find)
    return ⟨rules.toArray⟩

/-- The table of some declarations, if they make a sound grammar. -/
def build (declarations : List RuleDeclaration) : Except GrammarError GrammarTable := do
  let table ← resolve declarations
  table.checkLeftRecursion
  table.checkAmbiguity
  return table

/-- A table is built if it is resolved and passes both checks. -/
theorem build_eq_ok_iff {declarations : List RuleDeclaration} {t : GrammarTable} :
    build declarations = .ok t ↔
      resolve declarations = .ok t ∧ t.checkLeftRecursion = .ok () ∧ t.checkAmbiguity = .ok () := by
  constructor
  · intro h
    unfold build at h
    cases hr : resolve declarations with
    | error e => simp [hr, bind, Except.bind] at h
    | ok table =>
      cases hl : table.checkLeftRecursion with
      | error e => simp [hr, hl, bind, Except.bind] at h
      | ok u =>
        cases ha : table.checkAmbiguity with
        | error e => simp [hr, hl, ha, bind, Except.bind] at h
        | ok v =>
          simp only [hr, hl, ha, bind, Except.bind, pure, Except.pure, Except.ok.injEq] at h
          subst h
          exact ⟨rfl, hl, ha⟩
  · rintro ⟨resolved, recursion, ambiguity⟩
    rw [build, resolved]
    simp [bind, Except.bind, pure, Except.pure, recursion, ambiguity]

end GrammarTable

end Planfile
