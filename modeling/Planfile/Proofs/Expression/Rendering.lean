import Planfile.Grammar.Rule
import Planfile.Parse.Context
import Planfile.Plan.Identifier
import Planfile.Plan.Logical
import Planfile.Plan.Project

/-!
# Planfile — expressions as tokens

An expression can be written down: every operand has its tokens, and an operation inside of another one
stands in parentheses, but for a negation, which is told by its mark. Of a call only the number of its
arguments is known, so these are written as integers. What can be written so in a project is said of each
operand: a flag is declared, a scenario is there, a name has no dots, a number has no sign, and a call has
an argument.

A plan goes on behind an expression. With some tokens it would go on in the expression itself: a single
operand takes an operator, and a flag would become a call in front of a parenthesis.

A grammar has seven rules for expressions. They are known by what they are declared as. The alternatives of an
operand, of an operator with its operand, and of a list of arguments start with tokens; the other rules start
as an operand does.

Main results:

* `Operator.text_mark` — the mark of an operator has its characters.
* `Project.NamesScenarios.scenarioIndex?` — a scenario is found by its id.
* `Operand.canTake_eq_false`, `Operation.canTake_eq_false` — which tokens an expression never goes on with.
* `idParts_attributeId` — the id of an attribute has two parts.
* `GrammarTable.hasExpressions_of_check` — where the check passes, a grammar has the rules.
-/

namespace Planfile.Plan

/-! ## Tokens -/

/-- The operators that stand between two operands. -/
def Operator.binary : List Operator :=
  [.or, .and, .greater, .less, .equal, .greaterOrEqual, .lessOrEqual]

/-- The mark that an operator is written as. -/
def Operator.mark : Operator → Mark
  | .or => .pipe
  | .and => .ampersand
  | .greater => .greater
  | .less => .less
  | .equal => .equals
  | .greaterOrEqual => .greaterOrEqual
  | .lessOrEqual => .lessOrEqual
  | .not => .tilde

/-- The mark of an operator has its characters. -/
theorem Operator.text_mark (o : Operator) : o.mark.text = o.symbol := by
  cases o <;> rfl

/-- Whether an operation is a negation. -/
def Operation.isNegation : Operation → Bool
  | .negation _ => true
  | _ => false

/-- The id of an attribute in a scenario. -/
def Project.attributeId (p : Project) (name : String) (scenario : Nat) : String :=
  ((p.scenario? scenario).map (·.id)).getD "" ++ "." ++ name

/-- Integers, each behind a comma. -/
def moreIntegerTokens (integers : List Int) : List Token :=
  integers.flatMap fun n => [.mark .comma, .integer n]

/-- Integers with commas between them. -/
def integerTokens : List Int → List Token
  | [] => []
  | n :: rest => .integer n :: moreIntegerTokens rest

section
variable (p : Project) (numbers : Nat → Int)

mutual

/-- The tokens of an operand in a project, where calls have some numbers as arguments. -/
def Operand.tokens : Operand → List Token
  | .operation o =>
    if o.isNegation then o.tokens else .mark .leftParen :: o.tokens ++ [.mark .rightParen]
  | .attribute name scenario => [.absoluteId (p.attributeId name scenario)]
  | .flag name => [.id name]
  | .date value => [.date value]
  | .integer value => [.integer value]
  | .string value => [.string value]
  | .call function count =>
    .id function :: .mark .leftParen :: integerTokens ((List.range count).map numbers) ++
      [.mark .rightParen]

/-- The tokens of an operation. -/
def Operation.tokens : Operation → List Token
  | .plain a => a.tokens
  | .negation a => .mark .tilde :: a.tokens
  | .binary a operator b => a.tokens ++ .mark operator.mark :: b.tokens

end

/-! ## What can be written -/

/-- The ids of the scenarios of a project. -/
def Project.scenarioIds : List String := p.scenarios.map (·.id)

/-- Whether no two scenarios of a project have the same id, and no dot is in one. -/
structure Project.NamesScenarios : Prop where
  nodup : p.scenarioIds.Nodup
  noDot : ∀ id ∈ p.scenarioIds, '.' ∉ id.toList

variable {p} in
/-- Then a scenario is found by its id. -/
theorem Project.NamesScenarios.scenarioIndex? (h : p.NamesScenarios) {i : Nat} {s : Scenario}
    (there : p.scenario? i = some s) : p.scenarioIndex? s.id = some i := by
  obtain ⟨inside, rfl⟩ := List.getElem?_eq_some_iff.mp there
  -- it is the first one with its id, since all others have other ones
  refine List.findIdx?_eq_some_iff_getElem.mpr ⟨inside, beq_self_eq_true _, fun j before same => ?_⟩
  have other := List.pairwise_iff_getElem.mp (List.pairwise_map.mp h.nodup) j i
    (Nat.lt_trans before inside) inside before
  exact other (beq_iff_eq.mp same)

mutual

/-- Whether an operand can be written in a project. -/
def Operand.IsWritable : Operand → Prop
  | .operation o => o.IsWritable
  | .attribute name scenario => '.' ∉ name.toList ∧ ∃ s, p.scenario? scenario = some s
  | .flag name => p.hasFlag name = true ∧ Terminal.isWord name = true
  | .date _ | .string _ => True
  | .integer value => 0 ≤ value
  | .call function count => Terminal.isWord function = true ∧ 1 ≤ count

/-- Whether an operation can be written in a project. -/
def Operation.IsWritable : Operation → Prop
  | .plain a | .negation a => a.IsWritable
  | .binary a operator b => a.IsWritable ∧ operator ≠ .not ∧ b.IsWritable

end

end

/-! ## Nesting of rules -/

mutual

/-- How many rules are inside each other where an operand is read. -/
def Operand.levels : Operand → Nat
  | .operation o => o.levels + 1
  | .flag _ => 2
  | .call _ count => if count ≤ 1 then 5 else 6
  | .attribute _ _ | .date _ | .integer _ | .string _ => 1

/-- How many rules are inside each other where an operation is read. Those of a negation are its
operand's. -/
def Operation.levels : Operation → Nat
  | .plain a => max a.levels 1 + 1
  | .negation a => a.levels
  | .binary a _ b => max a.levels (b.levels + 1) + 1

end

/-! ## What an expression would go on with -/

section
variable (next : Token)

/-- Whether a token is an operator that stands between two operands. -/
def isOperator : Bool := Operator.binary.any fun o => next.matchesLiteral o.symbol

mutual

/-- Whether an operand would go on with the token behind it. -/
def Operand.canTake : Operand → Bool
  | .operation o => o.isNegation && o.canTake
  | .flag _ => next.matchesLiteral "("
  | _ => false

/-- Whether an operation would go on with the token behind it. -/
def Operation.canTake : Operation → Bool
  | .plain a => isOperator next || a.canTake
  | .negation a | .binary _ _ a => a.canTake

end

variable {next}

/-- An operand goes on with nothing but a parenthesis. -/
theorem Operand.canTake_eq_false (h : next.matchesLiteral "(" = false) :
    ∀ a : Operand, a.canTake next = false
  | .operation o => by
    rw [canTake]
    cases o with
    | plain => rfl
    | binary => rfl
    | negation a => exact a.canTake_eq_false h
  | .flag _ => h
  | .attribute _ _ | .date _ | .integer _ | .string _ | .call _ _ => rfl

/-- An operation goes on with nothing but a parenthesis or an operator. -/
theorem Operation.canTake_eq_false (h : next.matchesLiteral "(" = false) (other : isOperator next = false)
    (o : Operation) : o.canTake next = false := by
  cases o with
  | plain a => rw [canTake, other, Bool.false_or, a.canTake_eq_false h]
  | negation a => exact a.canTake_eq_false h
  | binary _ _ b => exact b.canTake_eq_false h

end

/-! ## Ids of attributes -/

/-- A text without dots is one part. -/
theorem parts_of_not_mem {cs : List Char} (h : '.' ∉ cs) : parts cs = [cs] := by
  induction cs with
  | nil => rfl
  | cons c rest ih =>
    have other : c ≠ '.' := fun same => h (same ▸ List.mem_cons_self)
    rw [parts, if_neg other, ih fun mem => h (List.mem_cons_of_mem _ mem)]

/-- What stands in front of the first dot is the first part. -/
theorem parts_append_dot {cs : List Char} (h : '.' ∉ cs) (rest : List Char) :
    parts (cs ++ '.' :: rest) = cs :: parts rest := by
  induction cs with
  | nil => exact if_pos rfl
  | cons c cs ih =>
    have other : c ≠ '.' := fun same => h (same ▸ List.mem_cons_self)
    rw [List.cons_append, parts, if_neg other, ih fun mem => h (List.mem_cons_of_mem _ mem)]

/-- There is no dot in a part. -/
theorem not_mem_of_mem_parts {cs part : List Char} (h : part ∈ parts cs) : '.' ∉ part := by
  induction cs generalizing part with
  | nil =>
    rw [parts, List.mem_singleton] at h
    rw [h]
    exact List.not_mem_nil
  | cons c cs ih =>
    rw [parts] at h
    split at h
    · rcases List.mem_cons.mp h with rfl | later
      · exact List.not_mem_nil
      · exact ih later
    · next other =>
      -- the character goes to the first part of the rest
      cases first : parts cs with
      | nil => exact absurd first (parts_ne_nil cs)
      | cons head others =>
        rw [first] at h ih
        rcases List.mem_cons.mp h with rfl | later
        · intro mem
          rcases List.mem_cons.mp mem with same | mem
          · exact other same.symm
          · exact ih List.mem_cons_self mem
        · exact ih (List.mem_cons_of_mem _ later)

/-- The id of an attribute has two parts: the id of its scenario and its name. -/
theorem idParts_attributeId {p : Project} {i : Nat} {s : Scenario} (there : p.scenario? i = some s)
    (scenario : '.' ∉ s.id.toList) {name : String} (noDot : '.' ∉ name.toList) :
    idParts (p.attributeId name i) = [s.id, name] := by
  have id : p.attributeId name i = s.id ++ "." ++ name := by rw [Project.attributeId, there]; rfl
  have chars : (p.attributeId name i).toList = s.id.toList ++ '.' :: name.toList := by
    rw [id, String.toList_append, String.toList_append, List.append_assoc]
    rfl
  rw [idParts, chars, parts_append_dot scenario, parts_of_not_mem noDot, List.map_cons, List.map_singleton,
    String.ofList_toList, String.ofList_toList]

end Planfile.Plan

namespace Planfile

open Plan (Operator)

/-! ## The rules -/

/-- The rules of expressions, by their numbers. -/
structure ExpressionRules where
  expression : RuleId
  operation : RuleId
  chain : RuleId
  operand : RuleId
  argumentList : RuleId
  arguments : RuleId
  moreArguments : RuleId

namespace ExpressionRules

variable (r : ExpressionRules)

def expressionPattern : Pattern := ⟨[.rule r.operation], some (.logical .expression)⟩

def operationPattern : Pattern := ⟨[.rule r.operand, .rule r.chain], some (.logical .operation)⟩

/-- An operator with the operand behind it. -/
def chainPattern (o : Operator) : Pattern := ⟨[.literal o.symbol, .rule r.operand], some (.pair 1)⟩

def nestedPattern : Pattern :=
  ⟨[.literal "(", .rule r.operation, .literal ")"], some (.logical .nested)⟩

def negationPattern : Pattern := ⟨[.literal "~", .rule r.operand], some (.logical .negation)⟩

/-- A flag or a call. -/
def namePattern : Pattern := ⟨[.tokenClass .id, .rule r.argumentList], some (.logical .name)⟩

/-- An operand that is a single token. -/
def tokenPattern (c : TokenClass) (a : LogicalAction) : Pattern := ⟨[.tokenClass c], some (.logical a)⟩

def operandPatterns : List Pattern := [
  r.nestedPattern, r.negationPattern, tokenPattern .absoluteId .attributeOf, tokenPattern .date .date,
  r.namePattern, tokenPattern .integer .integer, tokenPattern .string .string]

def argumentListPattern : Pattern :=
  ⟨[.literal "(", .rule r.arguments, .literal ")"], some (.logical .arguments)⟩

def argumentsPattern : Pattern := ⟨[.rule r.operation, .rule r.moreArguments], some .collect⟩

def morePattern : Pattern := ⟨[.literal ",", .rule r.operation], some (.value 1)⟩

end ExpressionRules

namespace GrammarTable

/-- Whether the rules of expressions are those of a grammar. -/
structure HasExpressions (t : GrammarTable) (r : ExpressionRules) : Prop where
  expression : t.rule r.expression = ⟨"logicalExpression", [r.expressionPattern], false, false⟩
  operation : t.rule r.operation = ⟨"operation", [r.operationPattern], false, false⟩
  chain : t.rule r.chain = ⟨"operatorAndOperand", Operator.binary.map r.chainPattern, true, false⟩
  operand : t.rule r.operand = ⟨"operand", r.operandPatterns, false, false⟩
  argumentList : t.rule r.argumentList = ⟨"argumentList", [r.argumentListPattern], true, false⟩
  arguments : t.rule r.arguments = ⟨"arguments", [r.argumentsPattern], false, false⟩
  moreArguments : t.rule r.moreArguments = ⟨"moreArguments", [r.morePattern], true, true⟩

/-- Whether the rules of expressions are found to be those of a grammar. -/
def checkExpressions (t : GrammarTable) (r : ExpressionRules) : Bool :=
  t.rule r.expression == ⟨"logicalExpression", [r.expressionPattern], false, false⟩ &&
  t.rule r.operation == ⟨"operation", [r.operationPattern], false, false⟩ &&
  t.rule r.chain == ⟨"operatorAndOperand", Operator.binary.map r.chainPattern, true, false⟩ &&
  t.rule r.operand == ⟨"operand", r.operandPatterns, false, false⟩ &&
  t.rule r.argumentList == ⟨"argumentList", [r.argumentListPattern], true, false⟩ &&
  t.rule r.arguments == ⟨"arguments", [r.argumentsPattern], false, false⟩ &&
  t.rule r.moreArguments == ⟨"moreArguments", [r.morePattern], true, true⟩

/-- Where the check passes, a grammar has the rules of expressions. -/
theorem hasExpressions_of_check {t : GrammarTable} {r : ExpressionRules}
    (h : t.checkExpressions r = true) : t.HasExpressions r := by
  simp only [checkExpressions, Bool.and_eq_true, beq_iff_eq] at h
  obtain ⟨⟨⟨⟨⟨⟨expression, operation⟩, chain⟩, operand⟩, argumentList⟩, arguments⟩, moreArguments⟩ := h
  exact ⟨expression, operation, chain, operand, argumentList, arguments, moreArguments⟩

end GrammarTable

end Planfile
