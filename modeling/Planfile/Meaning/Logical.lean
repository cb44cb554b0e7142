import Planfile.Parse.Context
import Planfile.Plan.Identifier

/-!
# Planfile — the meaning of logical expressions

Expressions name flags, attributes in a scenario and constants. Flags have to be declared and
scenarios have to exist when an expression is read. A call of a function is kept with the number of
its arguments, and a warning says that it is not evaluated.
-/

namespace Planfile

open Plan (LogicalExpression Operand Operation Operator)

namespace Matcher

/-- The operator of a matched value. -/
def operatorOf : Value → Matcher Operator
  | .str symbol => orFail (Operator.ofSymbol? symbol) (.unknownOperator symbol)
  | other => fail (.operatorExpected other.typeName)

/-- The operation of an operand and of what follows it. -/
def operationOf (left : Operand) : Option Value → Matcher Operation
  | some (.pair operator right) => do
    let operator ← operatorOf operator
    match right with
    | .operand right => return .binary left operator right
    | other => fail (.operandExpected other.typeName)
  | _ => return .plain left

/-- The attribute of a scenario that an id names. -/
def attributeOperand (id : String) : Matcher Operand := do
  match Plan.idParts id with
  | [scenario, name] =>
    let index ← orFail ((← project).scenarioIndex? scenario) (.unknownScenarioId scenario)
    return .attribute name index
  | _ => fail .attributePathExpected

/-- A flag, which has to be declared. -/
def declaredFlag (id : String) : Matcher String := do
  if (← project).hasFlag id then return id else fail (.undeclaredFlag id)

/-- A call of a function, of which a warning tells. -/
def functionCall (function : String) (arguments : Nat) (location : Location) :
    Matcher Operand := do
  report <| (Log.Event.warning (some .unsupportedFunction)
    "Function calls in logical expressions are not evaluated").detailed
      [("function", function), ("arguments", toString arguments), ("location", location.text)]
  return .call function arguments

end Matcher

/-- The value of a part of an expression. -/
def LogicalAction.perform (v : Values) : LogicalAction → Matcher (Option Value)
  | .expression => do
    let operation ← .take v (v.operation 0)
    return some (.expression ⟨operation, v.location.file, v.location.line⟩)
  | .operation => do
    return some (.operation (← .operationOf (← .take v (v.operand 0)) (v.value? 1)))
  | .nested => do return some (.operand (.operation (← .take v (v.operation 1))))
  | .negation => do
    return some (.operand (.operation (.negation (← .take v (v.operand 1)))))
  | .attributeOf => do
    return some (.operand (← .attributeOperand (← .take v (v.string 0))))
  | .date => do return some (.operand (.date (← .take v (v.date 0))))
  | .name => do
    let id ← .take v (v.string 0)
    let operand ← if v.isPresent 1 then .functionCall id (v.list 1).length v.location
      else .flag <$> .declaredFlag id
    return some (.operand operand)
  | .integer => do return some (.operand (.integer (← .take v (v.int 0))))
  | .string => do return some (.operand (.string (← .take v (v.string 0))))
  | .arguments => return some (.list (v.list 1))
  | .flag => do return some (.str (← .declaredFlag (← .take v (v.string 0))))

end Planfile
