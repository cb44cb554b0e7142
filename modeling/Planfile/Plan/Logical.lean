import Planfile.Calendar.DateTime

/-!
# Planfile — logical expressions

Reports choose what they show by logical expressions. One level of an expression is an operand,
its negation, or two operands with an operator between them; deeper expressions use parentheses.
-/

namespace Planfile.Plan

/-- The operators of logical expressions. -/
inductive Operator where
  | or
  | and
  | greater
  | less
  | equal
  | greaterOrEqual
  | lessOrEqual
  | not
  deriving DecidableEq, Repr

/-- All operators. -/
def Operator.all : List Operator :=
  [.or, .and, .greater, .less, .equal, .greaterOrEqual, .lessOrEqual, .not]

/-- The characters of an operator. -/
def Operator.symbol : Operator → String
  | .or => "|"
  | .and => "&"
  | .greater => ">"
  | .less => "<"
  | .equal => "="
  | .greaterOrEqual => ">="
  | .lessOrEqual => "<="
  | .not => "~"

/-- The operator that some characters stand for. -/
def Operator.ofSymbol? (symbol : String) : Option Operator := all.find? (·.symbol == symbol)

/-- Every operator is found by its characters. -/
theorem Operator.ofSymbol?_symbol (o : Operator) : ofSymbol? o.symbol = some o := by
  cases o <;> rfl

mutual

/-- What an operation works on. -/
inductive Operand where
  | operation (operation : Operation)
  /-- An attribute in one scenario. -/
  | attribute (name : String) (scenario : Nat)
  | flag (name : String)
  | date (value : Calendar.DateTime)
  | integer (value : Int)
  | string (value : String)
  /-- A call of a function, which is read but not evaluated. -/
  | call (function : String) (arguments : Nat)

/-- One level of an expression. -/
inductive Operation where
  | plain (operand : Operand)
  | negation (operand : Operand)
  | binary (left : Operand) (operator : Operator) (right : Operand)

end

/-- An operation and the place where it is written. -/
structure LogicalExpression where
  operation : Operation
  file : String
  line : Nat

end Planfile.Plan
