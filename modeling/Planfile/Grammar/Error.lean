import Planfile.Log.Code

/-!
# Planfile — defects of a grammar

Mistakes in the declaration of rules. Whoever writes a plan never sees one, unless the grammar that
the plan is read with is defective.
-/

namespace Planfile

/-- A defect of a grammar. -/
inductive GrammarError where
  | duplicateRule (name : String)
  | invalidSymbol (rule symbol : String)
  | emptyPattern (rule : String)
  | undefinedRule (rule name : String)
  /-- Two alternatives, by their place in the rule, that start with a common terminal. -/
  | ambiguousAlternatives (rule : String) (first second : Nat) (terminal : String)
  | leftRecursion (rule : String)
  | noProgress (rule : String)
  /-- A value of a pattern that is not what an action takes it for. -/
  | valueMismatch (index : Nat) (expected : String)
  deriving DecidableEq, Repr

namespace GrammarError

/-- The wording of a defect. -/
def message : GrammarError → String
  | .duplicateRule name => s!"Rule '{name}' is declared more than once"
  | .invalidSymbol rule symbol => s!"Rule '{rule}' has an invalid symbol '{symbol}'"
  | .emptyPattern rule => s!"Rule '{rule}' has an empty pattern"
  | .undefinedRule rule name => s!"Rule '{rule}' references undefined rule '{name}'"
  | .ambiguousAlternatives rule first second terminal =>
    s!"Rule '{rule}' has alternatives {first} and {second} that both start with {terminal}"
  | .leftRecursion rule => s!"Rule '{rule}' is left recursive"
  | .noProgress rule => s!"Repeatable rule '{rule}' matched without consuming input"
  | .valueMismatch index expected => s!"Pattern value {index} is not {expected}"

/-- The code of a defect. -/
def code : GrammarError → Code
  | .duplicateRule _ => .duplicateRule
  | .invalidSymbol _ _ => .invalidSymbol
  | .emptyPattern _ => .emptyPattern
  | .undefinedRule _ _ => .undefinedRule
  | .ambiguousAlternatives _ _ _ _ => .ambiguousAlternatives
  | .leftRecursion _ => .leftRecursion
  | .noProgress _ => .noProgress
  | .valueMismatch _ _ => .valueMismatch

end GrammarError

end Planfile
