import Planfile.Grammar.Error
import Planfile.Plan.Project
import Planfile.Token.Source

/-!
# Planfile — errors in a plan

The first error ends the reading of a plan. It says what is wrong, in the terms of the grammar or of
the plan itself, and where.

Main results:

* `ParseFault.message_semantic` — a semantic fault is worded on its own.
-/

namespace Planfile

open Calendar (DateTime)
open Plan (PropertyKind PropertyError ScenarioExists)

/-- What a statement gets wrong although it is well formed. -/
inductive SemanticFault where
  /-- A fault with a wording of its own. -/
  | custom (message : String)
  | noProject
  | noProperty
  | noReport
  | noColumn
  | noScenario
  | property (error : PropertyError)
  | scenarioExists (error : ScenarioExists)
  | unknownScenario (id : String)
  | unknownScenarioId (id : String)
  | unknownSortScenario (id : String)
  | fractionDigitsExpected (found : String)
  | timingTooFine
  | timingTooCoarse
  | dateOutsideProject (start stop : DateTime)
  | startOutsideProject (start : DateTime)
  | endOutsideProject (stop : DateTime)
  | intervalOutOfRange
  | intervalReversed (stop start : DateTime)
  | intervalEndExpected (found : String)
  | weekDaysExpected (found : String)
  | weekDayExpected (found : String)
  | timesReversed
  | unitExpected
  | priorityOutOfRange
  | tooManyBangs
  | unknownResource (id : String)
  | selectionModeExpected
  | extensionTargetExpected
  | extensionKeywordUsed (keyword : String) (kind : PropertyKind)
  | extensionIdLowerCase
  | unknownReportType (keyword : String)
  | unknownColumn (id : String)
  | sortCriterionExpected
  | sortDirectionExpected
  | unknownTask (id : String)
  | operandExpected (found : String)
  | operatorExpected (found : String)
  | unknownOperator (symbol : String)
  | attributePathExpected
  | undeclaredFlag (id : String)
  deriving DecidableEq, Repr

/-- The wording of a fault. -/
def SemanticFault.message : SemanticFault → String
  | .custom message => message
  | .noProject => "Project header expected"
  | .noProperty => "No task or resource in this context"
  | .noReport => "No report in this context"
  | .noColumn => "No column in this context"
  | .noScenario => "No scenario in this context"
  | .property e => e.message
  | .scenarioExists e => e.message
  | .unknownScenario id => s!"Unknown scenario {id}"
  | .unknownScenarioId id => s!"Unknown scenario ID {id}"
  | .unknownSortScenario id => s!"Unknown scenario {id} in sorting criterium"
  | .fractionDigitsExpected found => s!"Number of fraction digits expected, got '{found}'"
  | .timingTooFine => "Timing resolution must be at least 5 min"
  | .timingTooCoarse => "Timing resolution must be 1 hour or less"
  | .dateOutsideProject start stop =>
    s!"Date must be within the project time frame {start.planText} - {stop.planText}"
  | .startOutsideProject start =>
    s!"Start date {start.planText} must be within the project time frame"
  | .endOutsideProject stop =>
    s!"End date {stop.planText} must be within the project time frame"
  | .intervalOutOfRange => "Interval end is out of range"
  | .intervalReversed stop start =>
    s!"End date {stop.planText} must be after start date {start.planText}"
  | .intervalEndExpected found => s!"Interval end expected but found {found}"
  | .weekDaysExpected found => s!"Weekdays expected but found {found}"
  | .weekDayExpected found =>
    let names := String.intercalate ", " Calendar.weekdayNames
    s!"Weekday expected ({names}) but found '{found}'"
  | .timesReversed => "End time of interval must be larger than start time"
  | .unitExpected => s!"Unit must be one of {Plan.DurationUnit.wordList}"
  | .priorityOutOfRange => "Priority must have a value between 0 and 1000"
  | .tooManyBangs => "Too many '!' for relative task in this context"
  | .unknownResource id => s!"Resource ID expected: unknown resource {id}"
  | .selectionModeExpected => s!"Selection mode must be one of {Plan.SelectionMode.wordList}"
  | .extensionTargetExpected => "Extendable property expected: task or resource"
  | .extensionKeywordUsed keyword kind =>
    s!"The attribute keyword '{keyword}' is already used by a {kind.word} attribute"
  | .extensionIdLowerCase => "User defined attribute IDs must start with a capital letter"
  | .unknownReportType keyword => s!"Unknown report type {keyword}"
  | .unknownColumn id => s!"Unknown column {id}"
  | .sortCriterionExpected => "Sorting criterium expected (e.g. tree, start.up or plan.end.down)"
  | .sortDirectionExpected => "Sorting direction must be 'up' or 'down'"
  | .unknownTask id => s!"Unknown task {id}"
  | .operandExpected found => s!"Operand expected but found {found}"
  | .operatorExpected found => s!"Operator expected but found {found}"
  | .unknownOperator symbol => s!"Unknown operator {symbol}"
  | .attributePathExpected => "Attributes must be specified as <scenarioID>.<attribute>"
  | .undeclaredFlag id => s!"Undeclared flag {id}"

/-- What is wrong with a plan. -/
inductive ParseFault where
  | semantic (fault : SemanticFault)
  | unexpectedToken (expected found : String)
  /-- An identifier where an attribute could stand, but that is none. -/
  | unknownAttribute (keyword rule : String)
  | ruleExpected (rule found : String)
  | tokenMismatch (expected : TokenClass) (found : String)
  | lexical (error : LexError)
  /-- A file that cannot be included, for a reason that is not lexical. -/
  | includeFailed (error : SourceError)
  | grammar (error : GrammarError)
  | maxParseDepth (depth : Nat)
  deriving DecidableEq, Repr

namespace ParseFault

/-- A failed attempt to include a file; a lexical reason counts as a lexical fault. -/
def ofSourceError : SourceError → ParseFault
  | .lexical e => .lexical e
  | e => .includeFailed e

/-- The wording of a fault. -/
def message : ParseFault → String
  | .semantic f => f.message
  | .unexpectedToken expected found => s!"{expected} expected but found '{found}'"
  | .unknownAttribute keyword rule => s!"Unknown attribute '{keyword}' in {rule}"
  | .ruleExpected rule found => s!"{rule} expected but found '{found}'"
  | .tokenMismatch expected found => s!"Expected {expected.description} but found '{found}'"
  | .lexical e => e.message
  | .includeFailed e => e.message
  | .grammar e => e.message
  | .maxParseDepth depth => s!"Maximum parse depth of {depth} exceeded"

/-- A semantic fault words itself. -/
theorem message_semantic (f : SemanticFault) : (ParseFault.semantic f).message = f.message := rfl

/-- The code of a fault. -/
def code : ParseFault → Code
  | .semantic _ => .semanticError
  | .unexpectedToken _ _ => .unexpectedToken
  | .unknownAttribute _ _ => .unknownAttribute
  | .ruleExpected _ _ => .ruleExpected
  | .tokenMismatch _ _ => .tokenClassMismatch
  | .lexical e => e.code
  | .includeFailed _ => .includeFailed
  | .grammar e => e.code
  | .maxParseDepth _ => .maxParseDepth

end ParseFault

/-- A fault and its place. -/
structure ParseError where
  fault : ParseFault
  location : Location
  deriving DecidableEq, Repr

namespace ParseError

/-- The wording without the place. -/
def message (e : ParseError) : String := e.fault.message

/-- The wording behind the place. -/
def text (e : ParseError) : String := s!"{e.location.text}: {e.message}"

/-- The code of an error. -/
def code (e : ParseError) : Code := e.fault.code

end ParseError

end Planfile
