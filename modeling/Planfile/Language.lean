import Planfile.Language.Calendar
import Planfile.Language.Project
import Planfile.Language.Property
import Planfile.Language.Report

/-!
# Planfile — the language of plans

The grammar that plans are read with, put together from its areas.
-/

namespace Planfile.Language

/-- The areas of the language, in the order in which their rules are declared. -/
def areas : List (String × List RuleDeclaration) := [
  ("project", projectRules),
  ("properties", propertyRules),
  ("scenario", scenarioRules),
  ("task", taskRules),
  ("resource", resourceRules),
  ("extend", extendRules),
  ("report", reportRules),
  ("logical", logicalRules),
  ("calendar", calendarRules),
  ("durations", durationRules)]

/-- All rules. -/
def declarations : List RuleDeclaration := areas.flatMap (·.2)

/-- The grammar of plans. -/
def grammar : Except GrammarError GrammarTable := GrammarTable.build declarations

end Planfile.Language
