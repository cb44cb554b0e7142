import Planfile.Grammar.Declaration

/-!
# Planfile — the language: reports

A report has a kind and a name, and a body that says what it shows. Filters are logical
expressions: an operand with at most one operator and operand behind it, where longer expressions
use parentheses.
-/

namespace Planfile.Language

open PatternDeclaration RuleDeclaration

/-- What the body of a report says. -/
def reportAttributes : List PatternDeclaration := [
  acting ["_columns", "!columnDefs"] (.report .columns),
  acting ["_end", "!valDate"] (.report .stop),
  acting ["_headline", "$STRING"] (.report .headline),
  acting ["_hideresource", "!logicalExpression"] (.report .hideResource),
  acting ["_hidetask", "!logicalExpression"] (.report .hideTask),
  acting ["_period", "!valInterval"] (.report .period),
  acting ["_rolluptask", "!logicalExpression"] (.report .rollupTask),
  acting ["_scenarios", "!scenarioIdList"] (.report .scenarios),
  acting ["_sortresources", "!sortCriteria"] (.report .sortResources),
  acting ["_sorttasks", "!sortCriteria"] (.report .sortTasks),
  acting ["_start", "!valDate"] (.report .start),
  acting ["_taskroot", "!taskRootId"] (.report .taskRoot),
  acting ["_timeformat", "$STRING"] (.report .timeFormat)]

/-- The rules of reports. -/
def reportRules : List RuleDeclaration :=
  [once "report" [acting ["!reportHeader", "!reportBody"] (.report .close)],
    once "reportHeader" [acting ["!reportType", "$STRING"] (.report .header)],
    choice "reportType" ["_export", "_htmltaskreport", "_htmlresourcereport"],
    body "reportBody" "!reportAttributes",
    anyNumber "reportAttributes" reportAttributes] ++
  commaListOf "columnDefs" "!columnDef" ++
  [once "columnDef" [acting ["!columnId", "!columnBody"] (.report .column)],
    once "columnId" [acting ["$ID"] (.report .columnId)],
    body "columnBody" "!columnOptions",
    anyNumber "columnOptions" [acting ["_title", "$STRING"] (.report .columnTitle)]] ++
  commaListOf "sortCriteria" "!sortCriterium" ++
  [once "sortCriterium" [
    acting ["$ABSOLUTE_ID"] (.report .sortPath), acting ["$ID"] (.report .sortTree)]]

/-- The rules of logical expressions. -/
def logicalRules : List RuleDeclaration :=
  [once "logicalExpression" [acting ["!operation"] (.logical .expression)],
    once "operation" [acting ["!operand", "!operatorAndOperand"] (.logical .operation)],
    operandChain "operatorAndOperand" ["|", "&", ">", "<", "=", ">=", "<="] "!operand",
    once "operand" [
      acting ["_(", "!operation", "_)"] (.logical .nested),
      acting ["_~", "!operand"] (.logical .negation),
      acting ["$ABSOLUTE_ID"] (.logical .attributeOf),
      acting ["$DATE"] (.logical .date),
      acting ["$ID", "!argumentList"] (.logical .name),
      acting ["$INTEGER"] (.logical .integer),
      acting ["$STRING"] (.logical .string)],
    optionally "argumentList" [acting ["_(", "!arguments", "_)"] (.logical .arguments)]] ++
  commaListOf "arguments" "!operation" ++
  [once "flag" [acting ["$ID"] (.logical .flag)]] ++
  commaListOf "flagList" "!flag"

end Planfile.Language
