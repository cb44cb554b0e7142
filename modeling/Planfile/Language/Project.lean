import Planfile.Grammar.Declaration

/-!
# Planfile — the language: projects

A plan has a header with the time of the project, a body with settings, and then the properties of
the project. A file can be included in the body and among the properties.
-/

namespace Planfile.Language

open PatternDeclaration RuleDeclaration

/-- The five strings that describe how numbers are written. -/
def formatSymbols (keyword : String) : List String := ("_" ++ keyword) :: List.replicate 5 "$STRING"

/-- The settings in the body of a project. -/
def projectSettings : List PatternDeclaration := [
  acting (formatSymbols "currencyformat") (.project .currencyFormat),
  acting ["_currency", "$STRING"] (.project .currency),
  acting ["_dailyworkinghours", "!number"] (.project .dailyWorkingHours),
  acting ["_extend", "!extendProperty", "!extendBody"] (.extend .close),
  single "!include",
  acting ["_now", "$DATE"] (.project .now),
  acting (formatSymbols "numberformat") (.project .numberFormat),
  sequence ["!scenario"],
  acting ["_shorttimeformat", "$STRING"] (.project .shortTimeFormat),
  acting ["_timeformat", "$STRING"] (.project .timeFormat),
  acting ["!timezone"] (.project .timezone),
  acting ["_timingresolution", "!intervalDuration"] (.project .timingResolution),
  acting ["_weekstartsmonday"] (.project (.weekStartsMonday true)),
  acting ["_weekstartssunday"] (.project (.weekStartsMonday false)),
  acting ["_yearlyworkingdays", "!number"] (.project .yearlyWorkingDays)]

/-- The rules of projects. -/
def projectRules : List RuleDeclaration := [
  once "project" [sequence ["!projectHeader", "!projectBody", "!properties"]],
  once "projectHeader" [
    acting ["_project", "$ID", "$STRING", "$STRING", "!interval"] (.project .header)],
  body "projectBody" "!projectBodyAttributes",
  anyNumber "projectBodyAttributes" projectSettings,
  once "include" [acting ["_include", "$STRING"] (.includeFile 1)],
  once "timezone" [acting ["_timezone", "$STRING"] (.value 1)]]

/-- The rules of what follows the body of a project. -/
def propertyRules : List RuleDeclaration :=
  [anyNumber "properties" [
    acting ["_copyright", "$STRING"] (.project .copyright),
    single "!include",
    acting ["_flags", "!declareFlagList"] (.project .declareFlags),
    sequence ["!report"],
    sequence ["!resource"],
    sequence ["!task"],
    acting ["_vacation", "!vacationName", "!intervals"] (.project .vacation),
    sequence ["!workinghours"]]] ++
  commaListOf "declareFlagList" "$ID" ++
  [optionally "vacationName" [single "$STRING"]]

/-- The rules of scenarios. -/
def scenarioRules : List RuleDeclaration :=
  [once "scenario" [acting ["!scenarioHeader", "!scenarioBody"] (.scenario .close)],
    once "scenarioHeader" [acting ["_scenario", "$ID", "$STRING"] (.scenario .header)],
    body "scenarioBody" "!scenarioAttributes",
    anyNumber "scenarioAttributes" [
      sequence ["!scenario"],
      acting ["_disabled"] (.scenario (.enable false)),
      acting ["_enabled"] (.scenario (.enable true))],
    once "scenarioId" [acting ["$ID_WITH_COLON"] (.scenario .select)],
    once "scenarioIdx" [acting ["$ID"] (.scenario .index)]] ++
  commaListOf "scenarioIdList" "!scenarioIdx"

end Planfile.Language
