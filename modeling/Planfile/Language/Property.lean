import Planfile.Grammar.Declaration

/-!
# Planfile — the language: tasks and resources

Tasks and resources nest in bodies of their own kind. Their attributes can be meant for a scenario,
which is named before the attribute.
-/

namespace Planfile.Language

open PatternDeclaration RuleDeclaration

/-- The attributes of a task. -/
def taskAttributes : List PatternDeclaration := [
  acting ["_allocate", "!resourceAllocations"] (.property .allocate),
  acting ["_depends", "!taskList"] (.property .depends),
  acting ["_duration", "!calendarDuration"] (.property (.ticks "duration")),
  acting ["_effort", "!workingDuration"] (.property (.ticks "effort")),
  acting ["_end", "!valDate"] (.property .stop),
  acting ["_flags", "!flagList"] (.property .flags),
  acting ["_length", "!workingDuration"] (.property (.ticks "length")),
  acting ["_priority", "$INTEGER"] (.property .priority),
  acting ["_start", "!valDate"] (.property .start)]

/-- The rules of tasks. -/
def taskRules : List RuleDeclaration :=
  [once "task" [acting ["!taskHeader", "!taskBody"] (.property .close)],
    once "taskHeader" [acting ["_task", "$ID", "$STRING"] (.property (.header .task))],
    body "taskBody" "!taskAttributes",
    anyNumber "taskAttributes" [
      sequence ["!task"],
      sequence ["!taskScenarioAttributes"],
      acting ["!scenarioId", "!taskScenarioAttributes"] (.property .leaveScenario)],
    once "taskScenarioAttributes" taskAttributes,
    once "taskId" [
      single "$ABSOLUTE_ID", single "$ID", acting ["$RELATIVE_ID"] (.property .relativeId)]] ++
  commaListOf "taskList" "!taskId" ++
  [choice "taskRootId" ["$ABSOLUTE_ID", "$ID"]]

/-- The rules of resources and of their allocation. -/
def resourceRules : List RuleDeclaration :=
  [once "resource" [acting ["!resourceHeader", "!resourceBody"] (.property .close)],
    once "resourceHeader" [
      acting ["_resource", "$ID", "$STRING"] (.property (.header .resource))],
    body "resourceBody" "!resourceAttributes",
    anyNumber "resourceAttributes" [
      sequence ["!resource"],
      sequence ["!resourceScenarioAttributes"],
      acting ["!scenarioId", "!resourceScenarioAttributes"] (.property .leaveScenario),
      sequence ["!workinghours"]],
    once "resourceScenarioAttributes" [
      acting ["_flags", "!flagList"] (.property .flags),
      acting ["_vacation", "!vacationName", "!intervals"] (.property .vacation)],
    once "resourceId" [acting ["$ID"] (.property .resourceId)]] ++
  commaListOf "resourceIds" "!resourceId" ++
  [once "resourceAllocation" [
    acting ["!resourceId", "!allocationAttributes"] (.property .allocation)]] ++
  commaListOf "resourceAllocations" "!resourceAllocation" ++
  [valueBody "allocationAttributes" "!allocationAttribute",
    anyNumber "allocationAttribute" [
      acting ["_alternative", "!resourceIds"] (.property .alternatives),
      acting ["_select", "$ID"] (.property .selectMode),
      single "_persistent",
      single "_mandatory"]]

/-- An attribute that is added, written with a keyword for its kind. -/
def extension (keyword : String) (kind : Plan.AttributeKind) : PatternDeclaration :=
  acting ["_" ++ keyword, "!extendId", "$STRING", "!extendOptionsBody"] (.extend (.declare kind))

/-- The rules by which attributes are added. -/
def extendRules : List RuleDeclaration := [
  once "extendProperty" [acting ["$ID"] (.extend .target)],
  body "extendBody" "!extendAttributes",
  anyNumber "extendAttributes" [
    extension "date" .date, extension "reference" .reference, extension "text" .text],
  once "extendId" [acting ["$ID"] (.extend .id)],
  valueBody "extendOptionsBody" "!extendOptions",
  anyNumber "extendOptions" [single "_inherit", single "_scenariospecific"],
  valueBody "referenceBody" "!referenceAttributes",
  anyNumber "referenceAttributes" [acting ["_label", "$STRING"] (.value 1)]]

end Planfile.Language
