import Planfile.Meaning.Calendar
import Planfile.Meaning.Extension
import Planfile.Meaning.Logical
import Planfile.Meaning.Project
import Planfile.Meaning.Property
import Planfile.Meaning.Report
import Planfile.Meaning.Scenario

/-!
# Planfile — the meaning of matched patterns

An action is performed when its pattern has been matched. It reads the values of the pattern, may
change the project, and may produce the value of the rule. One action matches another rule, so
performing depends on how rules are matched.

Matching itself knows actions by their names only. What stands behind the names is a `Meaning`, so what
holds of matching whatever actions do can be said of any meaning; that of plans is `Action.perform`.

Main results:

* `Action.perform_value` — passing a value on changes nothing.
-/

namespace Planfile

namespace Action

/-- Performs an action on the values of its pattern, where `matchRule` matches a rule. -/
def perform (matchRule : RuleId → Matcher (Option Value)) (v : Values) :
    Action → Matcher (Option Value)
  | .value i => return v.value? i
  | .required i => do return some (← .take v (v.required i))
  | .list i => return some (.list (v.list i))
  | .collect => return some (.list ((v.value? 0).toList ++ v.list 1))
  | .present i => return some (.bool (v.isPresent i))
  | .length => return some (.int v.length)
  | .string i => do return some (.str (← .take v (v.string i)))
  | .int i => do return some (.int (← .take v (v.int i)))
  | .number i => do return some (.float (← .take v (v.number i)))
  | .date i => do return some (.date (← .take v (v.date i)))
  | .time i => do return some (.time (← .take v (v.time i)))
  | .unit i => do return some (.unit (← .take v (v.unit i)))
  | .interval i => do return some (.interval (← .take v (v.interval i)))
  | .operand i => do return some (.operand (← .take v (v.operand i)))
  | .operation i => do return some (.operation (← .take v (v.operation i)))
  | .expression i => do return some (.expression (← .take v (v.expression i)))
  | .typeName i => return (v.value? i).map fun a => .str a.typeName
  | .pair i => do return some (.pair (← .take v (v.required 0)) (← .take v (v.required i)))
  | .location => return some (.str v.location.text)
  | .fail message => .fail (.custom message)
  | .includeFile i => do
    .includeFile (← .take v (v.string i))
    return none
  | .rule name => do matchRule (← .ruleId name)
  | .nothing => return none
  | .project action => do
    action.perform v
    return none
  | .scenario action => action.perform v
  | .property action => action.perform v
  | .extend action => action.perform v
  | .report action => action.perform v
  | .logical action => action.perform v
  | .calendar action => action.perform v

/-- Passing a value on changes nothing. -/
theorem perform_value (matchRule : RuleId → Matcher (Option Value)) (v : Values) (i : Nat)
    (env : Surroundings) (c : Context) :
    perform matchRule v (.value i) env c = (.ok (v.value? i), c) := rfl

end Action

/-- What stands behind the names of actions: how each is performed on the values of its pattern, where
`matchRule` matches a rule. -/
class Meaning where
  perform (matchRule : RuleId → Matcher (Option Value)) (v : Values) (a : Action) :
    Matcher (Option Value)

/-- What actions mean in plans. -/
instance Action.meaning : Meaning := ⟨fun matchRule v a => a.perform matchRule v⟩

/-- An action of a plan is performed as such. -/
@[simp] theorem Action.perform_meaning (a : Action) (matchRule : RuleId → Matcher (Option Value))
    (v : Values) : Meaning.perform matchRule v a = a.perform matchRule v := rfl

end Planfile
