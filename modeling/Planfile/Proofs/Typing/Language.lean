import Planfile.Language.Sound
import Planfile.Proofs.Typing.Soundness

/-!
# Planfile — the language is well typed

Whether a grammar is well typed is found out rule by rule, without a plan. The rules of the language
are, so whatever a plan says and includes, it is never refused for a defect of the grammar.

Main results:

* `GrammarTable.typed_of_check` — what the check passes is well typed.
* `Language.not_blamesGrammar` — no plan is refused for a defect of the grammar.
-/

namespace Planfile

/-! ## Checking a grammar -/

/-- Whether a pattern is found to give what its rule says. -/
def Pattern.check (ofRule : RuleId → Shape) (rule : RuleId) (p : Pattern) : Bool :=
  (p.gives? ofRule).any (·.fits (ofRule rule))

namespace GrammarTable

/-- Whether a rule is found to be well typed, and to start within the limit. -/
def checkRule (t : GrammarTable) (ofRule : RuleId → Shape) (id : RuleId) : Bool :=
  let r := t.rule id
  r.patterns.all (·.check ofRule id) && (!r.optional || Shape.absent.fits (ofRule id)) &&
    (!r.repeatable || ofRule id == .any) && t.startsWithin (Limits.firstSetDepth + 1) (.rule id)

/-- Whether a grammar is found to be well typed. -/
def check (t : GrammarTable) (ofRule : RuleId → Shape) : Bool :=
  (List.range t.rules.size).all (fun i => t.checkRule ofRule ⟨i⟩) &&
    extendableNames.all (fun name => (t.ruleId? name).any (ofRule · == .any)) &&
    (t.ruleId? "referenceBody").isSome

variable {t : GrammarTable} {ofRule : RuleId → Shape}

/-- The check of a table is one of each rule, those beyond the table included. -/
theorem checkRule_of_check (h : t.check ofRule = true) (id : RuleId) :
    (t.rule id = default) ∨ t.checkRule ofRule id = true := by
  unfold check at h
  simp only [Bool.and_eq_true, List.all_eq_true, List.mem_range] at h
  exact rule_eq_default_or_of_all h.1.1 id

/-- What the check passes is well typed. -/
theorem typed_of_check (h : t.check ofRule = true) : t.Typed ofRule := by
  -- each rule has passed its check, or is one without alternatives
  have rules := checkRule_of_check h
  simp only [check, Bool.and_eq_true] at h
  obtain ⟨⟨-, names⟩, reference⟩ := h
  have extendable (name : String) (listed : name ∈ extendableNames) :
      ∃ id, t.ruleId? name = some id ∧ ofRule id = .any := by
    have found := List.all_eq_true.mp names name listed
    simpa [Option.any_eq_true] using found
  refine ⟨⟨fun name listed => ?_, Option.isSome_iff_exists.mp reference, fun id => ?_⟩,
    fun id p hp => ?_, fun id optional => ?_, fun id repeatable => ?_,
    fun id ⟨name, listed, known⟩ => ?_⟩
  · obtain ⟨id, known, -⟩ := extendable name listed
    exact ⟨id, known⟩
  · rcases rules id with absent | passed
    · rw [startsWithin, absent]
      rfl
    · simp only [checkRule, Bool.and_eq_true] at passed
      exact passed.2
  · rcases rules id with absent | passed
    · rw [absent] at hp
      cases hp
    · simp only [checkRule, Bool.and_eq_true, List.all_eq_true] at passed
      exact (Option.any_eq_true _ _).mp (passed.1.1.1 p hp)
  · rcases rules id with absent | passed
    · rw [absent] at optional
      cases optional
    · simp only [checkRule, Bool.and_eq_true, optional] at passed
      exact passed.1.1.2
  · rcases rules id with absent | passed
    · rw [absent] at repeatable
      cases repeatable
    · simp only [checkRule, Bool.and_eq_true, repeatable] at passed
      simpa using passed.1.2
  · obtain ⟨other, same, any⟩ := extendable name listed
    rw [known] at same
    exact Option.some.inj same ▸ any

end GrammarTable

/-! ## The rules of the language -/

namespace Language

/-- What the rules of the language give, where somebody takes it for what it is. -/
def shapes : List (String × Shape) := [
  ("interval", .interval), ("valInterval", .interval), ("intervalEnd", .intervalEnd),
  ("valDate", .date), ("intervalDuration", .int), ("calendarDuration", .int),
  ("workingDuration", .int), ("number", .number), ("durationUnit", .unit),
  ("weekDayInterval", .weekDays), ("listOfDays", .weekDays), ("timezone", .text),
  ("taskId", .text), ("taskRootId", .text), ("resourceId", .text), ("flag", .text),
  ("extendId", .name), ("reportType", .reportWord), ("logicalExpression", .expression),
  ("operation", .operation), ("operand", .operand), ("operatorAndOperand", .chain)]

/-- What a rule of a grammar gives by its name. -/
def shapeIn (t : GrammarTable) (id : RuleId) : Shape :=
  (shapes.lookup (t.rule id).name).getD .any

/-- The rules of the language are found to be well typed, and one of them is for projects. -/
theorem check_grammar :
    satisfies (fun t => t.check (shapeIn t) && (t.ruleId? "project").isSome) = true := by
  decide +kernel

/-- The rules of the language make a well-typed grammar. -/
theorem exists_typed : ∃ table, grammar = .ok table ∧ table.Typed (shapeIn table) ∧
    ∃ id, table.ruleId? "project" = some id := by
  obtain ⟨table, made⟩ := exists_grammar
  obtain ⟨checked, named⟩ := Bool.and_eq_true_iff.mp (of_satisfies check_grammar made)
  exact ⟨table, made, GrammarTable.typed_of_check checked, Option.isSome_iff_exists.mp named⟩

open Matcher in
/-- No plan is refused for a defect of the grammar, whatever it says and whichever files there
are. -/
theorem not_blamesGrammar : ∃ table, grammar = .ok table ∧
    ∀ files preferences tokens journal,
      blamesGrammar (parseRule "project" ⟨table, files, preferences⟩
        (Context.initial tokens journal)).1 = false := by
  obtain ⟨table, made, typed, id, known⟩ := exists_typed
  refine ⟨table, made, fun files preferences tokens journal => ?_⟩
  -- at the start nothing has been added to the grammar
  have sound := Context.sound_initial table tokens journal
  have result := yields_parseRule typed known ⟨table, files, preferences⟩ _ rfl sound
  cases hr : parseRule "project" ⟨table, files, preferences⟩ (Context.initial tokens journal) with
  | mk outcome c =>
    rw [hr] at result
    cases outcome with
    | ok v => rfl
    | error stop => exact result

end Language

end Planfile
