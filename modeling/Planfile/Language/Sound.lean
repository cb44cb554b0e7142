import Planfile.Language
import Planfile.Proofs.Grammar.Evaluation
import Planfile.Proofs.Matching.Reading

/-!
# Planfile — the language is sound

Matching looks one token ahead and never goes back, which is safe only for a grammar whose rules all
resolve, where no rule starts with itself and where no two alternatives of a rule start alike. The
rules of the language make such a grammar, so reading a plan never fails for want of one.

What else is known of the rules of the language is found by a check of their table that is evaluated. So the
table is made again for each check, and it is made quickly.

Main results:

* `Language.isOk_grammar` — the rules make a sound grammar.
* `Language.of_satisfies` — what a check has found is so in the grammar.
* `Language.exists_run_of_check` — a plan that passes a check of its project makes such a project.
-/

namespace Planfile.Language

/-- Every rule resolves, none starts with itself, and no two alternatives start alike. -/
theorem isOk_grammar : grammar.isOk = true := by
  rw [grammar, GrammarTable.build, GrammarTable.resolve_eq_resolveQuickly]
  decide +kernel

/-- There is a grammar of plans. -/
theorem exists_grammar : ∃ table, grammar = .ok table := by
  have sound := isOk_grammar
  cases made : grammar with
  | ok table => exact ⟨table, rfl⟩
  | error e =>
    rw [made] at sound
    cases sound

/-- Whether the rules of the language pass a check, of which their table is made quickly. -/
def satisfies (check : GrammarTable → Bool) : Bool :=
  (GrammarTable.resolveQuickly declarations).toOption.any check

/-- What a check has found is so in the grammar of plans. -/
theorem of_satisfies {check : GrammarTable → Bool} (found : satisfies check = true)
    {table : GrammarTable} (h : grammar = .ok table) : check table = true := by
  rw [satisfies, ← GrammarTable.resolve_eq_resolveQuickly, (GrammarTable.build_eq_ok_iff.mp h).1] at found
  exact found

open Matcher in
/-- Where a plan has been run and passes a check, it makes a project that passes. -/
theorem exists_run_of_check {files : File.System} {preferences : Settings.Preferences}
    {tokens : TokenSource} {journal : Log.Journal} {check : Plan.Project → Bool}
    (found : satisfies (fun t =>
      (plan ⟨t, files, preferences⟩ (.initial tokens journal)).1.toOption.any check) = true) :
    ∃ table p c, grammar = .ok table ∧
      plan ⟨table, files, preferences⟩ (.initial tokens journal) = (.ok p, c) ∧ check p = true := by
  obtain ⟨table, made⟩ := exists_grammar
  obtain ⟨p, c, run, passed⟩ := exists_of_any (of_satisfies found made)
  exact ⟨table, p, c, made, run, passed⟩

end Planfile.Language
