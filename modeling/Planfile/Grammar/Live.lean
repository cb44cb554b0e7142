import Planfile.Grammar.Table

/-!
# Planfile — the grammar in force

A plan can add attributes to the language it is written in. What holds at some point of a plan is
the table that reading started with and, behind the alternatives of each rule, those that the plan
has added so far. An alternative is chosen by the next token alone, without reading it.

Main results:

* `LiveGrammar.patterns_append` — an added alternative comes last, in its own rule alone.
* `LiveGrammar.subset_of_candidates` — candidates are alternatives of the rule.
-/

namespace Planfile

/-- A table and the alternatives that were added to its rules, in order. -/
structure LiveGrammar where
  table : GrammarTable
  added : List (RuleId × Pattern)
  deriving DecidableEq, Repr

namespace LiveGrammar

/-- The alternatives that were added to a rule. -/
def addedTo (g : LiveGrammar) (rule : RuleId) : List Pattern :=
  (g.added.filter (·.1 == rule)).map (·.2)

/-- The alternatives of a rule. -/
def patterns (g : LiveGrammar) (rule : RuleId) : List Pattern :=
  (g.table.rule rule).patterns ++ g.addedTo rule

/-- The grammar with one more alternative of a rule. -/
def append (g : LiveGrammar) (rule : RuleId) (p : Pattern) : LiveGrammar :=
  { g with added := g.added ++ [(rule, p)] }

/-- An added alternative comes last, and in its own rule alone. -/
theorem patterns_append (g : LiveGrammar) (rule other : RuleId) (p : Pattern) :
    (g.append rule p).patterns other =
      g.patterns other ++ if rule = other then [p] else [] := by
  by_cases h : rule = other <;> simp [patterns, addedTo, append, h]

/-! ## Looking ahead -/

/-- Whether a symbol can start with a token; at most `room` references are followed. -/
def symbolAccepts (g : LiveGrammar) (token : Token) : Nat → Symbol → Except GrammarError Bool
  | _, .literal text => .ok ((Terminal.literal text).accepts token)
  | _, .tokenClass c => .ok ((Terminal.tokenClass c).accepts token)
  | 0, .rule id => .error (.leftRecursion (g.table.rule id).name)
  | room + 1, .rule id =>
    (g.patterns id).anyM fun p =>
      match p.first? with
      | some s => symbolAccepts g token room s
      | none => .ok false

/-- Whether an alternative can start with a token. -/
def patternAccepts (g : LiveGrammar) (token : Token) (p : Pattern) : Except GrammarError Bool :=
  match p.first? with
  | some s => g.symbolAccepts token Limits.firstSetDepth s
  | none => .ok false

/-- Whether some alternative of a rule can start with a token. -/
def ruleAccepts (g : LiveGrammar) (rule : RuleId) (token : Token) : Except GrammarError Bool :=
  (g.patterns rule).anyM (g.patternAccepts token)

/-- Those of some alternatives that can start with a token. -/
def accepting (g : LiveGrammar) (token : Token) : List Pattern → Except GrammarError (List Pattern)
  | [] => .ok []
  | p :: rest => do
    let accepts ← g.patternAccepts token p
    let others ← accepting g token rest
    return if accepts then p :: others else others

/-- The alternatives of a rule that can start with a token. -/
def candidates (g : LiveGrammar) (rule : RuleId) (token : Token) :
    Except GrammarError (List Pattern) :=
  g.accepting token (g.patterns rule)

/-- Choosing among alternatives adds none. -/
theorem mem_of_accepting {g : LiveGrammar} {token : Token} {ps found : List Pattern}
    (h : g.accepting token ps = .ok found) {p : Pattern} (hp : p ∈ found) : p ∈ ps := by
  induction ps generalizing found with
  | nil =>
    simp only [accepting, Except.ok.injEq] at h
    simp [← h] at hp
  | cons q rest ih =>
    simp only [accepting, bind, Except.bind, pure, Except.pure] at h
    split at h
    · cases h
    · split at h
      · cases h
      · next others ho =>
        cases h
        split at hp
        · rcases List.mem_cons.mp hp with rfl | hp
          · simp
          · exact List.mem_cons_of_mem _ (ih ho hp)
        · exact List.mem_cons_of_mem _ (ih ho hp)

/-- Candidates are alternatives of the rule. -/
theorem subset_of_candidates {g : LiveGrammar} {rule : RuleId} {token : Token}
    {found : List Pattern} (h : g.candidates rule token = .ok found) :
    found ⊆ g.patterns rule :=
  fun _ hp => mem_of_accepting h hp

end LiveGrammar

end Planfile
