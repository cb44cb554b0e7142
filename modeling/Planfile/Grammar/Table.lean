import Planfile.Grammar.Error
import Planfile.Grammar.Rule
import Planfile.Settings.Limits

/-!
# Planfile — grammar tables

A table holds the rules of a grammar; symbols refer to rules by their number. Matching looks one
token ahead, so a table is sound only if no rule can start with itself and if no two alternatives of
a rule can start with the same token.

Main results:

* `GrammarTable.rule_eq_getElem` — a number below the size of the table names a rule.
* `GrammarTable.checkAmbiguity_eq_ok_iff` — a table passes exactly when no rule is ambiguous.
-/

namespace Planfile

/-- The rules of a grammar. -/
structure GrammarTable where
  rules : Array Rule
  deriving DecidableEq, Repr

namespace GrammarTable

/-- A rule by its number; a number beyond the table names a rule without alternatives. -/
def rule (t : GrammarTable) (id : RuleId) : Rule := t.rules[id.index]?.getD default

/-- A number below the size of the table names a rule of it. -/
theorem rule_eq_getElem (t : GrammarTable) {i : Nat} (h : i < t.rules.size) :
    t.rule ⟨i⟩ = t.rules[i] := by
  simp [rule, h]

/-- A number beyond the table names a rule without alternatives. -/
theorem rule_eq_default {t : GrammarTable} {i : Nat} (h : t.rules.size ≤ i) :
    t.rule ⟨i⟩ = default := by
  simp [rule, Array.getElem?_eq_none h]

/-- A check of all rules of the table is one of any rule that has alternatives. -/
theorem rule_eq_default_or_of_all {t : GrammarTable} {check : RuleId → Bool}
    (h : ∀ i < t.rules.size, check ⟨i⟩ = true) (id : RuleId) :
    t.rule id = default ∨ check id = true := by
  by_cases known : id.index < t.rules.size
  · exact .inr (h id.index known)
  · exact .inl (rule_eq_default (Nat.le_of_not_lt known))

/-- The number of a rule. -/
def ruleId? (t : GrammarTable) (name : String) : Option RuleId :=
  (t.rules.findIdx? (·.name == name)).map RuleId.mk

/-- The name that a rule is found by is its own. -/
theorem name_of_ruleId? {t : GrammarTable} {name : String} {id : RuleId}
    (h : t.ruleId? name = some id) : (t.rule id).name = name := by
  obtain ⟨i, found, rfl⟩ := Option.map_eq_some_iff.mp h
  obtain ⟨bound, same, -⟩ := Array.findIdx?_eq_some_iff_getElem.mp found
  rw [rule_eq_getElem t bound]
  simpa using same

/-- Resolves a declared symbol, where `find` knows the rules and `rule` is named in a complaint. -/
def resolveSymbol (find : String → Option RuleId) (rule text : String) :
    Except GrammarError Symbol :=
  match SymbolSpec.ofText? text with
  | some (.literal text) => .ok (.literal text)
  | some (.tokenClass c) => .ok (.tokenClass c)
  | some (.rule name) =>
    match find name with
    | some id => .ok (.rule id)
    | none => .error (.undefinedRule rule name)
  | none => .error (.invalidSymbol rule text)

/-- Resolves a symbol that is declared while a plan is read. -/
def symbol (t : GrammarTable) (text : String) : Except GrammarError Symbol :=
  resolveSymbol t.ruleId? "<runtime>" text

/-- A symbol as it is declared. -/
def symbolText (t : GrammarTable) : Symbol → String
  | .literal text => "_" ++ text
  | .tokenClass c => "$" ++ c.name
  | .rule id => "!" ++ (t.rule id).name

/-- A text behind which blanks fill up to `width`. -/
def padRight (width : Nat) (text : String) : String :=
  text ++ String.ofList (List.replicate (width - text.length) ' ')

/-- A text before which blanks fill up to `width`. -/
def padLeft (width : Nat) (text : String) : String :=
  String.ofList (List.replicate (width - text.length) ' ') ++ text

/-- The rules, one a line, with the number of their alternatives and their flags. -/
def listing (t : GrammarTable) : List String :=
  let width := (t.rules.toList.map (·.name.utf8ByteSize)).foldl max 0
  t.rules.toList.map fun r =>
    s!"{padRight width r.name}  {padLeft 2 (toString r.patterns.length)} alt  {r.flags}"

/-! ## First terminals -/

/-- The terminals that a symbol can start with, found by following at most `room` references. -/
def firstOfSymbol (t : GrammarTable) : Nat → Symbol → List Terminal
  | _, .literal text => [.literal text]
  | _, .tokenClass c => [.tokenClass c]
  | 0, .rule _ => []
  | room + 1, .rule id =>
    (t.rule id).patterns.flatMap fun p =>
      match p.first? with
      | some s => firstOfSymbol t room s
      | none => []

/-- The terminals that a pattern can start with. -/
def firstTerminals (t : GrammarTable) (p : Pattern) : List Terminal :=
  match p.first? with
  | some s => t.firstOfSymbol Limits.firstSetDepth s
  | none => []

/-! ## Left recursion -/

/-- The rules that a rule can start with. -/
def firstRules (r : Rule) : List RuleId :=
  r.patterns.filterMap fun p =>
    match p.first? with
    | some (.rule id) => some id
    | _ => none

/-- Follows references from the rule `target` until it is met, all are followed, or one lies deeper
than the limit. `pending` holds references with their depth, and the last one found is followed
first. Each rule is followed once, so the number of references bounds the steps. -/
def reachesItself (t : GrammarTable) (target : RuleId) :
    Nat → List (RuleId × Nat) → List RuleId → Bool
  | steps + 1, (id, depth) :: pending, seen =>
    if id = target ∨ Limits.firstSetDepth < depth then true
    else if seen.contains id then reachesItself t target steps pending seen
    else
      -- reversed, because the last reference that is found is followed first
      let next := (firstRules (t.rule id)).reverse.map fun id => (id, depth + 1)
      reachesItself t target steps (next ++ pending) (id :: seen)
  | _, _, _ => false

/-- The number of references by which rules start. -/
def referenceCount (t : GrammarTable) : Nat :=
  t.rules.foldl (fun n r => n + (firstRules r).length) 0

/-- Whether a rule can start with itself, or needs more references than the limit to start. -/
def isLeftRecursive (t : GrammarTable) (id : RuleId) : Bool :=
  let first := (firstRules (t.rule id)).reverse.map fun next => (next, 1)
  t.reachesItself id (first.length + t.referenceCount + 1) first []

/-- Refuses a table with a left-recursive rule. -/
def checkLeftRecursion (t : GrammarTable) : Except GrammarError Unit :=
  match (List.range t.rules.size).find? fun i => t.isLeftRecursive ⟨i⟩ with
  | some i => .error (.leftRecursion (t.rule ⟨i⟩).name)
  | none => .ok ()

/-! ## Ambiguity -/

/-- The first terminal of one list that overlaps some terminal of another. -/
def commonTerminal? (a b : List Terminal) : Option Terminal :=
  a.find? fun t => b.any t.overlaps

/-- The first two alternatives that can start with the same token. -/
def ambiguity? : List (Nat × List Terminal) → Option (Nat × Nat × Terminal)
  | [] => none
  | (i, a) :: rest =>
    let clash := rest.findSome? fun (j, b) => (commonTerminal? a b).map fun t => (i, j, t)
    match clash with
    | some found => some found
    | none => ambiguity? rest

/-- Refuses a rule with two alternatives that can start with the same token. -/
def checkRuleAmbiguity (t : GrammarTable) (r : Rule) : Except GrammarError Unit :=
  let firsts := r.patterns.zipIdx.map fun (p, i) => (i, t.firstTerminals p)
  match ambiguity? firsts with
  | some (i, j, terminal) => .error (.ambiguousAlternatives r.name i j terminal.text)
  | none => .ok ()

/-- Refuses a table with an ambiguous rule. -/
def checkAmbiguity (t : GrammarTable) : Except GrammarError Unit :=
  t.rules.toList.forM t.checkRuleAmbiguity

/-- A check of several things passes when it passes for each. -/
theorem forM_eq_ok_iff {f : α → Except ε Unit} {xs : List α} :
    xs.forM f = .ok () ↔ ∀ x ∈ xs, f x = .ok () := by
  induction xs with
  | nil => simp [List.forM_nil, pure, Except.pure]
  | cons x xs ih =>
    rw [List.forall_mem_cons, ← ih]
    simp only [List.forM, bind, Except.bind]
    cases f x <;> simp

/-- A table passes when no two alternatives of a rule can start with the same token. -/
theorem checkAmbiguity_eq_ok_iff (t : GrammarTable) :
    t.checkAmbiguity = .ok () ↔
      ∀ r ∈ t.rules.toList,
        ambiguity? (r.patterns.zipIdx.map fun (p, i) => (i, t.firstTerminals p)) = none := by
  have rule (r : Rule) : t.checkRuleAmbiguity r = .ok () ↔
      ambiguity? (r.patterns.zipIdx.map fun (p, i) => (i, t.firstTerminals p)) = none := by
    unfold checkRuleAmbiguity
    dsimp only
    split
    · next h => simp [h]
    · next h => simp [h]
  simp only [checkAmbiguity, forM_eq_ok_iff, rule]

end GrammarTable

end Planfile
