import Planfile.Meaning.Extension
import Planfile.Proofs.Grammar.FirstChain

/-!
# Planfile — what a plan adds to its grammar

A plan adds attributes to the rules of tasks and resources, each with a keyword of its own. So what
is added starts with a keyword, and no chain of first references gets longer by it.

Main results:

* `AttributeExtension.mapM_symbols` — the symbols of an added attribute resolve.
* `Context.Sound.addsKeywords` — what is added starts with a keyword.
-/

namespace Planfile

/-- The rules to which a plan can add attributes. -/
def extendableNames : List String :=
  ["taskAttributes", "taskScenarioAttributes", "resourceAttributes", "resourceScenarioAttributes"]

namespace GrammarTable

/-- Whether a plan can add attributes to a rule. -/
def IsExtendable (t : GrammarTable) (id : RuleId) : Prop :=
  ∃ name ∈ extendableNames, t.ruleId? name = some id

/-- A rule is extendable by its name only. -/
theorem not_isExtendable {t : GrammarTable} {id : RuleId} {rule : Rule} (declared : t.rule id = rule)
    (fixed : extendableNames.contains rule.name = false) : ¬t.IsExtendable id := by
  rintro ⟨name, listed, found⟩
  rw [← declared, name_of_ruleId? found, List.contains_iff_mem.mpr listed] at fixed
  cases fixed

/-- Whether a pattern is that of an attribute that a plan has added. -/
def IsExtension (t : GrammarTable) (p : Pattern) : Prop :=
  ∃ e : AttributeExtension, e.id ≠ "" ∧ e.symbols.mapM t.symbol = .ok p.symbols ∧
    p.action = some e.action

/-- Whether a grammar has the rules that added attributes need, and no chain of first references
in it is too long to follow. -/
structure Extensible (t : GrammarTable) : Prop where
  targets : ∀ name ∈ extendableNames, ∃ id, t.ruleId? name = some id
  reference : ∃ id, t.ruleId? "referenceBody" = some id
  chains : ∀ id, t.startsWithin (Limits.firstSetDepth + 1) (.rule id) = true

end GrammarTable

/-- Whether what a plan has added to the grammar are attributes, each to a rule that takes them. -/
structure Context.Sound (t : GrammarTable) (c : Context) : Prop where
  extensions : ∀ e ∈ c.extensions, t.IsExtendable e.1 ∧ t.IsExtension e.2
  target : ∀ x, c.extendTarget = some x → t.IsExtendable x.rule ∧ t.IsExtendable x.scenarioRule

/-- Nothing has been added before the first token is read. -/
theorem Context.sound_initial (t : GrammarTable) (tokens : TokenSource) (journal : Log.Journal) :
    (Context.initial tokens journal).Sound t where
  extensions _ he := by cases he
  target _ hx := by cases hx

/-! ## The symbols of an added attribute -/

/-- A literal resolves in any grammar. -/
theorem GrammarTable.symbol_literal (t : GrammarTable) {word : String} (h : word ≠ "") :
    t.symbol ("_" ++ word) = .ok (.literal word) := by
  have full : word.toList ≠ [] := fun e => h (String.toList_eq_nil_iff.mp e)
  obtain ⟨c, rest, hw⟩ := List.exists_cons_of_ne_nil full
  have literal : SymbolSpec.ofText? ("_" ++ word) = some (.literal word) := by
    have chars : ("_" ++ word).toList = '_' :: c :: rest := by simp [hw]
    rw [SymbolSpec.ofText?, chars]
    simp [← hw]
  rw [symbol, resolveSymbol, literal]

/-- Where texts are resolved one by one, every result comes from one of them. -/
theorem exists_of_mem_mapM {f : α → Except ε β} {xs : List α} {ys : List β}
    (h : xs.mapM f = .ok ys) {y : β} (hy : y ∈ ys) : ∃ x ∈ xs, f x = .ok y := by
  induction xs generalizing ys with
  | nil =>
    cases h
    cases hy
  | cons x xs ih =>
    rw [List.mapM_cons] at h
    cases first : f x with
    | error e => simp [first, bind, Except.bind] at h
    | ok z =>
      cases others : xs.mapM f with
      | error e => simp [first, others, bind, Except.bind] at h
      | ok zs =>
        simp only [first, others, bind, Except.bind, pure, Except.pure, Except.ok.injEq] at h
        subst h
        rcases List.mem_cons.mp hy with rfl | later
        · exact ⟨x, List.mem_cons_self, first⟩
        · obtain ⟨w, mem, same⟩ := ih others later
          exact ⟨w, List.mem_cons_of_mem _ mem, same⟩

/-- The name of a rule is written behind an exclamation mark. -/
theorem SymbolSpec.toList_of_rule {text name : String} (h : ofText? text = some (.rule name)) :
    text.toList = '!' :: name.toList := by
  unfold ofText? at h
  split at h
  · cases h
  · cases h
  · rename_i sigil rest _ chars
    dsimp only at h
    split at h
    · cases h
    · split at h
      · obtain ⟨c, -, wrong⟩ := Option.map_eq_some_iff.mp h
        cases wrong
      · split at h
        · rename_i mark
          cases h
          rw [chars, mark, String.toList_ofList]
        · cases h

namespace AttributeExtension

/-- Of the symbols of an added attribute only the body of a reference stands for a rule. -/
theorem name_of_mem_symbols {e : AttributeExtension} {text name : String} (h : text ∈ e.symbols)
    (rule : SymbolSpec.ofText? text = some (.rule name)) : name = "referenceBody" := by
  have written := SymbolSpec.toList_of_rule rule
  have literal : text ≠ "_" ++ e.keyword := by
    rintro rfl
    rw [String.toList_append] at written
    cases written
  rcases List.mem_cons.mp h with same | later
  · exact absurd same literal
  · have listed : text = "$DATE" ∨ text = "$STRING" ∨ text = "!referenceBody" := by
      cases kind : e.kind <;> simp [kind] at later <;> simp [later]
    rcases listed with rfl | rfl | rfl
    · cases written
    · cases written
    · have chars : "referenceBody".toList = name.toList := (List.cons.inj written).2
      exact (String.toList_injective chars).symm

/-- The keyword of an attribute is not empty, because its id is not. -/
theorem keyword_ne_empty {e : AttributeExtension} (h : e.id ≠ "") : e.keyword ≠ "" := by
  intro none
  have chars := congrArg String.toList none
  rw [keyword, String.toList_ofList] at chars
  exact h (String.toList_eq_nil_iff.mp (List.map_eq_nil_iff.mp chars))

/-- What follows the keyword of an attribute, where `reference` is the rule for the body of a
reference. -/
def tailSymbols (e : AttributeExtension) (reference : RuleId) : List Symbol :=
  match e.kind with
  | .date => [.tokenClass .date]
  | .reference => [.tokenClass .string, .rule reference]
  | _ => [.tokenClass .string]

/-- The symbols of an added attribute resolve. -/
theorem mapM_symbols {e : AttributeExtension} (h : e.id ≠ "") {t : GrammarTable}
    {reference : RuleId} (hr : t.ruleId? "referenceBody" = some reference) :
    e.symbols.mapM t.symbol = .ok (.literal e.keyword :: e.tailSymbols reference) := by
  have keyword := t.symbol_literal (keyword_ne_empty h)
  have date : t.symbol "$DATE" = .ok (.tokenClass .date) := by
    rw [GrammarTable.symbol, GrammarTable.resolveSymbol,
      show SymbolSpec.ofText? "$DATE" = some (.tokenClass .date) by decide +kernel]
  have string : t.symbol "$STRING" = .ok (.tokenClass .string) := by
    rw [GrammarTable.symbol, GrammarTable.resolveSymbol,
      show SymbolSpec.ofText? "$STRING" = some (.tokenClass .string) by decide +kernel]
  have body : t.symbol "!referenceBody" = .ok (.rule reference) := by
    rw [GrammarTable.symbol, GrammarTable.resolveSymbol,
      show SymbolSpec.ofText? "!referenceBody" = some (.rule "referenceBody") by decide +kernel]
    simp [hr]
  unfold symbols tailSymbols
  cases e.kind <;>
    simp only [List.mapM_cons, List.mapM_nil, keyword, date, string, body] <;> rfl

end AttributeExtension

/-- What a plan has added starts with a keyword. -/
theorem GrammarTable.IsExtension.first? {t : GrammarTable} {p : Pattern} (h : t.IsExtension p) :
    ∃ word, p.first? = some (.literal word) := by
  obtain ⟨e, full, resolved, _⟩ := h
  have keyword := t.symbol_literal (AttributeExtension.keyword_ne_empty full)
  refine ⟨e.keyword, ?_⟩
  unfold AttributeExtension.symbols at resolved
  rw [List.mapM_cons, keyword] at resolved
  generalize List.mapM t.symbol _ = tail at resolved
  cases tail with
  | error e => cases resolved
  | ok tail =>
    have symbols := Except.ok.inj resolved
    rw [Pattern.first?, ← symbols]
    rfl

/-- What a plan has added starts with a keyword. -/
theorem Context.Sound.addsKeywords {t : GrammarTable} {c : Context} (h : c.Sound t) :
    LiveGrammar.AddsKeywords ⟨t, c.extensions⟩ := by
  intro e he
  obtain ⟨word, hw⟩ := (h.extensions e he).2.first?
  rw [Pattern.keyword?, hw]
  rfl

end Planfile
