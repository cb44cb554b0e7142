import Planfile.Proofs.Grammar.Determinism
import Planfile.Proofs.Matching.Extension

/-!
# Planfile — how rules start in a grammar that has grown

Looking ahead follows first references up to a limit. Where no chain of them is too long the limit does
not matter, and that a rule can start with a token is a relation of its own, `LiveGrammar.Starts`. It
tells what added alternatives change: a rule can start with the keyword of each of them to which its
chains lead, and else as before.

Main results:

* `LiveGrammar.ruleAccepts_iff` — looking ahead tells how rules start.
* `LiveGrammar.starts_iff` — how rules start when alternatives have been added.
-/

namespace Planfile

namespace LiveGrammar

/-- Whether a symbol can start with a token. -/
inductive Starts (g : LiveGrammar) (token : Token) : Symbol → Prop
  | terminal {s : Symbol} {a : Terminal} (hs : s.terminal? = some a) (fits : a.accepts token = true) :
    Starts g token s
  | rule {id : RuleId} {p : Pattern} {s : Symbol} (mem : p ∈ g.patterns id) (first : p.first? = some s)
    (starts : Starts g token s) : Starts g token (.rule id)

section
variable {g : LiveGrammar} {token : Token}

/-- A terminal starts with what it accepts. -/
theorem starts_terminal_iff {s : Symbol} {a : Terminal} (hs : s.terminal? = some a) :
    g.Starts token s ↔ a.accepts token = true := by
  refine ⟨fun h => ?_, .terminal hs⟩
  cases h with
  | terminal same fits =>
    rw [hs] at same
    cases same
    exact fits
  | rule => cases hs

/-- A rule starts as its alternatives do. -/
theorem starts_rule_iff {id : RuleId} :
    g.Starts token (.rule id) ↔ ∃ p ∈ g.patterns id, ∃ s, p.first? = some s ∧ g.Starts token s := by
  constructor
  · intro h
    cases h with
    | terminal hs _ => cases hs
    | rule mem first starts => exact ⟨_, mem, _, first, starts⟩
  · rintro ⟨p, mem, s, first, starts⟩
    exact .rule mem first starts

/-- Where a search gives an answer for each, it finds what there is. -/
theorem anyM_true_iff {f : α → Except ε Bool} {xs : List α} (h : ∀ x ∈ xs, ∃ b, f x = .ok b) :
    xs.anyM f = .ok true ↔ ∃ x ∈ xs, f x = .ok true := by
  refine ⟨exists_of_anyM_true, fun ⟨x, mem, found⟩ => ?_⟩
  obtain ⟨b, answer⟩ := anyM_ok h
  cases b with
  | true => exact answer
  | false =>
    rw [anyM_false_iff.mp answer x mem] at found
    cases found

variable (hg : g.AddsKeywords)

include hg

/-- Where all chains are short enough, looking ahead tells how a symbol starts. -/
theorem symbolAccepts_iff {room : Nat} {s : Symbol} (h : g.table.startsWithin room s = true) :
    g.symbolAccepts token room s = .ok true ↔ g.Starts token s := by
  -- by induction on the number of references that may be followed
  induction room generalizing s with
  | zero =>
    cases s with
    | literal text => rw [symbolAccepts_literal, starts_terminal_iff rfl, Except.ok.injEq]
    | tokenClass k => rw [symbolAccepts_tokenClass, starts_terminal_iff rfl, Except.ok.injEq]
    | rule id => cases h
  | succ room ih =>
    cases s with
    | literal text => rw [symbolAccepts_literal, starts_terminal_iff rfl, Except.ok.injEq]
    | tokenClass k => rw [symbolAccepts_tokenClass, starts_terminal_iff rfl, Except.ok.injEq]
    | rule id =>
      have nearer {p : Pattern} (mem : p ∈ g.patterns id) {s : Symbol} (first : p.first? = some s) :=
        startsWithin_first hg h mem first
      rw [symbolAccepts, anyM_true_iff, starts_rule_iff]
      · refine exists_congr fun p => and_congr_right fun mem => ?_
        cases first : p.first? with
        | none => simp
        | some s => simp [ih (nearer mem first)]
      · intro p mem
        cases first : p.first? with
        | none => exact ⟨false, rfl⟩
        | some s => exact symbolAccepts_of_startsWithin hg token (nearer mem first)

variable {id : RuleId} (h : g.table.startsWithin (Limits.firstSetDepth + 1) (.rule id) = true)

include h

/-- Looking ahead tells how an alternative starts. -/
theorem patternAccepts_iff {p : Pattern} (mem : p ∈ g.patterns id) :
    g.patternAccepts token p = .ok true ↔ ∃ s, p.first? = some s ∧ g.Starts token s := by
  rw [patternAccepts]
  cases first : p.first? with
  | none => simp
  | some s => simp [symbolAccepts_iff hg (startsWithin_first hg h mem first)]

/-- Looking ahead tells how a rule starts. -/
theorem ruleAccepts_iff : g.ruleAccepts id token = .ok true ↔ g.Starts token (.rule id) := by
  rw [ruleAccepts, anyM_true_iff fun _ mem => patternAccepts_of_startsWithin hg h token mem,
    starts_rule_iff]
  exact exists_congr fun p => and_congr_right fun mem => patternAccepts_iff hg h mem

end

/-! ## First terminals -/

section
variable {t : GrammarTable}

/-- What a first terminal accepts, the symbol can start with. -/
theorem starts_of_mem_firstOfSymbol {token : Token} {room : Nat} {s : Symbol} {a : Terminal}
    (mem : a ∈ t.firstOfSymbol room s) (fits : a.accepts token = true) :
    (ofTable t).Starts token s := by
  fun_induction GrammarTable.firstOfSymbol t room s with
  | case1 room text => exact .terminal rfl (List.mem_singleton.mp mem ▸ fits)
  | case2 room c => exact .terminal rfl (List.mem_singleton.mp mem ▸ fits)
  | case3 id => cases mem
  | case4 room id ih =>
    obtain ⟨p, hp, first⟩ := List.mem_flatMap.mp mem
    cases hf : p.first? with
    | none => simp [hf] at first
    | some s =>
      rw [hf] at first
      exact .rule (by rwa [patterns_ofTable]) hf (ih s first)

/-- The keywords of a rule, where it starts with keywords and not with any identifier, are those of its
first terminals that it can start with. -/
theorem starts_id_iff {id : RuleId}
    (chains : t.startsWithin (Limits.firstSetDepth + 1) (.rule id) = true)
    (named : ∀ p ∈ (t.rule id).patterns, .tokenClass .id ∉ t.firstTerminals p) {word : String} :
    (ofTable t).Starts (.id word) (.rule id) ↔
      ∃ p ∈ (t.rule id).patterns, .literal word ∈ t.firstTerminals p := by
  constructor
  · intro starts
    obtain ⟨p, mem, accepts⟩ :=
      exists_of_anyM_true ((ruleAccepts_iff (addsKeywords_ofTable t) chains).mpr starts)
    rw [patterns_ofTable] at mem
    obtain ⟨a, ha, fits⟩ := exists_mem_firstTerminals accepts
    refine ⟨p, mem, ?_⟩
    cases a with
    | literal text =>
      have same : word = text := by simpa [Terminal.accepts, Token.matchesLiteral, Token.literalText?] using fits
      exact same ▸ ha
    | tokenClass k =>
      have same : TokenClass.id = k := by simpa [Terminal.accepts, Token.class?] using fits
      exact absurd (same ▸ ha) (named p mem)
  · rintro ⟨p, mem, first⟩
    unfold GrammarTable.firstTerminals at first
    cases hf : p.first? with
    | none => simp [hf] at first
    | some s =>
      rw [hf] at first
      refine .rule (by rwa [patterns_ofTable]) hf (starts_of_mem_firstOfSymbol first ?_)
      simp [Terminal.accepts, Token.matchesLiteral, Token.literalText?]

end

end LiveGrammar

/-! ## Added alternatives -/

/-- Whether a chain of first references from a symbol leads to a rule. -/
inductive GrammarTable.LeadsTo (t : GrammarTable) : Symbol → RuleId → Prop
  | here {id : RuleId} : LeadsTo t (.rule id) id
  | first {id goal : RuleId} {p : Pattern} {s : Symbol} (mem : p ∈ (t.rule id).patterns)
    (first : p.first? = some s) (rest : LeadsTo t s goal) : LeadsTo t (.rule id) goal

namespace LiveGrammar

variable {g : LiveGrammar} {token : Token}

/-- What the table starts with, the grammar in force starts with. -/
theorem Starts.of_table {s : Symbol} (h : (ofTable g.table).Starts token s) : g.Starts token s := by
  induction h with
  | terminal hs fits => exact .terminal hs fits
  | rule mem first _ ih =>
    rw [patterns_ofTable] at mem
    exact .rule (List.mem_append_left _ mem) first ih

/-- A symbol starts with what an added alternative starts with, if its chains lead there. -/
theorem Starts.of_leadsTo {s : Symbol} {goal : RuleId} (h : g.table.LeadsTo s goal) {p : Pattern}
    (mem : (goal, p) ∈ g.added) {word : String} (keyword : p.keyword? = some word)
    (fits : token.matchesLiteral word = true) : g.Starts token s := by
  induction h with
  | @here id =>
    have first : p.first? = some (.literal word) := by
      unfold Pattern.keyword? at keyword
      split at keyword <;> cases keyword
      assumption
    refine .rule (List.mem_append_right _ ?_) first (.terminal rfl fits)
    exact List.mem_map.mpr ⟨(id, p), List.mem_filter.mpr ⟨mem, beq_self_eq_true _⟩, rfl⟩
  | first inTable first _ ih => exact .rule (List.mem_append_left _ inTable) first (ih mem)

/-- A symbol starts as it does in the table, or with the keyword of an added alternative to which its
chains lead. -/
theorem starts_iff (hg : g.AddsKeywords) {s : Symbol} :
    g.Starts token s ↔ (ofTable g.table).Starts token s ∨
      ∃ goal p word, (goal, p) ∈ g.added ∧ p.keyword? = some word ∧ g.table.LeadsTo s goal ∧
        token.matchesLiteral word = true := by
  constructor
  · intro h
    induction h with
    | terminal hs fits => exact .inl (.terminal hs fits)
    | @rule id p s mem first starts ih =>
      rcases List.mem_append.mp mem with inTable | added
      · rcases ih with before | ⟨goal, q, word, listed, keyword, leads, fits⟩
        · exact .inl (.rule (by rwa [patterns_ofTable]) first before)
        · exact .inr ⟨goal, q, word, listed, keyword, .first inTable first leads, fits⟩
      · obtain ⟨⟨other, q⟩, mine, rfl⟩ := List.mem_map.mp added
        obtain ⟨listed, named⟩ := List.mem_filter.mp mine
        obtain rfl : other = id := beq_iff_eq.mp named
        -- an added alternative starts with its keyword
        obtain ⟨word, keyword⟩ := Option.isSome_iff_exists.mp (hg _ listed)
        have literal : s = .literal word := by
          rw [Pattern.keyword?, first] at keyword
          cases s <;> cases keyword
          rfl
        subst literal
        have fits : (Terminal.literal word).accepts token = true := (starts_terminal_iff rfl).mp starts
        exact .inr ⟨other, q, word, listed, keyword, .here, fits⟩
  · rintro (before | ⟨goal, p, word, mem, keyword, leads, fits⟩)
    · exact before.of_table
    · exact .of_leadsTo leads mem keyword fits

end LiveGrammar

end Planfile
