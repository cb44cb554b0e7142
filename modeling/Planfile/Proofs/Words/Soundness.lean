import Planfile.Proofs.Matching.Choice
import Planfile.Proofs.Matching.Postcondition
import Planfile.Proofs.Source.Pasting
import Planfile.Proofs.Words.Derivation

/-!
# Planfile — what is matched is a word

The tokens that are read while a rule is matched are a word of the rule. This depends on what actions
do: one that goes on with another file changes what is read next, one that adds to the grammar changes
what the words are, and one that matches a rule itself reads tokens that belong to no symbol. In a
grammar without such actions there is nothing else that could go wrong, whatever is ahead, however
rules nest and however often they are repeated.

Main results:

* `Matcher.Parses.symbols` — symbols one after the other read a word of all of them.
* `Matcher.derives_of_repeats` — a rule that is repeated reads a word of it, or nothing.
* `Matcher.matchRule_sound` — what is read while a rule is matched is a word of the rule.
-/

namespace Planfile

/-- Whether the actions of a grammar neither go on with other files, nor add to it, nor match rules
themselves. -/
def LiveGrammar.IsSelfContained (g : LiveGrammar) : Prop :=
  ∀ id, ∀ p ∈ g.patterns id, p.isSelfContained = true

/-- Whether the actions of a table are found to be self-contained. -/
def GrammarTable.isSelfContained (t : GrammarTable) : Bool :=
  t.rules.toList.all fun r => r.patterns.all (·.isSelfContained)

/-- The check of a table is one of each of its rules. -/
theorem LiveGrammar.isSelfContained_ofTable {t : GrammarTable} (h : t.isSelfContained = true) :
    (ofTable t).IsSelfContained := by
  intro id p hp
  rw [patterns_ofTable] at hp
  by_cases known : id.index < t.rules.size
  · rw [t.rule_eq_getElem known] at hp
    have rules := List.all_eq_true.mp h t.rules[id.index] (by simp)
    exact List.all_eq_true.mp rules p hp
  · rw [GrammarTable.rule_eq_default (Nat.le_of_not_lt known)] at hp
    cases hp

/-- The grammar in force in a state. -/
def Context.grammar (env : Surroundings) (c : Context) : LiveGrammar := ⟨env.grammar, c.extensions⟩

namespace TokenSource

/-- As many tokens are counted as have been read. -/
theorem Reads.consumed {s t : TokenSource} {text : List Token} (h : Reads s text t) :
    t.consumed = s.consumed + text.length := by
  induction h with
  | done s => rfl
  | token ha _ ih =>
    obtain ⟨-, -, rfl⟩ := eq_of_advance ha
    have counted : ∀ s : TokenSource, s.read.settled.consumed = s.consumed + 1 := fun _ => rfl
    rw [ih, counted, List.length_cons]
    omega

/-- What is read stands in front of what is left. -/
theorem Reads.rest {s t : TokenSource} {text : List Token} (h : Reads s text t) :
    s.rest = text ++ t.rest := by
  induction h with
  | done s => rfl
  | token ha _ ih => rw [rest_of_advance ha, ih, List.cons_append]

end TokenSource

namespace Matcher

/-- Whether reading some tokens has led from one state to another, in which the same grammar is in
force. -/
structure Went (c : Context) (text : List Token) (d : Context) : Prop where
  reads : c.tokens.Reads text d.tokens
  extensions : d.extensions = c.extensions

/-- Where a part of the state is left alone, nothing has been read. -/
theorem Went.of_matchingState {c d : Context} (h : d.matchingState = c.matchingState) : Went c [] d := by
  have tokens : d.tokens = c.tokens := congrArg MatchingState.tokens h
  exact ⟨tokens ▸ .done _, congrArg MatchingState.extensions h⟩

theorem Went.append {c d e : Context} {first second : List Token} (h : Went c first d)
    (hs : Went d second e) : Went c (first ++ second) e :=
  ⟨h.reads.append hs.reads, hs.extensions.trans h.extensions⟩

/-- Whether a computation, wherever it comes to its end, has read tokens of which something holds. -/
def Parses (g : LiveGrammar) (word : List Token → Prop) (m : Matcher α) : Prop :=
  ∀ env c a d, c.grammar env = g → m env c = (.ok a, d) → ∃ text, word text ∧ Went c text d

section
variable {g : LiveGrammar} {matchRule : RuleId → Matcher (Option Value)}

/-- Where the grammar is still in force, the second part is a word of it as well. -/
theorem Went.grammar {c d : Context} {text : List Token} (h : Went c text d) {env : Surroundings}
    (hg : c.grammar env = g) : d.grammar env = g := by
  rw [← hg, Context.grammar, h.extensions]
  rfl

/-- A symbol reads a word of it. -/
theorem parses_matchSymbol (hm : ∀ id, Parses g (g.Derives [.rule id]) (matchRule id))
    (s : Symbol) : Parses g (g.Derives [s]) (matchSymbol matchRule s) := by
  intro env c item d hg run
  have terminal {a : Terminal} (hs : s.terminal? = some a) :
      ∃ text, g.Derives [s] text ∧ Went c text d := by
    obtain ⟨fits, -, rfl⟩ := eq_of_run_terminal matchRule hs run
    obtain ⟨token, same, read⟩ := advance_of_isEof (Terminal.isEof_of_accepts fits)
    rw [← same] at fits
    exact ⟨[token.token], .single hs fits, .single read, rfl⟩
  cases s with
  | literal text => exact terminal rfl
  | tokenClass k => exact terminal rfl
  | rule id =>
    obtain ⟨v, matched, -⟩ := exists_of_run_map run
    exact hm id env c v d hg matched

/-- Symbols one after the other read a word of all of them. -/
theorem parses_matchSymbols (hm : ∀ id, Parses g (g.Derives [.rule id]) (matchRule id))
    (symbols : List Symbol) : Parses g (g.Derives symbols) (matchSymbols matchRule symbols) := by
  induction symbols with
  | nil =>
    intro env c items d _ run
    cases run
    exact ⟨[], .nil, .done _, rfl⟩
  | cons s symbols ih =>
    intro env c items d hg run
    obtain ⟨item, e, one, others⟩ := exists_of_run_bind run
    obtain ⟨more, others, -⟩ := exists_of_run_map others
    obtain ⟨first, derived, went⟩ := parses_matchSymbol hm s env c item e hg one
    obtain ⟨rest, derives, goes⟩ := ih env e more d (went.grammar hg) others
    exact ⟨first ++ rest, derived.append derives, went.append goes⟩

/-- An alternative reads a word of its symbols, because its action reads nothing. -/
theorem parses_matchPattern (hm : ∀ id, Parses g (g.Derives [.rule id]) (matchRule id))
    {p : Pattern} (hp : p.isSelfContained = true) :
    Parses g (g.Derives p.symbols) (matchPattern matchRule p) := by
  intro env c v d hg run
  rw [run_matchPattern] at run
  obtain ⟨items, e, symbols, acted⟩ := exists_of_run_bind run
  obtain ⟨text, derived, went⟩ := parses_matchSymbols hm p.symbols env c items e hg symbols
  -- the action leaves the tokens and the grammar as they are
  have kept := (keeps_performed matchRule hp c.tokens.location items env e).of_ok acted
  have still := went.append (Went.of_matchingState kept)
  rw [List.append_nil] at still
  exact ⟨text, derived, still⟩

/-- What is chosen is an alternative of the rule, and nothing has been read. -/
theorem mem_of_run_choose {env : Surroundings} {c d : Context} (hg : c.grammar env = g)
    {id : RuleId} {chosen : Option Pattern} (run : choose id env c = (.ok chosen, d)) :
    Went c [] d ∧ ∀ p, chosen = some p → p ∈ g.patterns id := by
  obtain ⟨⟨journal, rfl⟩, mem⟩ := exists_of_run_choose run
  refine ⟨⟨.done _, rfl⟩, fun p hp => ?_⟩
  rw [← hg]
  exact mem p hp

/-- A rule that is repeated reads a word of it, or nothing if it may stop at once. -/
theorem derives_of_repeats (hg : g.IsSelfContained)
    (hm : ∀ id, Parses g (g.Derives [.rule id]) (matchRule id)) {id : RuleId}
    (repeatable : (g.table.rule id).repeatable = true) {env : Surroundings} {mayStop : Bool}
    {c d : Context} (hc : c.grammar env = g) (h : Repeats matchRule id env mayStop c d) :
    ∃ text, (g.Derives [.rule id] text ∨ text = [] ∧ mayStop = true) ∧ Went c text d := by
  induction h with
  | stop choice =>
    obtain ⟨went, -⟩ := mem_of_run_choose hc choice
    exact ⟨[], .inr ⟨rfl, rfl⟩, went.reads, went.extensions⟩
  | @next mayStop c d e f p v choice matched _ ih =>
    -- an alternative has read a word, and the rest another one behind it
    obtain ⟨went, mem⟩ := mem_of_run_choose hc choice
    have inForce : p ∈ g.patterns id := mem p rfl
    obtain ⟨first, derived, wentOn⟩ :=
      parses_matchPattern hm (hg id p inForce) env d v e (went.grammar hc) matched
    have whole := went.append wentOn
    obtain ⟨rest, others, goes⟩ := ih (whole.grammar hc)
    refine ⟨first ++ rest, .inl ?_, whole.append goes⟩
    -- the rest are further repetitions, or the alternative was the last one
    rcases others with more | ⟨rfl, -⟩
    · exact .again repeatable inForce derived more
    · rw [List.append_nil]
      exact .alternative inForce derived

/-- The alternatives of a rule read a word of it, where the rules inside it do. -/
theorem parses_matchAlternatives (hg : g.IsSelfContained)
    (hm : ∀ id, Parses g (g.Derives [.rule id]) (matchRule id)) (fuel : Nat) (id : RuleId) :
    Parses g (g.Derives [.rule id]) (matchAlternatives matchRule fuel id) := by
  intro env c v d hc run
  have table : env.grammar = g.table := congrArg LiveGrammar.table hc
  have ways := cases_of_run_matchAlternatives run
  rw [table] at ways
  rcases ways with
    ⟨repeatable, all, -, repeated⟩ | ⟨-, optional, -, choice⟩ | ⟨-, p, e, choice, matched⟩
  · obtain ⟨text, word, went⟩ := derives_of_repeats hg hm repeatable hc (repeats_of_run repeated)
    rcases word with derived | ⟨rfl, optional⟩
    · exact ⟨text, derived, went⟩
    · exact ⟨[], .absent optional .nil, went⟩
  · obtain ⟨went, -⟩ := mem_of_run_choose hc choice
    exact ⟨[], .absent optional .nil, went⟩
  · obtain ⟨went, mem⟩ := mem_of_run_choose hc choice
    have inForce : p ∈ g.patterns id := mem p rfl
    obtain ⟨text, derived, wentOn⟩ :=
      parses_matchPattern hm (hg id p inForce) env e v d (went.grammar hc) matched
    exact ⟨text, .alternative inForce derived, went.append wentOn⟩

/-- A rule reads a word of it, however deep rules nest. -/
theorem parses_matchRule (hg : g.IsSelfContained) (fuel : Nat) (id : RuleId) :
    Parses g (g.Derives [.rule id]) (Matcher.matchRule fuel id) := by
  -- by induction on how deep rules may still nest
  induction fuel generalizing id with
  | zero =>
    intro env c v d _ run
    cases run
  | succ fuel ih =>
    intro env c v d hc run
    obtain ⟨-, e, alternatives, rfl⟩ := exists_of_run_matchRule run
    obtain ⟨text, derived, went⟩ := parses_matchAlternatives hg ih fuel id env
      { c with depth := c.depth + 1 } v e hc alternatives
    exact ⟨text, derived, went.reads, went.extensions⟩

end

/-- In a grammar whose actions are self-contained, the tokens that are read while a rule is matched
are a word of the rule, and they stand where the rule was matched. -/
theorem matchRule_sound {env : Surroundings} {c d : Context} (hg : (c.grammar env).IsSelfContained)
    {fuel : Nat} {id : RuleId} {v : Option Value}
    (run : matchRule fuel id env c = (.ok v, d)) :
    ∃ text, (c.grammar env).Derives [.rule id] text ∧ c.tokens.Reads text d.tokens ∧
      d.tokens.consumed = c.tokens.consumed + text.length ∧
      c.tokens.rest = text ++ d.tokens.rest := by
  obtain ⟨text, derived, went⟩ := parses_matchRule hg fuel id env c v d rfl run
  exact ⟨text, derived, went.reads, went.reads.consumed, went.reads.rest⟩

/-- Statements that list names. -/
def nameLists : List RuleDeclaration :=
  .once "statement" [.acting ["_task", "!names"] (.list 1)] :: RuleDeclaration.commaListOf "names" "$ID"

/-- A statement with two names, and another one behind it. -/
def twoLists : TokenStream :=
  let tokens := [(Token.id "task", "task"), (.id "a", "a"), (.mark .comma, ","), (.id "b", "b"),
    (.id "task", "task")]
  (tokens.foldl (fun b (token, text) => b.push token text) TokenStreamBuilder.empty).build

/-- The statement is matched, and four tokens are read. -/
theorem run_nameLists :
    (GrammarTable.build nameLists).toOption.any (fun t =>
      let r := matchRule 8 ⟨0⟩ ⟨t, .empty, .default⟩
        (.initial (.ofStream twoLists "lists.tjp" none) .silent)
      t.isSelfContained && r.1.isOk && r.2.tokens.consumed == 4) = true := by
  decide +kernel

/-- The four tokens of the statement are a word of its rule. -/
theorem matchRule_sound_nameLists :
    ∃ t d, GrammarTable.build nameLists = .ok t ∧
      let env : Surroundings := ⟨t, .empty, .default⟩
      let c : Context := .initial (.ofStream twoLists "lists.tjp" none) .silent
      (c.grammar env).IsSelfContained ∧ (∃ v, matchRule 8 ⟨0⟩ env c = (.ok v, d)) ∧
        ∃ text, text.length = 4 ∧ (c.grammar env).Derives [.rule ⟨0⟩] text ∧
          c.tokens.Reads text d.tokens := by
  have found := run_nameLists
  generalize GrammarTable.build nameLists = built at found ⊢
  cases built with
  | error e => cases found
  | ok t =>
    simp only [Except.toOption, Option.any_some, Bool.and_eq_true, beq_iff_eq] at found
    obtain ⟨⟨selfContained, ends⟩, four⟩ := found
    have grammar : (LiveGrammar.ofTable t).IsSelfContained :=
      LiveGrammar.isSelfContained_ofTable selfContained
    obtain ⟨v, d, run⟩ := exists_of_isOk ends
    rw [run] at four
    have inForce : ((Context.initial (.ofStream twoLists "lists.tjp" none) .silent).grammar
        ⟨t, .empty, .default⟩).IsSelfContained := grammar
    obtain ⟨text, derived, reads, counted, -⟩ := matchRule_sound inForce run
    refine ⟨t, d, rfl, grammar, ⟨v, run⟩, text, ?_, derived, reads⟩
    have all : d.tokens.consumed = 4 := four
    have count : d.tokens.consumed = 0 + text.length := counted
    omega

end Matcher

end Planfile
