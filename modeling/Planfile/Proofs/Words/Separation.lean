import Planfile.Proofs.Grammar.Determinism
import Planfile.Proofs.Matching.Choice
import Planfile.Proofs.Matching.Postcondition
import Planfile.Proofs.Source.Pasting
import Planfile.Proofs.Words.Derivation

/-!
# Planfile — where one token decides

A rule that may be absent or be repeated takes the next token whenever it can: whether the token was
meant for what stands behind the rule is not looked at. So a grammar with words that are refused is
easily made, and building one does not find this out. What has to hold is that such a rule, wherever
it can still go on, cannot start with a token with which something behind it can start.

Behind part of a pattern some rules are *unfinished*: those that could take the next token although
the part is complete. The condition is looked at from left to right. Each symbol has to start
otherwise than the rules that are unfinished in front of it, and then those at its end are unfinished,
with those in front of it if it may itself be absent.

Main results:

* `GrammarTable.Separates.patternAccepts` — the first token of a word chooses the alternative.
* `GrammarTable.Separates.refused` — behind any word, what follows is refused by the rules that are
  unfinished in front of it.
-/

namespace Planfile

open LiveGrammar (ofTable)

namespace GrammarTable

/-- The table without the alternatives that start with one of some keywords. -/
def without (t : GrammarTable) (keywords : List String) : GrammarTable where
  rules := t.rules.map fun r =>
    { r with patterns := r.patterns.filter fun p => !p.keyword?.any keywords.contains }

/-- Of a rule only alternatives are left out. -/
theorem rule_without (t : GrammarTable) (keywords : List String) (id : RuleId) :
    (t.without keywords).rule id = { t.rule id with
      patterns := (t.rule id).patterns.filter fun p => !p.keyword?.any keywords.contains } := by
  rw [rule, without, rule, Array.getElem?_map]
  cases t.rules[id.index]? with
  | none => rfl
  | some r => rfl

/-- The terminals that a symbol can start with. -/
def beginnings (t : GrammarTable) (s : Symbol) : List Terminal :=
  t.firstOfSymbol (Limits.firstSetDepth + 1) s

/-- Whether a symbol can start with a token. -/
def Begins (t : GrammarTable) (token : Token) (s : Symbol) : Prop :=
  ∃ a ∈ t.beginnings s, a.accepts token = true

/-- Whether no token looks as if a rule and a symbol could both start with it. -/
def isApart (t : GrammarTable) (id : RuleId) (s : Symbol) : Bool :=
  (t.beginnings (.rule id)).all fun a => (t.beginnings s).all fun b => !a.overlaps b

/-- Whether a symbol may be absent. -/
def mayBeAbsent (t : GrammarTable) : Symbol → Bool
  | .rule id => (t.rule id).optional
  | _ => false

section
variable (t : GrammarTable) (ends : RuleId → List RuleId)

/-- The rules that are unfinished behind a symbol, where those in front of it are known, and those at
the end of each rule. -/
def unfinishedBehind (before : List RuleId) : Symbol → List RuleId
  | .rule id => ends id ++ if (t.rule id).optional then before else []
  | _ => []

/-- The rules that are unfinished behind several symbols. -/
def unfinishedAfter (before : List RuleId) (symbols : List Symbol) : List RuleId :=
  symbols.foldl (t.unfinishedBehind ends) before

/-- Whether each of some symbols starts otherwise than the rules that are unfinished in front of
it. -/
def isSeparate : List RuleId → List Symbol → Bool
  | _, [] => true
  | before, s :: rest =>
    before.all (t.isApart · s) && isSeparate (t.unfinishedBehind ends before s) rest

end

/-- Whether a token is one with which none of some unfinished rules can go on. -/
def Refused (t : GrammarTable) (unfinished : List RuleId) (token : Token) : Prop :=
  ∀ id ∈ unfinished, ¬t.Begins token (.rule id)

/-- Whether one token decides in a pattern of a rule. -/
structure SeparatesPattern (t : GrammarTable) (ends : RuleId → List RuleId) (inside : RuleId → Bool)
    (id : RuleId) (p : Pattern) : Prop where
  /-- It starts with something that cannot be absent. -/
  starts : ∃ s rest, p.symbols = s :: rest ∧ t.mayBeAbsent s = false
  separate : t.isSeparate ends [] p.symbols = true
  closes : t.unfinishedAfter ends [] p.symbols ⊆ ends id
  /-- Where the rule is repeated, the next repetition is not taken by an unfinished rule. -/
  repeats : (t.rule id).repeatable = true →
    ∀ other ∈ t.unfinishedAfter ends [] p.symbols, t.isApart other (.rule id) = true
  selfContained : p.isSelfContained = true
  inside : ∀ other, .rule other ∈ p.symbols → inside other = true

/-- Whether one token decides in the words of some rules, if they have no alternatives that start with
some keywords. -/
structure Separates (t : GrammarTable) (keywords : List String) (ends : RuleId → List RuleId)
    (inside : RuleId → Bool) : Prop where
  chains : ∀ id, t.startsWithin (Limits.firstSetDepth + 1) (.rule id) = true
  exclusive : ∀ id token, Lexer.looksRight token = true → (ofTable t).Exclusive id token
  patterns : ∀ id, inside id = true → ∀ p ∈ ((t.without keywords).rule id).patterns,
    t.SeparatesPattern ends inside id p
  /-- What may be absent or go on is unfinished at its end. -/
  unfinished : ∀ id, inside id = true → (t.rule id).optional = true ∨ (t.rule id).repeatable = true →
    id ∈ ends id

/-! ## Starting with a token -/

section
variable {t : GrammarTable}

/-- An alternative that can start with a token is one with which its rule can. -/
theorem begins_of_patternAccepts {id : RuleId} {p : Pattern} (hp : p ∈ (t.rule id).patterns)
    {token : Token} (h : (ofTable t).patternAccepts token p = .ok true) :
    t.Begins token (.rule id) := by
  obtain ⟨a, ha, fits⟩ := LiveGrammar.exists_mem_firstTerminals h
  exact ⟨a, List.mem_flatMap.mpr ⟨p, hp, ha⟩, fits⟩

/-- A terminal starts with what it accepts. -/
theorem begins_of_accepts {s : Symbol} {a : Terminal} (hs : s.terminal? = some a) {token : Token}
    (fits : a.accepts token = true) : t.Begins token s := by
  cases s with
  | literal text =>
    cases hs
    exact ⟨_, List.mem_singleton_self _, fits⟩
  | tokenClass k =>
    cases hs
    exact ⟨_, List.mem_singleton_self _, fits⟩
  | rule id => cases hs

/-- Where a rule and a symbol start otherwise, a token of the symbol is refused by the rule. -/
theorem not_begins_of_isApart {id : RuleId} {s : Symbol} (h : t.isApart id s = true) {token : Token}
    (right : Lexer.looksRight token = true) (hs : t.Begins token s) :
    ¬t.Begins token (.rule id) := by
  obtain ⟨b, hb, accepts⟩ := hs
  rintro ⟨a, ha, fits⟩
  have apart := List.all_eq_true.mp (List.all_eq_true.mp h a ha) b hb
  rw [LiveGrammar.overlaps_of_accepts right fits accepts] at apart
  cases apart

/-- At the end of the text nothing goes on. -/
theorem refused_eof (t : GrammarTable) (unfinished : List RuleId) : t.Refused unfinished .eof := by
  rintro id - ⟨a, -, fits⟩
  cases Terminal.isEof_of_accepts fits

/-- Tokens that are refused by some rules are refused by fewer. -/
theorem Refused.subset {few many : List RuleId} {token : Token} (h : t.Refused many token)
    (sub : few ⊆ many) : t.Refused few token :=
  fun id hid => h id (sub hid)

end

namespace Separates

variable {t : GrammarTable} {keywords : List String} {ends : RuleId → List RuleId}
  {inside : RuleId → Bool} (h : t.Separates keywords ends inside)

/-- What is left in a rule was in it before. -/
theorem mem_patterns {id : RuleId} {p : Pattern}
    (hp : p ∈ ((t.without keywords).rule id).patterns) : p ∈ (t.rule id).patterns := by
  rw [rule_without] at hp
  exact (List.mem_filter.mp hp).1

include h

/-- A rule with which a token cannot start has no alternative for it. -/
theorem candidates_eq_nil {id : RuleId} {token : Token} (refused : ¬t.Begins token (.rule id)) :
    (ofTable t).candidates id token = .ok [] := by
  obtain ⟨found, answer⟩ := LiveGrammar.candidates_of_startsWithin
    (LiveGrammar.addsKeywords_ofTable t) (h.chains id) token
  obtain ⟨sub, accepting⟩ := LiveGrammar.sublist_of_accepting answer
  cases found with
  | nil => exact answer
  | cons p rest =>
    -- a candidate would be an alternative that can start with the token
    have mem : p ∈ (ofTable t).patterns id := sub.subset List.mem_cons_self
    rw [LiveGrammar.patterns_ofTable] at mem
    exact absurd (begins_of_patternAccepts mem (accepting p List.mem_cons_self)) refused

/-- An alternative that can start with a token is the only one to choose. -/
theorem candidates_eq_singleton {id : RuleId} {p : Pattern} (hp : p ∈ (t.rule id).patterns)
    {token : Token} (right : Lexer.looksRight token = true)
    (accepts : (ofTable t).patternAccepts token p = .ok true) :
    (ofTable t).candidates id token = .ok [p] := by
  obtain ⟨found, answer⟩ := LiveGrammar.candidates_of_startsWithin
    (LiveGrammar.addsKeywords_ofTable t) (h.chains id) token
  have one := LiveGrammar.length_candidates_le_one (h.exclusive id token right) answer
  have mem : p ∈ found := by
    refine LiveGrammar.mem_accepting answer ?_ accepts
    rw [LiveGrammar.patterns_ofTable]
    exact hp
  -- it is among the candidates, and there are no two of them
  match found with
  | [] => cases mem
  | [q] => rw [answer, List.mem_singleton.mp mem]
  | _ :: _ :: _ => simp at one

/-- The first token of a word of a symbol that cannot be absent is one that the symbol can start
with. -/
theorem symbolAccepts {symbols : List Symbol} {text : List Token}
    (derived : (ofTable (t.without keywords)).Derives symbols text) {s : Symbol}
    {rest : List Symbol} (hs : symbols = s :: rest) (required : t.mayBeAbsent s = false)
    (within : ∀ id, s = .rule id → inside id = true) :
    ∃ token tail, text = token :: tail ∧ ∀ room, t.startsWithin room s = true →
      (ofTable t).symbolAccepts token room s = .ok true := by
  -- by induction on how the word is derived, because a rule starts with a word of an alternative
  induction derived generalizing s rest with
  | nil => cases hs
  | @terminal s' a token symbols text found fits _ _ =>
    cases hs
    refine ⟨token, text, rfl, fun room _ => ?_⟩
    cases s' with
    | literal word =>
      cases found
      rw [LiveGrammar.symbolAccepts_literal, fits]
    | tokenClass k =>
      cases found
      rw [LiveGrammar.symbolAccepts_tokenClass, fits]
    | rule id => cases found
  | absent optional _ _ =>
    cases hs
    have optional : ((t.without keywords).rule _).optional = true := optional
    rw [rule_without] at optional
    exact absurd optional (by simpa [mayBeAbsent] using required)
  | @once id p symbols first text mem _ _ ih _ | @again id p symbols first text _ mem _ _ ih _ =>
    cases hs
    rw [LiveGrammar.patterns_ofTable] at mem
    have pattern := h.patterns id (within id rfl) p mem
    obtain ⟨s', rest', starts, there⟩ := pattern.starts
    obtain ⟨token, tail, rfl, accepts⟩ := ih starts there fun other same =>
      pattern.inside other (by rw [starts, same]; exact List.mem_cons_self)
    refine ⟨token, tail ++ text, rfl, fun room chains => ?_⟩
    cases room with
    | zero => cases chains
    | succ room =>
      have declared : p ∈ (ofTable t).patterns id := by
        rw [LiveGrammar.patterns_ofTable]
        exact mem_patterns mem
      have firstIs : p.first? = some s' := by rw [Pattern.first?, starts, List.head?_cons]
      have nearer := LiveGrammar.startsWithin_first (LiveGrammar.addsKeywords_ofTable t) chains
        declared firstIs
      -- looking ahead gives an answer, and it is not that no alternative starts so
      obtain ⟨answer, found⟩ := LiveGrammar.symbolAccepts_of_startsWithin
        (LiveGrammar.addsKeywords_ofTable t) token chains
      cases answer with
      | true => exact found
      | false =>
        rw [LiveGrammar.symbolAccepts, LiveGrammar.anyM_false_iff] at found
        have refused := found p declared
        simp only [firstIs, accepts room nearer] at refused
        cases refused

/-- The first token of a word of an alternative chooses the alternative. -/
theorem patternAccepts {id : RuleId} (hid : inside id = true) {p : Pattern}
    (hp : p ∈ ((t.without keywords).rule id).patterns) {text : List Token}
    (derived : (ofTable (t.without keywords)).Derives p.symbols text) :
    ∃ token tail, text = token :: tail ∧ (ofTable t).patternAccepts token p = .ok true := by
  have pattern := h.patterns id hid p hp
  obtain ⟨s, rest, starts, there⟩ := pattern.starts
  obtain ⟨token, tail, rfl, accepts⟩ := h.symbolAccepts derived starts there fun other same =>
    pattern.inside other (by rw [starts, same]; exact List.mem_cons_self)
  refine ⟨token, tail, rfl, ?_⟩
  have firstIs : p.first? = some s := by rw [Pattern.first?, starts, List.head?_cons]
  have declared : p ∈ (ofTable t).patterns id := by
    rw [LiveGrammar.patterns_ofTable]
    exact mem_patterns hp
  have nearer := LiveGrammar.startsWithin_first (LiveGrammar.addsKeywords_ofTable t) (h.chains id)
    declared firstIs
  rw [LiveGrammar.patternAccepts, firstIs]
  exact accepts _ nearer

/-- A word of an alternative starts as the rule can. -/
theorem begins {id : RuleId} (hid : inside id = true) {p : Pattern}
    (hp : p ∈ ((t.without keywords).rule id).patterns) {text : List Token}
    (derived : (ofTable (t.without keywords)).Derives p.symbols text) :
    ∃ token tail, text = token :: tail ∧ t.Begins token (.rule id) := by
  obtain ⟨token, tail, rfl, accepts⟩ := h.patternAccepts hid hp derived
  exact ⟨token, tail, rfl, begins_of_patternAccepts (mem_patterns hp) accepts⟩

/-! ## Behind a word -/

/-- Behind a word of some symbols there is a token that the rules unfinished behind them refuse. So
those that were unfinished in front of them refuse the first token, be it one of the word or behind
it. -/
theorem refused {symbols : List Symbol} {text : List Token}
    (derived : (ofTable (t.without keywords)).Derives symbols text) {before : List RuleId}
    (separate : t.isSeparate ends before symbols = true)
    (within : ∀ id, .rule id ∈ symbols → inside id = true)
    (right : ∀ token ∈ text, Lexer.looksRight token = true) {behind : List Token}
    (follows : t.Refused (t.unfinishedAfter ends before symbols) (TokenSource.nextOf behind)) :
    t.Refused before (TokenSource.nextOf (text ++ behind)) := by
  -- what starts otherwise than the unfinished rules is refused by them
  have others {s : Symbol} {rest : List Symbol} {before : List RuleId} {token : Token}
      (separate : t.isSeparate ends before (s :: rest) = true)
      (right : Lexer.looksRight token = true) (starts : t.Begins token s) :
      t.Refused before token := by
    rw [isSeparate, Bool.and_eq_true, List.all_eq_true] at separate
    exact fun id hid => not_begins_of_isApart (separate.1 id hid) right starts
  induction derived generalizing before with
  | nil => exact follows
  | terminal found fits _ _ =>
    exact others separate (right _ List.mem_cons_self) (begins_of_accepts found fits)
  | @absent id symbols text optional _ ih =>
    -- the rule has read nothing, and all that was unfinished still is
    have still := ih (Bool.and_eq_true_iff.mp separate).2
      (fun other there => within other (List.mem_cons_of_mem _ there)) right follows
    have optional : ((t.without keywords).rule id).optional = true := optional
    rw [rule_without] at optional
    refine still.subset fun other there => ?_
    rw [unfinishedBehind, if_pos optional]
    exact List.mem_append_right _ there
  | @once id p symbols first text mem pattern _ _ _
  | @again id p symbols first text _ mem pattern _ _ _ =>
    rw [LiveGrammar.patterns_ofTable] at mem
    obtain ⟨token, tail, rfl, starts⟩ :=
      h.begins (within id List.mem_cons_self) mem pattern
    exact others separate (right token (by simp)) starts

end Separates

end GrammarTable

end Planfile
