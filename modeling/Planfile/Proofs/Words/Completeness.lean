import Planfile.Proofs.Source.FlatList
import Planfile.Proofs.Words.Separation

/-!
# Planfile — every word is matched

Where one token decides, a text that starts with a word of a rule is matched by the rule, and exactly
the word is read: whatever may be absent is there if the word has it, whatever is repeated goes on as
long as the word does, and neither takes a token of what follows. Only what the plan says can be
objected to, or that its rules nest too deep.

The text is read with a supply of fuel. It is enough if it exceeds the number of tokens by the number
of levels that rules may nest; `starved` stands for its not being so.

Main results:

* `Matcher.passes_matchSymbols` — words of symbols one after the other.
* `Matcher.passes_matchRepeatedly` — words of a rule that is repeated.
* `Matcher.passes_matchRule` — words of a rule.
-/

namespace Planfile

open LiveGrammar (ofTable)
open TokenSource (nextOf)

namespace LiveGrammar.Derives

variable {g : LiveGrammar}

/-- A word of several symbols is one of the first, with one of the others behind it. -/
theorem split {s : Symbol} {symbols : List Symbol} {text : List Token}
    (h : g.Derives (s :: symbols) text) :
    ∃ first rest, text = first ++ rest ∧ g.Derives [s] first ∧ g.Derives symbols rest := by
  generalize all : s :: symbols = whole at h
  induction h with
  | nil => cases all
  | @terminal s' a token symbols' text found fits rest _ =>
    cases all
    exact ⟨[token], text, rfl, .single found fits, rest⟩
  | @absent id symbols' text optional rest _ =>
    cases all
    exact ⟨[], text, rfl, .absent optional .nil, rest⟩
  | @once id p symbols' first text mem pattern rest _ _ =>
    cases all
    exact ⟨first, text, rfl, .alternative mem pattern, rest⟩
  | @again id p symbols' first text repeatable mem pattern _ _ ih =>
    cases all
    obtain ⟨more, rest, rfl, derived, others⟩ := ih rfl
    exact ⟨first ++ more, rest, (List.append_assoc ..).symm, .again repeatable mem pattern derived,
      others⟩

/-- A word of a rule is empty, if the rule may be absent, or begins with one of an alternative; behind
that there is nothing, or another word of the rule if the rule can be repeated. -/
theorem of_rule {id : RuleId} {text : List Token} (h : g.Derives [.rule id] text) :
    text = [] ∧ (g.table.rule id).optional = true ∨
      ∃ p ∈ g.patterns id, ∃ first more, text = first ++ more ∧ g.Derives p.symbols first ∧
        (more = [] ∨ (g.table.rule id).repeatable = true ∧ g.Derives [.rule id] more) := by
  cases h with
  | terminal found _ _ => cases found
  | absent optional rest =>
    cases rest
    exact .inl ⟨rfl, optional⟩
  | once mem pattern rest =>
    cases rest
    exact .inr ⟨_, mem, _, [], rfl, pattern, .inl rfl⟩
  | again repeatable mem pattern rest =>
    exact .inr ⟨_, mem, _, _, rfl, pattern, .inr ⟨repeatable, rest⟩⟩

end LiveGrammar.Derives

/-- Whether a computation that reads words may end early so. -/
def Stop.isAllowed (starved : Prop) : Stop → Prop
  | .error e => e.fault.isObjection = true ∨ e.fault = .maxParseDepth Limits.parseDepth
  | .outOfFuel => starved

/-- Whether a text is all that is ahead, nothing has been added to the grammar, and rules are nested
to a given depth. -/
structure Context.Faces (depth length : Nat) (c : Context) (text : List Token) : Prop where
  main : c.tokens.EndsInMain
  ahead : c.tokens.rest = text
  extensions : c.extensions = []
  depth : c.depth = depth
  short : text.length ≤ length
  right : ∀ token ∈ text, Lexer.looksRight token = true

namespace Context.Faces

variable {depth length : Nat} {c : Context} {text : List Token}

/-- The next token is the first of the text. -/
theorem peek (h : c.Faces depth length text) : c.tokens.peek = nextOf text := by
  rw [h.main.peek, ← h.ahead, ← TokenSource.map_remaining]
  cases c.tokens.remaining <;> rfl

/-- What is ahead looks right, as does the end of the text. -/
theorem looksRight (h : c.Faces depth length text) : Lexer.looksRight (nextOf text) = true := by
  cases text with
  | nil => rfl
  | cons token text => exact h.right token List.mem_cons_self

/-- A part of the state by which no tokens are matched can be any. -/
theorem of_matchingState (h : c.Faces depth length text) {d : Context}
    (same : d.matchingState = c.matchingState) :
    d.Faces depth length text := by
  have tokens : d.tokens = c.tokens := congrArg MatchingState.tokens same
  refine ⟨?_, ?_, ?_, ?_, h.short, h.right⟩
  · rw [tokens]
    exact h.main
  · rw [tokens]
    exact h.ahead
  · exact (congrArg MatchingState.extensions same).trans h.extensions
  · exact (congrArg MatchingState.depth same).trans h.depth

end Context.Faces

namespace Matcher

/-- Whether a state is one in which a word has been read, and nothing behind it. -/
structure Past (depth length : Nat) (c : Context) (word behind : List Token) (d : Context) : Prop where
  faces : d.Faces depth length behind
  counted : d.tokens.consumed = c.tokens.consumed + word.length

/-- Whether a computation in some state comes to its end in one that is asked for, or ends early as is
allowed. -/
def Passes (starved : Prop) (ask : Context → Prop) (m : Matcher α) (env : Surroundings)
    (c : Context) : Prop :=
  match m env c with
  | (.ok _, d) => ask d
  | (.error stop, _) => stop.isAllowed starved

section
variable {starved : Prop} {depth length : Nat} {env : Surroundings} {c : Context}

/-- What follows a computation starts where it has come to its end. -/
theorem Passes.bind {mid ask : Context → Prop} {m : Matcher α} {f : α → Matcher β}
    (hm : Passes starved mid m env c)
    (hf : ∀ a d, mid d → Passes starved ask (f a) env d) : Passes starved ask (m >>= f) env c := by
  unfold Passes at hm ⊢
  rw [run_bind]
  cases run : m env c with
  | mk outcome d =>
    rw [run] at hm
    cases outcome with
    | error stop => exact hm
    | ok a => exact hf a d hm

/-- The state that is asked for may be one of more. -/
theorem Passes.weaken {ask less : Context → Prop} {m : Matcher α}
    (hm : Passes starved ask m env c) (hl : ∀ d, ask d → less d) :
    Passes starved less m env c := by
  unfold Passes at hm ⊢
  cases run : m env c with
  | mk outcome d =>
    rw [run] at hm
    cases outcome with
    | error stop => exact hm
    | ok a => exact hl d hm

theorem Passes.map {ask : Context → Prop} {m : Matcher α} (f : α → β)
    (hm : Passes starved ask m env c) : Passes starved ask (f <$> m) env c := by
  rw [← bind_pure_comp]
  exact hm.bind fun _ _ asked => asked

/-- What only objects ends early as is allowed. -/
theorem Ends.passes {asked : α → Context → Prop} {ask : Context → Prop} {m : Matcher α}
    (h : Ends asked m env c) (ha : ∀ a d, asked a d → ask d) : Passes starved ask m env c := by
  unfold Passes
  cases run : m env c with
  | mk outcome d =>
    cases outcome with
    | error stop =>
      have objection := h.of_error run
      cases stop with
      | error e => exact .inl objection
      | outOfFuel => cases objection
    | ok a => exact ha a d (h.of_ok run)

/-- Two words one behind the other are one. -/
theorem Past.append {first second behind : List Token} {d e : Context}
    (h : Past depth length c first (second ++ behind) d) (hs : Past depth length d second behind e) :
    Past depth length c (first ++ second) behind e := by
  refine ⟨hs.faces, ?_⟩
  rw [hs.counted, h.counted, List.length_append]
  omega

/-- In front of a text an empty word has been read. -/
theorem Past.nil {behind : List Token} (h : c.Faces depth length behind) :
    Past depth length c [] behind c := ⟨h, rfl⟩

/-- A token has been read that was the first of those ahead. -/
theorem Past.next {token : Token} {behind : List Token}
    (h : c.Faces depth length (token :: behind)) (notEof : token.isEof = false) :
    Past depth length c [token] behind (c.next env) := by
  have next : c.tokens.peek = token := h.peek
  rw [← next] at notEof
  obtain ⟨spanned, same, advanced⟩ := advance_of_isEof notEof
  have left := TokenSource.rest_of_advance advanced
  rw [h.ahead] at left
  have shorter := h.short
  rw [List.length_cons] at shorter
  refine ⟨⟨TokenSource.endsInMain_settled _, (List.cons.inj left).2.symm, h.extensions, h.depth, ?_,
    fun t ht => h.right t (List.mem_cons_of_mem _ ht)⟩, rfl⟩
  omega

end

section
variable {t : GrammarTable} {keywords : List String} {ends : RuleId → List RuleId}
  {inside : RuleId → Bool} {starved : Prop} {depth length : Nat}
  {matchRule : RuleId → Matcher (Option Value)} {env : Surroundings} {c : Context}

/-- Whether rules are matched by their words, at some depth and if the text is no longer than is
said. -/
def Completes (t : GrammarTable) (keywords : List String) (ends : RuleId → List RuleId)
    (inside : RuleId → Bool) (starved : Prop) (depth length : Nat)
    (matchRule : RuleId → Matcher (Option Value)) : Prop :=
  ∀ id word behind env c, env.grammar = t → inside id = true →
    (ofTable (t.without keywords)).Derives [.rule id] word →
    c.Faces depth length (word ++ behind) → t.Refused (ends id) (nextOf behind) →
    Passes starved (Past depth length c word behind) (matchRule id) env c

/-- A symbol is matched by a word of it. -/
theorem passes_matchSymbol
    (hm : Completes t keywords ends inside starved depth length matchRule) (he : env.grammar = t)
    {s : Symbol} (within : ∀ id, s = .rule id → inside id = true) {word behind : List Token}
    (derived : (ofTable (t.without keywords)).Derives [s] word)
    (faces : c.Faces depth length (word ++ behind))
    (refused : ∀ id, s = .rule id → t.Refused (ends id) (nextOf behind)) :
    Passes starved (Past depth length c word behind) (matchSymbol matchRule s) env c := by
  have terminal {a : Terminal} (hs : s.terminal? = some a) :
      Passes starved (Past depth length c word behind) (matchSymbol matchRule s) env c := by
    cases derived with
    | @terminal _ b token _ text found fits rest =>
      cases rest
      obtain rfl : b = a := Option.some.inj (found.symm.trans hs)
      have accepts : b.accepts c.tokens.peek = true := by
        rw [faces.peek]
        exact fits
      rw [Passes, run_matchSymbol_of_accepts matchRule hs env accepts]
      exact Past.next faces (Terminal.isEof_of_accepts fits)
    | absent => cases hs
    | once => cases hs
    | again => cases hs
  cases s with
  | literal text => exact terminal rfl
  | tokenClass k => exact terminal rfl
  | rule id =>
    exact (hm id word behind env c he (within id rfl) derived faces (refused id rfl)).map _

/-- Symbols one after the other are matched by a word of all of them. -/
theorem passes_matchSymbols (hs : t.Separates keywords ends inside)
    (hm : Completes t keywords ends inside starved depth length matchRule) (he : env.grammar = t)
    {symbols : List Symbol} (within : ∀ id, .rule id ∈ symbols → inside id = true)
    {before : List RuleId} (separate : t.isSeparate ends before symbols = true)
    {word behind : List Token} (derived : (ofTable (t.without keywords)).Derives symbols word)
    (faces : c.Faces depth length (word ++ behind))
    (refused : t.Refused (t.unfinishedAfter ends before symbols) (nextOf behind)) :
    Passes starved (Past depth length c word behind) (matchSymbols matchRule symbols) env c := by
  induction symbols generalizing c before word with
  | nil =>
    cases derived
    exact Past.nil faces
  | cons s symbols ih =>
    obtain ⟨first, rest, rfl, derived, others⟩ := derived.split
    rw [List.append_assoc] at faces
    have withinRest : ∀ id, .rule id ∈ symbols → inside id = true :=
      fun id there => within id (List.mem_cons_of_mem _ there)
    have separateRest := (Bool.and_eq_true_iff.mp separate).2
    -- what follows the symbol is refused by the rules that are unfinished at its end
    have next := hs.refused others separateRest withinRest
      (fun token there => faces.right token (by simp [there])) refused
    have own : ∀ id, s = .rule id → t.Refused (ends id) (nextOf (rest ++ behind)) := by
      rintro id rfl
      exact next.subset (List.subset_append_left _ _)
    have one := passes_matchSymbol hm he
      (fun id same => within id (same ▸ List.mem_cons_self)) derived faces own
    refine one.bind fun item d past => ?_
    have others := ih withinRest separateRest others past.faces refused
    exact others.bind fun more e past' => past.append past'

/-- An alternative is matched by a word of it. -/
theorem passes_matchPattern (hs : t.Separates keywords ends inside)
    (hm : Completes t keywords ends inside starved depth length matchRule) (he : env.grammar = t)
    {id : RuleId} {p : Pattern} (hp : t.SeparatesPattern ends inside id p) {word behind : List Token}
    (derived : (ofTable (t.without keywords)).Derives p.symbols word)
    (faces : c.Faces depth length (word ++ behind))
    (refused : t.Refused (t.unfinishedAfter ends [] p.symbols) (nextOf behind)) :
    Passes starved (Past depth length c word behind) (matchPattern matchRule p) env c := by
  have symbols := passes_matchSymbols hs hm he hp.inside hp.separate derived faces refused
  rw [Passes, run_matchPattern]
  refine symbols.bind fun items d past => ?_
  -- the action leaves alone by what tokens are matched
  have acted := keeps_performed matchRule hp.selfContained c.tokens.location items env d
  refine acted.passes fun _ e kept => ⟨past.faces.of_matchingState kept, ?_⟩
  have tokens : e.tokens = d.tokens := congrArg MatchingState.tokens kept
  rw [tokens]
  exact past.counted

/-- The next token chooses the alternative of which a word is ahead. -/
theorem run_choose_of_word (hs : t.Separates keywords ends inside) (he : env.grammar = t)
    {id : RuleId} (hid : inside id = true) {p : Pattern}
    (hp : p ∈ ((t.without keywords).rule id).patterns) {word behind : List Token}
    (derived : (ofTable (t.without keywords)).Derives p.symbols word)
    (faces : c.Faces depth length (word ++ behind)) :
    word ≠ [] ∧ ∃ journal, choose id env c = (.ok (some p), { c with journal := journal }) := by
  subst he
  obtain ⟨token, tail, rfl, accepts⟩ := hs.patternAccepts hid hp derived
  have next : c.tokens.peek = token := faces.peek
  have one := hs.candidates_eq_singleton (GrammarTable.Separates.mem_patterns hp)
    (faces.right token (by simp)) accepts
  have inForce : (LiveGrammar.mk env.grammar c.extensions).candidates id c.tokens.peek =
      .ok [p] := by
    rw [faces.extensions, next]
    exact one
  obtain ⟨journal, run⟩ := run_choose inForce
  exact ⟨List.cons_ne_nil _ _, journal, run⟩

/-- Where the next token is refused by a rule, no alternative of the rule is chosen. -/
theorem run_choose_of_refused (hs : t.Separates keywords ends inside) (he : env.grammar = t)
    {id : RuleId} {behind : List Token} (faces : c.Faces depth length behind)
    (refused : ¬t.Begins (nextOf behind) (.rule id)) :
    ∃ journal, choose id env c = (.ok none, { c with journal := journal }) := by
  subst he
  have none := hs.candidates_eq_nil refused
  have inForce : (LiveGrammar.mk env.grammar c.extensions).candidates id c.tokens.peek =
      .ok [] := by
    rw [faces.extensions, faces.peek]
    exact none
  exact run_choose inForce

/-- Behind a word of an alternative, what follows is refused by the rules that are unfinished at its
end: it is behind the rule, or starts the next repetition. -/
theorem refused_behind (hs : t.Separates keywords ends inside) {id : RuleId}
    (hid : inside id = true) {p : Pattern}
    (hp : p ∈ ((t.without keywords).rule id).patterns) {more behind : List Token}
    (right : ∀ token ∈ more, Lexer.looksRight token = true)
    (derived : more = [] ∨ (t.rule id).repeatable = true ∧
      (ofTable (t.without keywords)).Derives [.rule id] more)
    (refused : t.Refused (ends id) (nextOf behind)) :
    t.Refused (t.unfinishedAfter ends [] p.symbols) (nextOf (more ++ behind)) := by
  have pattern := hs.patterns id hid p hp
  have last : more = [] →
      t.Refused (t.unfinishedAfter ends [] p.symbols) (nextOf (more ++ behind)) := by
    rintro rfl
    exact refused.subset pattern.closes
  rcases derived with none | ⟨repeatable, derived⟩
  · exact last none
  rcases derived.of_rule with ⟨none, -⟩ | ⟨q, hq, first, rest, rfl, starts, -⟩
  · exact last none
  · rw [LiveGrammar.patterns_ofTable] at hq
    obtain ⟨token, tail, rfl, begins⟩ := hs.begins hid hq starts
    intro other there
    exact GrammarTable.not_begins_of_isApart (pattern.repeats repeatable other there)
      (right token (by simp)) begins

/-- A rule that is repeated is matched by a word of it, which may be empty if the rule may stop. -/
theorem passes_matchRepeatedly (hs : t.Separates keywords ends inside)
    (hm : Completes t keywords ends inside starved depth length matchRule) (he : env.grammar = t)
    {id : RuleId} (hid : inside id = true) (repeatable : (t.rule id).repeatable = true)
    {fuel : Nat} {mayStop : Bool} {values : List Value} {word behind : List Token}
    (enough : fuel < (word ++ behind).length + 1 → starved)
    (optional : (t.rule id).optional = true → mayStop = true)
    (derived : (ofTable (t.without keywords)).Derives [.rule id] word ∨
      word = [] ∧ mayStop = true)
    (faces : c.Faces depth length (word ++ behind))
    (refused : t.Refused (ends id) (nextOf behind)) :
    Passes starved (Past depth length c word behind)
      (matchRepeatedly matchRule id mayStop fuel values) env c := by
  -- by induction on the number of times that the rule may still be repeated
  induction fuel generalizing c mayStop values word with
  | zero => exact enough (Nat.succ_pos _)
  | succ fuel ih =>
    have journal (j : Log.Journal) :
        ({ c with journal := j } : Context).Faces depth length (word ++ behind) :=
      faces.of_matchingState rfl
    -- the word is empty, or begins with one of an alternative
    have parts : word = [] ∧ mayStop = true ∨
        ∃ p ∈ ((t.without keywords).rule id).patterns, ∃ first more, word = first ++ more ∧
          (ofTable (t.without keywords)).Derives p.symbols first ∧
          (more = [] ∨ (ofTable (t.without keywords)).Derives [.rule id] more) := by
      rcases derived with derived | none
      · rcases derived.of_rule with ⟨none, absent⟩ | ⟨p, hp, first, more, same, starts, rest⟩
        · have absent : ((t.without keywords).rule id).optional = true := absent
          rw [GrammarTable.rule_without] at absent
          exact .inl ⟨none, optional absent⟩
        · rw [LiveGrammar.patterns_ofTable] at hp
          exact .inr ⟨p, hp, first, more, same, starts, rest.imp_right (·.2)⟩
      · exact .inl none
    rcases parts with ⟨rfl, rfl⟩ | ⟨p, hp, first, more, rfl, starts, rest⟩
    · have own := hs.unfinished id hid (.inr repeatable)
      obtain ⟨j, choice⟩ := run_choose_of_refused hs he faces (refused id own)
      rw [Passes, run_matchRepeatedly_of_none choice]
      exact ⟨faces.of_matchingState rfl, rfl⟩
    · rw [List.append_assoc] at faces enough journal
      obtain ⟨nonempty, j, choice⟩ := run_choose_of_word hs he hid hp starts faces
      have behindFirst := refused_behind hs hid hp
        (fun token there => faces.right token (by simp [there]))
        (rest.imp_right fun derived => ⟨repeatable, derived⟩) refused
      have pattern := passes_matchPattern hs hm he (hs.patterns id hid p hp) starts (journal j)
        behindFirst
      rw [Passes, run_matchRepeatedly_of_some choice]
      unfold Passes at pattern
      cases run : matchPattern matchRule p env { c with journal := j } with
      | mk outcome d =>
        rw [run] at pattern
        cases outcome with
        | error stop => exact pattern
        | ok v =>
          have past : Past depth length c first (more ++ behind) d := ⟨pattern.1, pattern.2⟩
          -- the word of an alternative is not empty, so there is progress
          have longer : 0 < first.length := List.length_pos_iff.mpr nonempty
          have moved : d.tokens.consumed ≠ c.tokens.consumed := by
            rw [past.counted]
            omega
          have shorter : fuel < (more ++ behind).length + 1 → starved := by
            intro few
            apply enough
            rw [List.length_append]
            omega
          have others : Passes starved (Past depth length d more behind)
              (matchRepeatedly matchRule id true fuel (v.toList ++ values)) env d :=
            ih shorter (fun _ => rfl) (rest.symm.imp_right fun none => ⟨none, rfl⟩) past.faces
          dsimp only
          rw [if_neg moved]
          exact others.weaken fun e past' => past.append past'

/-- A rule is matched by a word of it, where the rules inside it are. -/
theorem passes_matchAlternatives (hs : t.Separates keywords ends inside)
    (hm : Completes t keywords ends inside starved depth length matchRule) {fuel : Nat}
    (enough : fuel < length + 1 → starved) :
    Completes t keywords ends inside starved depth length (matchAlternatives matchRule fuel) := by
  intro id word behind env c he hid derived faces refused
  cases repeatable : (t.rule id).repeatable with
  | true =>
    rw [Passes, run_matchAlternatives_of_repeatable (he ▸ repeatable)]
    refine (passes_matchRepeatedly hs hm he hid repeatable ?_ ?_ (.inl derived) faces refused).map _
    · intro few
      have short := faces.short
      exact enough (by omega)
    · rw [he]
      exact fun optional => optional
  | false =>
    rw [Passes, run_matchAlternatives_of_single (he ▸ repeatable)]
    rcases derived.of_rule with ⟨rfl, absent⟩ | ⟨p, hp, first, more, rfl, starts, rest⟩
    · -- the rule may be absent, and what follows is none of its tokens
      have absent : ((t.without keywords).rule id).optional = true := absent
      rw [GrammarTable.rule_without] at absent
      have own := hs.unfinished id hid (.inl absent)
      obtain ⟨j, choice⟩ := run_choose_of_refused hs he faces (refused id own)
      rw [choice]
      dsimp only
      rw [he, if_pos absent]
      exact ⟨faces.of_matchingState rfl, rfl⟩
    · rw [LiveGrammar.patterns_ofTable] at hp
      -- the rule is not repeated, so the word is one of the alternative alone
      obtain rfl : more = [] := by
        rcases rest with none | ⟨again, -⟩
        · exact none
        · have again : ((t.without keywords).rule id).repeatable = true := again
          rw [GrammarTable.rule_without, repeatable] at again
          cases again
      rw [List.append_nil] at faces ⊢
      obtain ⟨-, j, choice⟩ := run_choose_of_word hs he hid hp starts faces
      have pattern := passes_matchPattern hs hm he (hs.patterns id hid p hp) starts
        (faces.of_matchingState (d := { c with journal := j }) rfl)
        (refused.subset (hs.patterns id hid p hp).closes)
      rw [choice]
      exact pattern.weaken fun d past => ⟨past.faces, past.counted⟩

end

/-- Rules are matched by their words, however deep they nest, if the fuel exceeds the number of tokens
by the number of levels that are left. -/
theorem passes_matchRule {t : GrammarTable} {keywords : List String} {ends : RuleId → List RuleId}
    {inside : RuleId → Bool} (hs : t.Separates keywords ends inside) {starved : Prop} {fuel : Nat}
    {depth length : Nat} (enough : fuel < Limits.parseDepth - depth + length + 2 → starved) :
    Completes t keywords ends inside starved depth length (matchRule fuel) := by
  -- by induction on how deep rules may still nest
  induction fuel generalizing depth with
  | zero => exact fun _ _ _ _ _ _ _ _ _ _ => enough (Nat.succ_pos _)
  | succ fuel ih =>
    intro id word behind env c he hid derived faces refused
    by_cases deep : Limits.parseDepth ≤ c.depth
    · rw [Passes, matchRule_tooDeep fuel id deep]
      exact .inr rfl
    · have level := faces.depth
      have inner : Completes t keywords ends inside starved (depth + 1) length (matchRule fuel) :=
        ih fun few => enough (by omega)
      have left : fuel < length + 1 → starved := by
        intro few
        apply enough
        omega
      have alternatives := passes_matchAlternatives hs inner left
      have deeper : ({ c with depth := c.depth + 1 } : Context).Faces (depth + 1) length
          (word ++ behind) := by
        refine ⟨faces.main, faces.ahead, faces.extensions, ?_, faces.short, faces.right⟩
        exact congrArg (· + 1) level
      have passes := alternatives id word behind env _ he hid derived deeper refused
      rw [Passes, run_matchRule fuel (Nat.lt_of_not_le deep)]
      unfold Passes at passes
      cases run : matchAlternatives (matchRule fuel) fuel id env { c with depth := c.depth + 1 } with
      | mk outcome d =>
        rw [run] at passes
        cases outcome with
        | error stop => exact passes
        | ok v =>
          obtain ⟨left, counted⟩ : Past (depth + 1) length { c with depth := c.depth + 1 } word
            behind d := passes
          -- behind the rule the level is the one of before
          refine ⟨⟨left.main, left.ahead, left.extensions, ?_, left.short, left.right⟩, counted⟩
          show d.depth - 1 = depth
          rw [left.depth]
          omega

end Matcher

end Planfile
