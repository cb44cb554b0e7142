import Planfile.Proofs.Termination.Lookahead
import Planfile.Proofs.Typing.Perform

/-!
# Planfile — well-typed grammars

A grammar is well typed if every rule has a shape such that each of its alternatives gives a value of
that shape when the symbols have the shapes of theirs. A parse with such a grammar never ends for a
defect of the grammar: no value is of the wrong kind, and whatever is repeated reads something.

Main results:

* `GrammarTable.Typed.typed_of_mem_patterns` — alternatives that a plan adds are well typed as well.
* `Matcher.matched_matchRule` — matching a rule of a well-typed grammar.
-/

namespace Planfile

/-- The shape of what a pattern gives, where the shapes of rules are known. -/
def Pattern.gives? (ofRule : RuleId → Shape) (p : Pattern) : Option Shape :=
  match p.action with
  | none => some .absent
  | some a => a.gives? (p.symbols.map (Shape.ofSymbol ofRule))

/-- Whether a pattern gives what its rule says. -/
def Pattern.Typed (ofRule : RuleId → Shape) (rule : RuleId) (p : Pattern) : Prop :=
  ∃ s, p.gives? ofRule = some s ∧ s.fits (ofRule rule) = true

/-- Whether the rules of a grammar have the shapes that are said, also when a plan adds attributes
to it. What is repeated is collected in a list, and of a list nothing is asked. -/
structure GrammarTable.Typed (t : GrammarTable) (ofRule : RuleId → Shape) : Prop where
  extensible : t.Extensible
  patterns : ∀ id, ∀ p ∈ (t.rule id).patterns, p.Typed ofRule id
  optional : ∀ id, (t.rule id).optional = true → Shape.absent.fits (ofRule id) = true
  repeatable : ∀ id, (t.rule id).repeatable = true → ofRule id = .any
  extendable : ∀ id, t.IsExtendable id → ofRule id = .any

/-- An attribute that a plan has added is well typed: its value is where it is looked for. -/
theorem GrammarTable.IsExtension.gives? {t : GrammarTable} (ht : t.Extensible)
    (ofRule : RuleId → Shape) {p : Pattern} (h : t.IsExtension p) :
    p.gives? ofRule = some .any := by
  obtain ⟨e, full, resolved, action⟩ := h
  obtain ⟨reference, known⟩ := ht.reference
  rw [e.mapM_symbols full known] at resolved
  rw [Pattern.gives?, action, ← Except.ok.inj resolved]
  -- the value is stored as what its terminal gives, a date or a text
  have met : (ExtendAction.store e.id e.kind e.scenarioSpecific).takes.met
      ((Symbol.literal e.keyword :: e.tailSymbols reference).map (Shape.ofSymbol ofRule)) =
        true := by
    unfold AttributeExtension.tailSymbols
    cases e.kind <;> rfl
  simp only [AttributeExtension.action, Action.gives?, met]
  rfl

/-- Whether an alternative is one of a rule, or one that a plan can add to it. -/
def GrammarTable.Offers (t : GrammarTable) (id : RuleId) (p : Pattern) : Prop :=
  p ∈ (t.rule id).patterns ∨ t.IsExtendable id ∧ t.IsExtension p

/-- The alternatives in force are those of the rule and such that a plan can add. -/
theorem Context.Sound.offers {t : GrammarTable} {c : Context} (hc : c.Sound t) {id : RuleId}
    {p : Pattern} (hp : p ∈ (LiveGrammar.mk t c.extensions).patterns id) : t.Offers id p := by
  rcases List.mem_append.mp hp with declared | added
  · exact .inl declared
  · obtain ⟨e, he, rfl⟩ := List.mem_map.mp added
    obtain ⟨mem, here⟩ := List.mem_filter.mp he
    obtain ⟨takes, isExtension⟩ := hc.extensions e mem
    have same : e.1 = id := by simpa using here
    exact .inr ⟨same ▸ takes, isExtension⟩

/-- All alternatives of a rule are well typed, those that a plan can add included. -/
theorem GrammarTable.Offers.typed {t : GrammarTable} {ofRule : RuleId → Shape}
    (ht : t.Typed ofRule) {id : RuleId} {p : Pattern} (h : t.Offers id p) : p.Typed ofRule id := by
  rcases h with declared | ⟨extendable, added⟩
  · exact ht.patterns id p declared
  · refine ⟨.any, added.gives? ht.extensible ofRule, ?_⟩
    rw [ht.extendable id extendable]
    rfl

/-- All alternatives of a rule are well typed, those that a plan has added included. -/
theorem GrammarTable.Typed.typed_of_mem_patterns {t : GrammarTable} {ofRule : RuleId → Shape}
    (ht : t.Typed ofRule) {c : Context} (hc : c.Sound t) {id : RuleId} {p : Pattern}
    (hp : p ∈ (LiveGrammar.mk t c.extensions).patterns id) : p.Typed ofRule id :=
  (hc.offers hp).typed ht

/-- A symbol that has been matched, and those behind it. -/
theorem Suits.cons {item : MatchedValue} {items : List MatchedValue} {location : Location}
    {s : Shape} {shapes : List Shape} (first : s.Has item.value?)
    (rest : Suits ⟨items, location⟩ shapes) :
    Suits ⟨item :: items, location⟩ (s :: shapes) := by
  intro i
  cases i with
  | zero => exact first
  | succ i => exact rest i

namespace Matcher

/-- What is known of matching rules: it gives what the rules say, and an alternative that is chosen reads
something. -/
structure Matched (t : GrammarTable) (ofRule : RuleId → Shape)
    (matchRule : RuleId → Matcher (Option Value)) : Prop where
  yields : ∀ id, Yields t (ofRule id).Has (matchRule id)
  reads : ∀ {env c d e id p v}, choose id env c = (.ok (some p), d) →
    matchPattern matchRule p env d = (.ok v, e) → c.tokens.consumed < e.tokens.consumed

section
variable {t : GrammarTable} {ofRule : RuleId → Shape} {matchRule : RuleId → Matcher (Option Value)}

theorem has_matched {a : Terminal} {token : Token} (h : a.accepts token = true) :
    (Shape.ofTerminal a).Has (a.matched token).value? := by
  cases a with
  | literal text => exact rfl
  | tokenClass c => exact Shape.has_ofToken? (by simpa [Terminal.accepts] using h)

theorem blamesGrammar_of_isUnfit {fault : ParseFault} (h : fault.IsUnfit) :
    fault.blamesGrammar = false := by
  cases fault <;> first | rfl | cases h

/-- A symbol gives a value of its shape. -/
theorem yields_matchSymbol (hm : Matched t ofRule matchRule) (s : Symbol) :
    Yields t (fun item => (Shape.ofSymbol ofRule s).Has item.value?) (matchSymbol matchRule s) := by
  have terminal {a : Terminal} (hs : s.terminal? = some a)
      (shape : Shape.ofSymbol ofRule s = Shape.ofTerminal a) :
      Yields t (fun item => (Shape.ofSymbol ofRule s).Has item.value?)
        (matchSymbol matchRule s) := by
    intro env c _ hc
    cases fits : a.accepts c.tokens.peek with
    | true =>
      rw [run_matchSymbol_of_accepts matchRule hs env fits, shape]
      exact ⟨has_matched fits, ⟨hc.extensions, hc.target⟩, Nat.le_succ _⟩
    | false =>
      obtain ⟨fault, unfit, run⟩ := run_matchSymbol_of_not_accepts matchRule hs env fits
      rw [run]
      exact blamesGrammar_of_isUnfit unfit
  cases s with
  | literal text => exact terminal rfl rfl
  | tokenClass c => exact terminal rfl rfl
  | rule id => exact (hm.yields id).map fun _ hv => hv

theorem yields_matchSymbols (hm : Matched t ofRule matchRule) (location : Location)
    (symbols : List Symbol) :
    Yields t (fun items => Suits ⟨items, location⟩ (symbols.map (Shape.ofSymbol ofRule)))
      (matchSymbols matchRule symbols) := by
  induction symbols with
  | nil => exact yields_pure fun i => rfl
  | cons s rest ih =>
    refine (yields_matchSymbol hm s).bind fun item first => ?_
    exact ih.map fun items others => .cons first others

/-- An alternative of a rule gives what the rule says. -/
theorem yields_matchPattern (ht : t.Extensible) (hm : Matched t ofRule matchRule) {id : RuleId}
    {p : Pattern} (hp : p.Typed ofRule id) :
    Yields t (ofRule id).Has (matchPattern matchRule p) := by
  obtain ⟨s, gives, fits⟩ := hp
  refine yields_get fun c _ => ?_
  refine (yields_matchSymbols hm c.tokens.location p.symbols).bind fun items suits => ?_
  rw [Pattern.gives?] at gives
  cases ha : p.action with
  | none =>
    simp only [ha, Option.some.injEq] at gives
    subst gives
    have none : Shape.absent.Has none := rfl
    exact yields_pure (Shape.has_of_fits fits none)
  | some action =>
    simp only [ha] at gives
    refine (yields_report _).andThen fun _ => ?_
    exact (action.yields_perform ht suits gives matchRule).weaken
      fun v hv => Shape.has_of_fits fits hv

/-- Choosing gives one of the alternatives that can start with the next token, if it gives any. -/
theorem exists_of_choose (ht : t.Extensible) {env : Surroundings} {c : Context}
    (he : env.grammar = t) (hc : c.Sound t) (id : RuleId) :
    ∃ chosen journal, choose id env c = (.ok chosen, { c with journal := journal }) ∧
      ∀ p, chosen = some p → p ∈ (LiveGrammar.mk t c.extensions).patterns id ∧
        (LiveGrammar.mk t c.extensions).patternAccepts c.tokens.peek p = .ok true := by
  subst he
  obtain ⟨found, answer⟩ := LiveGrammar.candidates_of_startsWithin hc.addsKeywords
    (ht.chains id) c.tokens.peek
  obtain ⟨journal, run⟩ := run_choose answer
  refine ⟨found.head?, journal, run, fun p hp => ?_⟩
  have mem : p ∈ found := List.mem_of_head? hp
  exact ⟨LiveGrammar.subset_of_candidates answer mem,
    (LiveGrammar.sublist_of_accepting answer).2 p mem⟩

/-! ## Rules -/

/-- Where no alternative is chosen, a rule is expected or has come to its end. -/
theorem yields_endRepetition (id : RuleId) (mayStop : Bool) (values : List Value) :
    Yields t (fun _ => True) (endRepetition id mayStop values) := by
  have stop : Yields t (fun _ => True) (do markStop id; return values : Matcher (List Value)) :=
    yields_change yields_return (fun _ => rfl) (fun _ => rfl) (fun _ => rfl)
  cases mayStop with
  | true => exact stop
  | false =>
    refine yields_read fun env _ => ?_
    exact (yields_get fun _ _ => yields_failNext rfl : Yields t (fun _ => True) _).andThen
      fun _ => stop

/-- What is repeated reads something each time, so no repetition is without progress. -/
theorem yields_matchRepeatedly (ht : t.Typed ofRule) (hm : Matched t ofRule matchRule)
    (id : RuleId) (mayStop : Bool) (fuel : Nat) (values : List Value) :
    Yields t (fun _ => True) (matchRepeatedly matchRule id mayStop fuel values) := by
  -- by induction on the number of times that the rule may still be repeated
  induction fuel generalizing mayStop values with
  | zero => exact fun _ _ _ _ => rfl
  | succ fuel ih =>
    intro env c he hc
    obtain ⟨chosen, journal, run, one⟩ := exists_of_choose ht.extensible he hc id
    have sound : ({ c with journal := journal } : Context).Sound t := ⟨hc.extensions, hc.target⟩
    cases chosen with
    | none =>
      rw [run_matchRepeatedly_of_none run]
      exact yields_endRepetition id mayStop values env _ he sound
    | some p =>
      have typed := ht.typed_of_mem_patterns hc (one p rfl).1
      have pattern := yields_matchPattern ht.extensible hm typed
      rw [run_matchRepeatedly_of_some run]
      cases hr : matchPattern matchRule p env { c with journal := journal } with
      | mk outcome d =>
        cases outcome with
        | error stop => exact pattern.of_error he sound hr
        | ok v =>
          -- the alternative was chosen by a token that it has read, so there is progress
          have strict : c.tokens.consumed < d.tokens.consumed := hm.reads run hr
          obtain ⟨-, next, forward⟩ := pattern.of_ok he sound hr
          have others := ih true (v.toList ++ values) env d he next
          dsimp only
          rw [if_neg (Nat.ne_of_gt strict)]
          cases ho : matchRepeatedly matchRule id true fuel (v.toList ++ values) env d with
          | mk outcome e =>
            rw [ho] at others
            cases outcome with
            | error stop => exact others
            | ok all => exact ⟨trivial, others.2.1, Nat.le_trans forward others.2.2⟩

/-- A rule gives what it says, where the rules inside it do. -/
theorem yields_matchAlternatives (ht : t.Typed ofRule) (hm : Matched t ofRule matchRule)
    (fuel : Nat) (id : RuleId) :
    Yields t (ofRule id).Has (matchAlternatives matchRule fuel id) := by
  intro env c he hc
  subst he
  cases repeatable : (env.grammar.rule id).repeatable with
  | true =>
    rw [run_matchAlternatives_of_repeatable repeatable, ht.repeatable id repeatable]
    have repetition := yields_matchRepeatedly ht hm id (env.grammar.rule id).optional fuel []
    -- the values are collected in a list, of which nothing is asked
    have collects : Yields env.grammar Shape.any.Has (collected <$> matchRepeatedly matchRule id
        (env.grammar.rule id).optional fuel []) :=
      repetition.map fun _ _ => trivial
    exact collects env c rfl hc
  | false =>
    rw [run_matchAlternatives_of_single repeatable]
    obtain ⟨chosen, journal, run, one⟩ := exists_of_choose ht.extensible rfl hc id
    have sound : ({ c with journal := journal } : Context).Sound env.grammar :=
      ⟨hc.extensions, hc.target⟩
    rw [run]
    cases chosen with
    | some p =>
      have typed := ht.typed_of_mem_patterns hc (one p rfl).1
      exact yields_matchPattern ht.extensible hm typed env _ rfl sound
    | none =>
      dsimp only
      cases optional : (env.grammar.rule id).optional with
      | true =>
        -- the rule is absent, and that is one of the values it says
        have none : Shape.absent.Has none := rfl
        exact ⟨Shape.has_of_fits (ht.optional id optional) none, sound, Nat.le_refl _⟩
      | false => exact rfl

theorem Yields.nested {resource : α → Prop} {m : Matcher α} (hm : Yields t resource m) :
    Yields t resource (nested m) := by
  intro env c he hc
  have result := hm env { c with depth := c.depth + 1 } he ⟨hc.extensions, hc.target⟩
  rw [Matcher.nested, ExceptT.mk]
  dsimp only
  cases hr : m env { c with depth := c.depth + 1 } with
  | mk outcome d =>
    rw [hr] at result
    cases outcome with
    | error stop => exact result
    | ok a => exact ⟨result.1, ⟨result.2.1.extensions, result.2.1.target⟩, result.2.2⟩

end

/-- Rules of a well-typed grammar give what they say, however deep they nest. -/
theorem matched_matchRule {t : GrammarTable} {ofRule : RuleId → Shape} (ht : t.Typed ofRule)
    (fuel : Nat) : Matched t ofRule (matchRule fuel) := by
  refine ⟨?_, fun choice matched => consumed_lt_of_chosen (Action.wellBehaved _) choice matched⟩
  -- by induction on how deep rules may still nest
  induction fuel with
  | zero => exact fun _ _ _ _ _ => rfl
  | succ fuel ih =>
    have inside : Matched t ofRule (matchRule fuel) :=
      ⟨ih, fun choice matched => consumed_lt_of_chosen (Action.wellBehaved _) choice matched⟩
    intro id
    -- beyond the limit of nesting the plan is refused, but not the grammar
    refine yields_get fun c _ => ?_
    have rule : Yields t (ofRule id).Has
        (Matcher.nested (matchAlternatives (matchRule fuel) fuel id)) :=
      (yields_matchAlternatives ht inside fuel id).nested
    split
    · exact (yields_failNext rfl : Yields t (fun _ => True) _).andThen fun _ => rule
    · exact rule

/-- Matching the rule of a name, where the grammar has one. -/
theorem yields_parseRule {t : GrammarTable} {ofRule : RuleId → Shape} (ht : t.Typed ofRule)
    {name : String} {id : RuleId} (known : t.ruleId? name = some id) :
    Yields t (ofRule id).Has (parseRule name) := by
  intro env c he hc
  subst he
  rw [run_parseRule known]
  exact (matched_matchRule ht ampleFuel).yields id env c rfl hc

end Matcher

end Planfile
