import Planfile.Parse.Matcher
import Planfile.Proofs.Pasting.Outline
import Planfile.Proofs.Source.Pasting

/-!
# Planfile — matching the same text again

What has nothing to do with including files reads its text token by token. Where the same text is
ahead, in whichever files, it is matched again and does the same. What stands behind the text can
only matter to what is at the end of it; there it is either the same as before, or a token between
statements in both cases, which is left alone.

Main results:

* `Matcher.Replays` — a computation reads its text, and another one does the same wherever the text
  is ahead.
* `Matcher.replays_matchRule` — rules that have nothing to do with including files.
-/

/-!
## The text that a parse goes through

The tokens that are read while something is matched, in order, make up a text. An include statement
that is performed leaves nothing in it, and what is read from its file follows. So the text of a
whole parse is the one in which every such statement has given way to the tokens of its file, down
to the files that are included by files.
-/

namespace Planfile.Matcher

/-- The text that something goes through from a state on. -/
abbrev Text := Surroundings → Context → List Token

section
variable (matchRule : RuleId → Matcher (Option Value)) (ruleText : RuleId → Text)

/-- The text of a symbol, where those of rules are known. -/
def symbolText (s : Symbol) : Text := fun env c =>
  match s with
  | .rule id => ruleText id env c
  | _ => [c.tokens.peek]

/-- The text of symbols one after the other. -/
def symbolsText : List Symbol → Text
  | [], _, _ => []
  | s :: rest, env, c =>
    symbolText ruleText s env c ++ symbolsText rest env (matchSymbol matchRule s env c).2

/-- The text of a pattern; an include statement leaves nothing. -/
def patternText (p : Pattern) : Text := fun env c =>
  match p.action with
  | some (.includeFile _) => []
  | _ => symbolsText matchRule ruleText p.symbols env c

/-- The text of a rule that is repeated. -/
def repetitionText (rule : RuleId) : Nat → Text
  | 0, _, _ => []
  | fuel + 1, env, c =>
    match choose rule env c with
    | (.ok (some p), d) =>
      patternText matchRule ruleText p env d ++
        repetitionText rule fuel env (matchPattern matchRule p env d).2
    | _ => []

/-- The text of one of the alternatives of a rule, or of several if it is repeatable. -/
def alternativesText (fuel : Nat) (rule : RuleId) : Text := fun env c =>
  if (env.grammar.rule rule).repeatable then repetitionText matchRule ruleText rule fuel env c
  else
    match choose rule env c with
    | (.ok (some p), d) => patternText matchRule ruleText p env d
    | _ => []

end

/-- The text of a rule. -/
def ruleText : Nat → RuleId → Text
  | 0, _, _, _ => []
  | fuel + 1, rule, env, c =>
    alternativesText (matchRule fuel) (ruleText fuel) fuel rule env { c with depth := c.depth + 1 }

/-- The text of a whole plan. -/
def planText : Text := fun env c =>
  match env.grammar.ruleId? "project" with
  | some id => ruleText ampleFuel id env c
  | none => []

end Planfile.Matcher

namespace Planfile

open TokenSource (Reads nextOf)

theorem Context.Alike.sound {t : GrammarTable} {c d : Context} (h : c.Alike d) (hc : c.Sound t) :
    d.Sound t := by
  obtain ⟨_, _, _, _, _⟩ := h
  exact ⟨hc.extensions, hc.target⟩

namespace Matcher

/-- Whether what stands behind a text is what stood there before, or else a token behind statements
as before. The latter is enough only for a text that ends a statement. -/
def Follows (ends : Prop) (c : Context) (behind : List Token) : Prop :=
  nextOf behind = c.tokens.peek ∨ ends ∧ c.tokens.peek.Closes ∧ (nextOf behind).Closes

/-- What stands behind a first text is the text behind it, if there is any. -/
theorem Follows.before {ends first : Prop} {c d : Context} {text behind : List Token}
    (h : Follows ends d behind) (read : Reads c.tokens text d.tokens)
    (empty : text = [] → ends → first) : Follows first c (text ++ behind) := by
  cases text with
  | nil =>
    have same := read.eq_of_nil
    rw [List.nil_append, Follows, ← same]
    exact h.imp_right fun ⟨atEnd, closes⟩ => ⟨empty rfl atEnd, closes⟩
  | cons token text => exact .inl read.peek.symm

/-- Whether a computation reads its text, and another one comes to its end wherever the text is
ahead: it gives what is asked of both, leaves a state like that of the first one, and leaves ahead
what stands behind the text. -/
def Replays (t : GrammarTable) (ends : Prop) (R : α → β → Prop) (m : Matcher α) (n : Matcher β)
    (text : Text) : Prop :=
  ∀ env c a c', env.grammar = t → c.Sound t → m env c = (.ok a, c') →
    Reads c.tokens (text env c) c'.tokens ∧
      ∀ env' d behind, env'.grammar = t → c.Alike d → d.tokens.Ahead (text env c ++ behind) →
        Follows ends c' behind →
        ∃ b d', n env' d = (.ok b, d') ∧ R a b ∧ c'.Alike d' ∧ d'.tokens.Ahead behind

section
variable {t : GrammarTable} {ends : Prop} {R : α → β → Prop} {S : γ → δ → Prop}

/-- What reads no token does the same in front of any text. -/
theorem Agree.replays {m : Matcher α} {n : Matcher β} (h : Agree R m n) :
    Replays t ends R m n fun _ _ => [] := by
  intro env c a c' he hc run
  refine ⟨?_, fun env' d behind he' alike ahead _ => ?_⟩
  · obtain ⟨_, _, _, _, _, same, _⟩ := h env env c c a c' rfl (.refl c) run
    rw [same]
    exact .done _
  · obtain ⟨b, d', run', related, alike', _, same⟩ :=
      h env env' c d a c' (he'.trans he.symm) alike run
    exact ⟨b, d', run', related, alike', same ▸ ahead⟩

theorem replays_get {f : Context → Matcher γ} {g : Context → Matcher δ} {text : Text}
    (h : ∀ c d, c.Alike d → Replays t ends S (f c) (g d) text) :
    Replays t ends S (get >>= f) (get >>= g) text := by
  intro env c a c' he hc run
  rw [run_bind] at run
  refine ⟨(h c c (.refl c) env c a c' he hc run).1, fun env' d behind he' alike ahead follows => ?_⟩
  rw [run_bind]
  exact (h c d alike env c a c' he hc run).2 env' d behind he' alike ahead follows

/-- A text is read, and then something happens. -/
theorem Replays.andAgree {m : Matcher α} {n : Matcher β} {f : α → Matcher γ} {g : β → Matcher δ}
    {text : Text} (hm : Replays t ends R m n text) (related : ∀ a, ∃ b, R a b)
    (hf : ∀ a b, R a b → Agree S (f a) (g b)) : Replays t ends S (m >>= f) (n >>= g) text := by
  intro env c x c' he hc run
  obtain ⟨a, e, first, second⟩ := exists_of_run_bind run
  obtain ⟨reads, again⟩ := hm env c a e he hc first
  -- what happens then reads nothing, so the next token is the one behind the text
  obtain ⟨b, hb⟩ := related a
  obtain ⟨_, _, _, _, _, kept, _⟩ := hf a b hb env env e e x c' rfl (.refl e) second
  refine ⟨kept ▸ reads, fun env' d behind he' alike ahead follows => ?_⟩
  rw [Follows, kept] at follows
  obtain ⟨b, d₁, first', hb, alike, ahead⟩ := again env' d behind he' alike ahead follows
  obtain ⟨y, d₂, second', given, alike, _, still⟩ :=
    hf a b hb env env' e d₁ x c' (he'.trans he.symm) alike second
  refine ⟨y, d₂, ?_, given, alike, still ▸ ahead⟩
  rw [run_bind, first']
  exact second'

/-- What is asked of the tokens behind may be more. -/
theorem Replays.strengthen {more : Prop} {m : Matcher α} {n : Matcher β} {text : Text}
    (hm : Replays t ends R m n text) (h : more → ends) : Replays t more R m n text := by
  intro env c a c' he hc run
  obtain ⟨reads, again⟩ := hm env c a c' he hc run
  refine ⟨reads, fun env' d behind he' alike ahead follows => ?_⟩
  exact again env' d behind he' alike ahead
    (follows.imp_right fun ⟨atEnd, closes⟩ => ⟨h atEnd, closes⟩)

theorem Replays.map {m : Matcher α} {n : Matcher β} {f : α → γ} {g : β → δ} {text : Text}
    (hm : Replays t ends R m n text) (hf : ∀ a b, R a b → S (f a) (g b)) :
    Replays t ends S (f <$> m) (g <$> n) text := by
  intro env c x c' he hc run
  obtain ⟨a, given, rfl⟩ := exists_of_run_map run
  obtain ⟨reads, again⟩ := hm env c a c' he hc given
  refine ⟨reads, fun env' d behind he' alike ahead follows => ?_⟩
  obtain ⟨b, d', run', hb, alike, ahead⟩ := again env' d behind he' alike ahead follows
  refine ⟨g b, d', ?_, hf a b hb, alike, ahead⟩
  rw [run_map, run']

/-- One text is read behind another. What stands behind the first one is the second one, or else, if
the second one is empty, what stands behind both. -/
theorem Replays.bind {first : Prop} {mid : α → Prop} {m : Matcher α} {n : Matcher β}
    {f : α → Matcher γ} {g : β → Matcher δ} {text text' : Text} (hm : Replays t first R m n text)
    (sound : Yields t mid m) (hf : ∀ a b, R a b → Replays t ends S (f a) (g b) text')
    (related : ∀ a, ∃ b, R a b)
    (empty : ∀ env c, text' env c = [] → ends → first) :
    Replays t ends S (m >>= f) (n >>= g) fun env c => text env c ++ text' env (m env c).2 := by
  intro env c x c' he hc run
  obtain ⟨a, e, one, two⟩ := exists_of_run_bind run
  obtain ⟨-, he', -⟩ := sound.of_ok he hc one
  obtain ⟨reads, again⟩ := hm env c a e he hc one
  obtain ⟨b, hb⟩ := related a
  obtain ⟨reads', -⟩ := hf a b hb env e x c' he he' two
  simp only [one]
  refine ⟨reads.append reads', fun env' d behind same alike ahead follows => ?_⟩
  -- behind the first text stands the second one, and then what stands behind both
  rw [List.append_assoc] at ahead
  obtain ⟨b, d₁, one', hb, alike, ahead⟩ :=
    again env' d _ same alike ahead (follows.before reads' (empty env e))
  obtain ⟨-, again'⟩ := hf a b hb env e x c' he he' two
  obtain ⟨y, d₂, two', given, alike, ahead⟩ := again' env' d₁ behind same alike ahead follows
  refine ⟨y, d₂, ?_, given, alike, ahead⟩
  rw [run_bind, one']
  exact two'

end


/-! ## Symbols -/

/-- The value of a matched symbol without the places of expressions. -/
def forgetMatched (item : MatchedValue) : Option Value := item.value?.map Value.forget

/-- Patterns have values that are alike if their symbols have. -/
theorem alike_of_forgetMatched {items items' : List MatchedValue} (location location' : Location)
    (h : items'.map forgetMatched = items.map forgetMatched) :
    Values.Alike ⟨items, location⟩ ⟨items', location'⟩ := by
  have value (items : List MatchedValue) (location : Location) (i : Nat) :
      ((Values.mk items location).value? i).map Value.forget =
        ((items.map forgetMatched)[i]?).join := by
    rw [List.getElem?_map, Values.value?, Values.get?]
    cases items[i]? <;> rfl
  intro i
  rw [Value.Alike, value, value, h]

section
variable {t : GrammarTable} {o : Outline} {ofRule : RuleId → Shape}
  {matchRule : RuleId → Matcher (Option Value)} {text : RuleId → Text}

/-- Whether rules that have nothing to do with including files are replayed. -/
def RulesReplay (t : GrammarTable) (o : Outline) (matchRule : RuleId → Matcher (Option Value))
    (text : RuleId → Text) : Prop :=
  ∀ id, o.isFree id = true →
    Replays t (∃ room, t.endsClosed room id = true) Value.Alike (matchRule id) (matchRule id)
      (text id)

/-- A terminal reads one token, and what stands behind does not matter. -/
theorem replays_terminal {ends : Prop} {s : Symbol} {a : Terminal} (hs : s.terminal? = some a) :
    Replays t ends (fun x y => forgetMatched y = forgetMatched x) (matchSymbol matchRule s)
      (matchSymbol matchRule s) fun _ c => [c.tokens.peek] := by
  intro env c item c' he hc run
  obtain ⟨fits, rfl, rfl⟩ := eq_of_run_terminal matchRule hs run
  -- the token that fits is read, and it is the first of those ahead in the other state
  obtain ⟨token, same, advanced⟩ := advance_of_isEof (Terminal.isEof_of_accepts fits)
  have reads := Reads.single advanced
  rw [same] at reads
  refine ⟨reads, fun env' d behind _ alike ahead _ => ?_⟩
  have next : d.tokens.peek = c.tokens.peek := ahead.peek
  refine ⟨_, _, run_matchSymbol_of_accepts matchRule hs env' (next ▸ fits), by rw [next], ?_, ?_⟩
  · exact (alike.changed _ _ c.stop).of_changed _ _ d.stop
  · exact TokenSource.Ahead.next ahead

/-- A symbol that has nothing to do with including files is replayed. -/
theorem replays_matchSymbol (h : RulesReplay t o matchRule text) {s : Symbol}
    (free : ∀ id, s = .rule id → o.isFree id = true) :
    Replays t (∀ id, s = .rule id → ∃ room, t.endsClosed room id = true)
      (fun x y => forgetMatched y = forgetMatched x) (matchSymbol matchRule s)
      (matchSymbol matchRule s) (symbolText text s) := by
  cases s with
  | literal word => exact replays_terminal rfl
  | tokenClass c => exact replays_terminal rfl
  | rule id =>
    have rule := (h id (free id rfl)).map (S := fun x y => forgetMatched y = forgetMatched x)
      (f := MatchedValue.rule) (g := MatchedValue.rule) fun _ _ same => same
    exact rule.strengthen fun all => all id rfl

theorem isRule_of_symbolsText {symbols : List Symbol} {env : Surroundings} {c : Context}
    (h : symbolsText matchRule text symbols env c = []) : symbols.all Symbol.isRule = true := by
  induction symbols generalizing c with
  | nil => rfl
  | cons s rest ih =>
    rw [symbolsText, List.append_eq_nil_iff] at h
    rw [List.all_cons, ih h.2, Bool.and_true]
    cases s with
    | rule id => rfl
    | literal word => cases h.1
    | tokenClass k => cases h.1

/-- Symbols that have nothing to do with including files are replayed. -/
theorem replays_matchSymbols (hm : Matched t ofRule matchRule)
    (h : RulesReplay t o matchRule text) {symbols : List Symbol}
    (free : ∀ id, .rule id ∈ symbols → o.isFree id = true) :
    Replays t (t.EndsClosed symbols) (fun xs ys => ys.map forgetMatched = xs.map forgetMatched)
      (matchSymbols matchRule symbols) (matchSymbols matchRule symbols)
      (symbolsText matchRule text symbols) := by
  induction symbols with
  | nil =>
    refine Agree.replays (agree_pure ?_)
    rfl
  | cons s rest ih =>
    have first := replays_matchSymbol h fun id same => free id (same ▸ List.mem_cons_self)
    have others := ih fun id mem => free id (List.mem_cons_of_mem _ mem)
    -- the last rule may only be followed by another token if no terminal is behind it
    refine first.bind (yields_matchSymbol hm s) (fun item item' same => ?_) (fun item => ⟨item, rfl⟩)
      fun env c nothing closed id isRule => ?_
    · refine (others.strengthen GrammarTable.EndsClosed.tail).map fun items items' alike => ?_
      rw [List.map_cons, List.map_cons, same, alike]
    · subst isRule
      exact closed.head (isRule_of_symbolsText nothing)

/-! ## Patterns -/

/-- A pattern that has nothing to do with including files is replayed. -/
theorem replays_matchPattern (hm : Matched t ofRule matchRule)
    (h : RulesReplay t o matchRule text) {p : Pattern} (free : o.isFreePattern p = true) :
    Replays t (t.EndsClosed p.symbols) Value.Alike (matchPattern matchRule p)
      (matchPattern matchRule p) (patternText matchRule text p) := by
  simp only [Outline.isFreePattern, Bool.and_eq_true, List.all_eq_true] at free
  obtain ⟨statement, rules⟩ := free
  have symbols := replays_matchSymbols hm h fun id mem => rules (.rule id) mem
  have same : patternText matchRule text p = symbolsText matchRule text p.symbols := by
    unfold patternText
    split
    · next action => simp [action, Action.isStatement] at statement
    · rfl
  rw [same]
  -- the place of the pattern is looked at, but no action of a statement depends on it
  refine replays_get fun c d _ => ?_
  refine symbols.andAgree (fun items => ⟨items, rfl⟩) fun items items' alike => ?_
  cases ha : p.action with
  | none => exact agree_pure rfl
  | some action =>
    rw [ha] at statement
    exact agree_perform (alike_of_forgetMatched _ _ alike) statement matchRule _ _

/-- The same next token makes the same choice. -/
theorem run_choose_alike (ht : t.Extensible) {env env' : Surroundings} {c d e : Context}
    (he : env.grammar = t) (he' : env'.grammar = t) (hc : c.Sound t) (alike : c.Alike d)
    (next : d.tokens.peek = c.tokens.peek) {id : RuleId} {chosen : Option Pattern}
    (run : choose id env c = (.ok chosen, e)) :
    ∃ journal, choose id env' d = (.ok chosen, { d with journal }) := by
  obtain ⟨found, answer⟩ := LiveGrammar.candidates_of_startsWithin hc.addsKeywords (ht.chains id)
    c.tokens.peek
  have same : (LiveGrammar.mk env.grammar c.extensions).candidates id c.tokens.peek = .ok found :=
    he ▸ answer
  obtain ⟨_, first⟩ := run_choose same
  rw [← next, ← alike.extensions, ← he'] at answer
  obtain ⟨journal, second⟩ := run_choose answer
  cases first.symm.trans run
  exact ⟨journal, second⟩

/-- Where a token stands behind a statement, nothing is chosen that starts inside one. -/
theorem run_choose_of_inner (ht : t.Extensible) {env : Surroundings} {c : Context}
    (he : env.grammar = t) (hc : c.Sound t) (closes : c.tokens.peek.Closes) {id : RuleId}
    {room : Nat} (inner : t.startsOnly Terminal.isInner room (.rule id) = true) :
    ∃ journal, choose id env c = (.ok none, { c with journal }) := by
  obtain ⟨chosen, journal, run, one⟩ := exists_of_choose ht he hc id
  cases chosen with
  | none => exact ⟨journal, run⟩
  | some p =>
    obtain ⟨mem, accepts⟩ := one p rfl
    exact absurd accepts (GrammarTable.not_accepts_of_inner hc closes inner mem)

/-! ## Rules -/

/-- Where a rule that need not match chooses nothing, it chooses nothing again. -/
theorem run_choose_none_alike (ht : t.Extensible) {env env' : Surroundings} {c d e : Context}
    (he : env.grammar = t) (he' : env'.grammar = t) (hc : c.Sound t) (alike : c.Alike d)
    {id : RuleId} (mayStop : (t.rule id).optional = true ∨ (t.rule id).repeatable = true)
    (run : choose id env c = (.ok none, e)) {behind : List Token} (ahead : d.tokens.Ahead behind)
    (follows : Follows (∃ room, t.endsClosed room id = true) c behind) :
    ∃ journal, choose id env' d = (.ok none, { d with journal }) := by
  rcases follows with same | ⟨⟨room, closed⟩, -, closes⟩
  · -- the same token is ahead
    exact run_choose_alike ht he he' hc alike (ahead.peek.trans same) run
  · -- another one is, but the rule starts with neither of them
    rw [← ahead.peek] at closes
    exact run_choose_of_inner ht he' (alike.sound hc) closes
      (GrammarTable.startsInner_of_endsClosed closed mayStop)

/-- Where a rule chooses an alternative that has nothing to do with including files, and it matches,
the same one is chosen again, and matches and reads something again. -/
theorem replays_chosen (ht : t.Typed ofRule) (hm : Matched t ofRule matchRule)
    (h : RulesReplay t o matchRule text) {env : Surroundings} {c e c' : Context}
    (he : env.grammar = t) (hc : c.Sound t) {id : RuleId} {p : Pattern}
    (chosen : choose id env c = (.ok (some p), e)) (free : o.isFreePattern p = true)
    {v : Option Value} (run : matchPattern matchRule p env e = (.ok v, c')) :
    Reads c.tokens (patternText matchRule text p env e) c'.tokens ∧
      ∀ behind, nextOf (patternText matchRule text p env e ++ behind) = c.tokens.peek ∧
        ∀ env' d, env'.grammar = t → c.Alike d →
          d.tokens.Ahead (patternText matchRule text p env e ++ behind) →
          Follows (t.EndsClosed p.symbols) c' behind →
          ∃ e' w d', choose id env' d = (.ok (some p), e') ∧
            matchPattern matchRule p env' e' = (.ok w, d') ∧
            e'.tokens.consumed < d'.tokens.consumed ∧
            Value.Alike v w ∧ c'.Alike d' ∧ d'.tokens.Ahead behind := by
  obtain ⟨_, journal, same, one⟩ := exists_of_choose ht.extensible he hc id
  cases same.symm.trans chosen
  have sound : ({ c with journal } : Context).Sound t := ⟨hc.extensions, hc.target⟩
  -- something is read, so the text begins with the next token, and that one chooses
  have strict : c.tokens.consumed < c'.tokens.consumed := hm.reads chosen run
  obtain ⟨reads, again⟩ := replays_matchPattern hm h free env _ v c' he sound run
  have first := reads.nextOf_append strict
  refine ⟨reads, fun behind => ⟨first behind, fun env' d he' alike ahead follows => ?_⟩⟩
  have next : d.tokens.peek = c.tokens.peek := ahead.peek.trans (first behind)
  obtain ⟨journal', chosen'⟩ := run_choose_alike ht.extensible he he' hc alike next chosen
  have alike' : ({ c with journal } : Context).Alike { d with journal := journal' } :=
    (alike.changed c.tokens journal c.stop).of_changed d.tokens journal' d.stop
  obtain ⟨w, d', run', related, alikeAfter, aheadAfter⟩ :=
    again env' { d with journal := journal' } behind he' alike' ahead follows
  -- the alternative is chosen in the other state as well, so it reads something there
  have strict' : d.tokens.consumed < d'.tokens.consumed := hm.reads chosen' run'
  exact ⟨_, w, d', chosen', run', strict', related, alikeAfter, aheadAfter⟩

/-- Where a repetition has come to its end it may do so, and nothing but the mark has changed. -/
theorem eq_of_endRepetition {id : RuleId} {mayStop : Bool} {values all : List Value}
    {env : Surroundings} {c d : Context}
    (run : endRepetition id mayStop values env c = (.ok all, d)) :
    mayStop = true ∧ all = values ∧ d = { c with stop := some ⟨c.tokens.consumed, id⟩ } := by
  cases mayStop with
  | true =>
    cases run
    exact ⟨rfl, rfl, rfl⟩
  | false => cases run

/-- A repetition that has nothing to do with including files is replayed. -/
theorem replays_matchRepeatedly (ht : t.Typed ofRule) (ho : t.Fits o)
    (hm : Matched t ofRule matchRule) (h : RulesReplay t o matchRule text) {id : RuleId}
    (free : o.isFree id = true) (repeatable : (t.rule id).repeatable = true) (mayStop : Bool)
    (fuel : Nat) {values values' : List Value}
    (alike : values'.map Value.forget = values.map Value.forget) :
    Replays t (∃ room, t.endsClosed room id = true)
      (fun vs ws => ws.map Value.forget = vs.map Value.forget)
      (matchRepeatedly matchRule id mayStop fuel values)
      (matchRepeatedly matchRule id mayStop fuel values')
      (repetitionText matchRule text id fuel) := by
  -- by induction on the number of times that the rule may still be repeated
  induction fuel generalizing mayStop values values' with
  | zero =>
    intro env c all c' _ _ run
    cases run
  | succ fuel ih =>
    intro env c all c' he hc run
    obtain ⟨chosen, journal, choice, one⟩ := exists_of_choose ht.extensible he hc id
    rw [repetitionText, choice]
    cases chosen with
    | none =>
      rw [run_matchRepeatedly_of_none choice] at run
      obtain ⟨rfl, rfl, rfl⟩ := eq_of_endRepetition run
      refine ⟨.done _, fun env' d behind he' states ahead follows => ?_⟩
      obtain ⟨journal', choice'⟩ := run_choose_none_alike ht.extensible he he' hc states
        (.inr repeatable) choice ahead follows
      refine ⟨values', _, run_matchRepeatedly_of_none choice' true fuel values', alike, ?_, ahead⟩
      exact (states.changed _ _ _).of_changed _ _ _
    | some p =>
      rw [run_matchRepeatedly_of_some choice] at run
      cases hr : matchPattern matchRule p env { c with journal } with
      | mk outcome e =>
        rw [hr] at run
        cases outcome with
        | error stop => cases run
        | ok v =>
          -- the alternative has read something, so the repetition has gone on
          obtain ⟨mem, -⟩ := one p rfl
          have typed := ht.typed_of_mem_patterns hc mem
          have chosen : ({ c with journal } : Context).Sound t := ⟨hc.extensions, hc.target⟩
          have strict : c.tokens.consumed < e.tokens.consumed := hm.reads choice hr
          obtain ⟨-, sound, -⟩ := (yields_matchPattern ht.extensible hm typed).of_ok he chosen hr
          obtain ⟨reads, again⟩ := replays_chosen ht hm h he hc choice
            (ho.isFreePattern_of_mem ht.extensible hc free mem) hr
          dsimp only at run
          rw [if_neg (Nat.ne_of_gt strict)] at run
          obtain ⟨others, -⟩ := @ih true (v.toList ++ values) _ rfl env e all c' he sound run
          simp only [hr]
          refine ⟨reads.append others, fun env' d behind he' states ahead follows => ?_⟩
          rw [List.append_assoc] at ahead
          -- once more, the same alternative in front of the rest of the repetition
          obtain ⟨e', w, d₁, choice', run', strict', same, states', ahead'⟩ :=
            (again _).2 env' d he' states ahead (follows.before others fun _ ⟨_, closed⟩ =>
              GrammarTable.endsClosed_of_mem hc closed mem)
          have collected :
              (w.toList ++ values').map Value.forget = (v.toList ++ values).map Value.forget := by
            rw [List.map_append, List.map_append, alike, ← Option.toList_map, same,
              Option.toList_map]
          obtain ⟨-, goOn⟩ := ih true collected env e all c' he sound run
          obtain ⟨ws, d₂, rest, result⟩ := goOn env' d₁ behind he' states' ahead' follows
          refine ⟨ws, d₂, ?_, result⟩
          rw [run_matchRepeatedly_of_some choice', run']
          dsimp only
          rw [if_neg (Nat.ne_of_gt strict'), rest]

theorem alike_collected (vs ws : List Value) (h : ws.map Value.forget = vs.map Value.forget) :
    Value.Alike (collected vs) (collected ws) := by
  have length := congrArg List.length h
  rw [List.length_map, List.length_map] at length
  unfold collected
  cases vs with
  | nil => rw [List.length_eq_zero_iff.mp length]
  | cons v vs =>
    cases ws with
    | nil => cases length
    | cons w ws =>
      have items : (w :: ws).reverse.map Value.forget = (v :: vs).reverse.map Value.forget := by
        rw [List.map_reverse, List.map_reverse, h]
      simp only [Value.Alike, List.isEmpty_cons, Bool.false_eq_true, if_false, Option.map_some,
        Value.forget, Value.forgetAll_eq_map, items]

/-- The alternatives of a rule that has nothing to do with including files are replayed. -/
theorem replays_matchAlternatives (ht : t.Typed ofRule) (ho : t.Fits o)
    (hm : Matched t ofRule matchRule) (h : RulesReplay t o matchRule text) {id : RuleId}
    (free : o.isFree id = true) (fuel : Nat) :
    Replays t (∃ room, t.endsClosed room id = true) Value.Alike
      (matchAlternatives matchRule fuel id) (matchAlternatives matchRule fuel id)
      (alternativesText matchRule text fuel id) := by
  intro env c v c' he hc run
  unfold alternativesText
  rw [he]
  cases repeatable : (t.rule id).repeatable with
  | true =>
    rw [run_matchAlternatives_of_repeatable (he ▸ repeatable), he] at run
    rw [if_pos rfl]
    have repetition := (replays_matchRepeatedly ht ho hm h free repeatable (t.rule id).optional fuel
      (rfl : ([] : List Value).map Value.forget = [].map Value.forget)).map
      (S := Value.Alike) (f := collected) (g := collected) alike_collected
    obtain ⟨reads, again⟩ := repetition env c v c' he hc run
    refine ⟨reads, fun env' d behind he' states ahead follows => ?_⟩
    rw [run_matchAlternatives_of_repeatable (he' ▸ repeatable), he']
    exact again env' d behind he' states ahead follows
  | false =>
    rw [run_matchAlternatives_of_single (he ▸ repeatable)] at run
    rw [if_neg Bool.false_ne_true]
    obtain ⟨chosen, journal, choice, one⟩ := exists_of_choose ht.extensible he hc id
    rw [choice] at run ⊢
    cases chosen with
    | some p =>
      -- what comes behind the rule comes behind the alternative, which is chosen again
      obtain ⟨mem, -⟩ := one p rfl
      obtain ⟨reads, again⟩ := replays_chosen ht hm h he hc choice
        (ho.isFreePattern_of_mem ht.extensible hc free mem) run
      refine ⟨reads, fun env' d behind he' states ahead follows => ?_⟩
      obtain ⟨e', w, d', choice', run', -, result⟩ := (again behind).2 env' d he' states ahead
        (follows.imp_right fun ⟨⟨_, closed⟩, closes⟩ =>
          ⟨GrammarTable.endsClosed_of_mem hc closed mem, closes⟩)
      refine ⟨w, d', ?_, result⟩
      rw [run_matchAlternatives_of_single (he' ▸ repeatable), choice']
      exact run'
    | none =>
      dsimp only at run
      cases optional : (env.grammar.rule id).optional with
      | false =>
        rw [optional, if_neg Bool.false_ne_true] at run
        cases run
      | true =>
        rw [optional, if_pos rfl] at run
        cases run
        -- nothing is read, so what follows decides, and in front of it nothing is chosen again
        refine ⟨.done _, fun env' d behind he' states ahead follows => ?_⟩
        obtain ⟨journal', choice'⟩ := run_choose_none_alike ht.extensible he he' hc states
          (.inl (he ▸ optional)) choice ahead follows
        refine ⟨none, { d with journal := journal' }, ?_, rfl, ?_, ahead⟩
        · rw [run_matchAlternatives_of_single (he' ▸ repeatable), choice']
          dsimp only
          rw [he', if_pos (he ▸ optional)]
          rfl
        · exact (states.changed _ _ _).of_changed _ _ d.stop

end

/-- Where its alternatives come to their end, and the states are alike, a rule does as well. -/
theorem run_matchRule_alike {fuel : Nat} {id : RuleId} {env : Surroundings} {c d e d' : Context}
    {v : Option Value} (shallow : c.depth < Limits.parseDepth) (alike : c.Alike d)
    (run : matchAlternatives (matchRule fuel) fuel id env { d with depth := c.depth + 1 } =
      (.ok v, d'))
    (alike' : e.Alike d') :
    matchRule (fuel + 1) id env d = (.ok v, { d' with depth := e.depth - 1 }) := by
  rw [run_matchRule fuel (alike.depth ▸ shallow), alike.depth, run]
  exact congrArg (fun n => (_, { d' with depth := n - 1 })) alike'.depth

/-- Rules that have nothing to do with including files are replayed, however deep they nest. -/
theorem replays_matchRule {t : GrammarTable} {o : Outline} {ofRule : RuleId → Shape}
    (ht : t.Typed ofRule) (ho : t.Fits o) (fuel : Nat) :
    RulesReplay t o (matchRule fuel) (ruleText fuel) := by
  -- by induction on how deep rules may still nest; the rules below are replayed
  induction fuel with
  | zero =>
    intro id _ env c v c' _ _ run
    cases run
  | succ fuel ih =>
    intro id free env c v c' he hc run
    obtain ⟨shallow, e, alternatives, rfl⟩ := exists_of_run_matchRule run
    have deeper : ({ c with depth := c.depth + 1 } : Context).Sound t := ⟨hc.extensions, hc.target⟩
    obtain ⟨reads, again⟩ := replays_matchAlternatives ht ho (matched_matchRule ht fuel) ih free
      fuel env _ v e he deeper alternatives
    refine ⟨reads, fun env' d behind he' states ahead follows => ?_⟩
    obtain ⟨w, d', run', related, states', ahead'⟩ :=
      again env' { d with depth := c.depth + 1 } behind he' (states.withDepth _) ahead follows
    exact ⟨w, _, run_matchRule_alike shallow states run' states', related, states'.withDepth _,
      ahead'⟩

end Matcher

end Planfile
