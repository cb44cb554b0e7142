import Planfile.Proofs.Schema.Language
import Planfile.Proofs.Typing.Soundness

/-!
# Planfile — how a part of a plan has been matched

Rules have shapes and effects, and what both say is true wherever a part of a plan has been matched: the
values are those that actions take, and the place is the one where the next statement can stand. This is
said step by step, of symbols, of choices and of alternatives, down to the point where an action is
performed. There it is known that the action can be performed in this place.

When a rule has come to its end, its way there is a tree: the rule has been repeated or one of its
alternatives has been chosen, the symbols of an alternative have been matched one after the other, and
then its action has been performed. `Course` has one constructor for each kind of node. What holds of
every matched part is proved by induction on it, with no regard to how deep rules nest, to faults or to
how a choice is made.

Main results:

* `Matcher.grounded_symbols`, `Matcher.grounded_choice`, `Matcher.grounded_pattern` — the steps.
* `Context.Grounded.exists_effectAlong` — where an alternative can stand its symbols can, and behind them
  its action.
* `Course.of_run` — where a rule has come to its end, there is a tree of how.
-/

namespace Planfile

/-! ## Steps -/

/-- Whether the rules of a grammar have some shapes and some effects. -/
structure GrammarTable.Charted (t : GrammarTable) (ofRule : RuleId → Shape) (effects : Effects) :
    Prop where
  typed : t.Typed ofRule
  follows : t.Follows effects

namespace Context

/-- Whether what a plan has added to the grammar can be read, and the project conforms to its schemas. -/
structure Grounded (t : GrammarTable) (effects : Effects) (c : Context) : Prop where
  sound : c.Sound t
  conforming : c.Conforming effects

/-- Whether an action can be performed in a state: to go back from a body, to do what it does in the
place, or to store an attribute that the plan has added. -/
def Allows (c : Context) (a : Action) : Prop :=
  a = .property .close ∨ (∃ e, a.effect? c.place = some e ∧ e.Ready c) ∨
    ∃ id kind specific, a = .extend (.store id kind specific)

variable {t : GrammarTable} {effects : Effects} {c x : Context}

/-- A project can be started only once. -/
theorem Allows.unstarted (h : c.Allows (.project .header)) : c.project = none := by
  rcases h with closing | ⟨e, effect, ready⟩ | ⟨id, kind, specific, storing⟩
  · cases closing
  · cases effect
    exact ready rfl
  · cases storing

/-- Actions do not match rules themselves. -/
theorem Allows.not_rule {name : String} (h : c.Allows (.rule name)) : False := by
  rcases h with closing | ⟨e, effect, -⟩ | ⟨id, kind, specific, storing⟩
  · cases closing
  · cases effect
  · cases storing

theorem Allows.ne_rule {a : Action} (h : c.Allows a) (name : String) : a ≠ .rule name := by
  rintro rfl
  exact h.not_rule

namespace Grounded

/-- The tokens ahead, the journal and the depth are no part of what is known. -/
theorem of_noise (h : c.Grounded t effects) (tokens : TokenSource) (journal : Log.Journal)
    (depth : Nat) (stop : Option StopMark) :
    ({ c with tokens, journal, depth, stop } : Context).Grounded t effects ∧
      Onward c { c with tokens, journal, depth, stop } := by
  obtain ⟨conforms, onward⟩ := h.conforming.of_same
    (d := { c with tokens, journal, depth, stop }) rfl rfl rfl rfl
  exact ⟨⟨⟨h.sound.extensions, h.sound.target⟩, conforms⟩, onward⟩

/-- Where an alternative can stand its symbols can, and where they lead its action can be performed. -/
theorem exists_effectAlong (ht : t.Follows effects) (hc : c.Grounded t effects) {id : RuleId}
    {p : Pattern} (mem : p ∈ (LiveGrammar.mk t c.extensions).patterns id) {e : Effect}
    (h : effects id c.place = some e) (ready : e.Ready c) :
    ∃ f, effectAlong? effects c.place p.symbols = some f ∧ f.Ready c ∧
      ∀ x, f.Leads c x → ∀ a, p.action = some a → x.Allows a := by
  rcases List.mem_append.mp mem with declared | added
  · have own := ht.patterns id c.place e h p declared
    obtain ⟨f, along, rest⟩ := Option.bind_eq_some_iff.mp own
    cases action : p.action with
    | none =>
      rw [action] at rest
      cases rest
      exact ⟨e, along, ready, fun x _ a ha => by cases ha⟩
    | some a =>
      rw [action] at rest
      dsimp only at rest
      rw [Action.endOf?] at rest
      split at rest
      · next closing =>
        refine ⟨f, along, Effect.ready_of_back rest, fun x _ a ha => ?_⟩
        cases ha
        exact .inl closing
      · obtain ⟨g, own, joined⟩ := Option.bind_eq_some_iff.mp rest
        refine ⟨f, along, Effect.ready_of_andThen joined ready, fun x leads a ha => ?_⟩
        cases ha
        -- the action stands where the symbols lead
        rw [← Effect.place_of_leads leads] at own
        exact .inr (.inl ⟨g, own, Effect.ready_behind joined ready leads⟩)
  · obtain ⟨⟨other, q⟩, mine, rfl⟩ := List.mem_map.mp added
    obtain ⟨listed, named⟩ := List.mem_filter.mp mine
    obtain rfl : other = id := beq_iff_eq.mp named
    obtain ⟨-, -, kind, name, valueKind, specific, action, -, -, onlyIn, symbols⟩ :=
      hc.conforming.extensions (other, q) listed
    obtain ⟨place, -⟩ := onlyIn c.place e h
    have first : effectAlong? effects c.place q.symbols = some .stay := by
      rw [place]
      exact symbols
    have ready : Effect.stay.Ready c := fun start => by cases start
    refine ⟨.stay, first, ready, fun x _ a ha => ?_⟩
    rw [action] at ha
    cases ha
    exact .inr (.inr ⟨name, valueKind, specific, rfl⟩)

end Grounded

end Context

namespace Matcher

section
variable {t : GrammarTable} {ofRule : RuleId → Shape} {effects : Effects} {fuel : Nat}
  {env : Surroundings} {c d : Context} {e : Effect}

/-- Where a symbol has been matched, the state is grounded and is where the effect of the symbol says. -/
theorem grounded_symbol (ht : t.Charted ofRule effects) (he : env.grammar = t)
    (hc : c.Grounded t effects) {s : Symbol} (h : s.effect? effects c.place = some e)
    (ready : e.Ready c) {item : MatchedValue}
    (run : matchSymbol (matchRule fuel) s env c = (.ok item, d)) :
    d.Grounded t effects ∧ e.Leads c d := by
  obtain ⟨conforms, leads⟩ := leads_matchSymbol (led_matchRule ht.follows fuel) h env c item d he
    hc.conforming rfl ready run
  obtain ⟨-, sound, -⟩ :=
    (yields_matchSymbol (matched_matchRule ht.typed fuel) s).of_ok he hc.sound run
  exact ⟨⟨sound, conforms⟩, leads⟩

/-- So it is behind several symbols, and their values have the shapes of the symbols. -/
theorem grounded_symbols (ht : t.Charted ofRule effects) (he : env.grammar = t)
    (hc : c.Grounded t effects) {symbols : List Symbol}
    (h : effectAlong? effects c.place symbols = some e) (ready : e.Ready c)
    {items : List MatchedValue} (location : Location)
    (run : matchSymbols (matchRule fuel) symbols env c = (.ok items, d)) :
    d.Grounded t effects ∧ e.Leads c d ∧
      Suits ⟨items, location⟩ (symbols.map (Shape.ofSymbol ofRule)) := by
  obtain ⟨conforms, leads⟩ := leads_matchSymbols (led_matchRule ht.follows fuel) h env c items d he
    hc.conforming rfl ready run
  obtain ⟨suits, sound, -⟩ :=
    (yields_matchSymbols (matched_matchRule ht.typed fuel) location symbols).of_ok he hc.sound run
  exact ⟨⟨sound, conforms⟩, leads, suits⟩

/-- What has been chosen is an alternative of the rule, and nothing else has changed. -/
theorem grounded_choice (he : env.grammar = t) (hc : c.Grounded t effects) {id : RuleId}
    {chosen : Option Pattern} (choice : choose id env c = (.ok chosen, d)) :
    d.Grounded t effects ∧ Onward c d ∧
      ∀ p, chosen = some p → p ∈ (LiveGrammar.mk t d.extensions).patterns id := by
  obtain ⟨⟨journal, rfl⟩, mem⟩ := exists_of_run_choose choice
  obtain ⟨grounded, onward⟩ := hc.of_noise c.tokens journal c.depth c.stop
  exact ⟨grounded, onward, fun p hp => he ▸ mem p hp⟩

/-- Where an alternative of a rule has been matched, the state is where the effect of the rule says. -/
theorem grounded_pattern (ht : t.Charted ofRule effects) (he : env.grammar = t)
    (hc : c.Grounded t effects) {id : RuleId} {p : Pattern}
    (mem : p ∈ (LiveGrammar.mk t c.extensions).patterns id) (h : effects id c.place = some e)
    (ready : e.Ready c) {v : Option Value}
    (run : matchPattern (matchRule fuel) p env c = (.ok v, d)) :
    d.Grounded t effects ∧ e.Leads c d := by
  obtain ⟨conforms, leads⟩ := leads_of_mem ht.follows (led_matchRule ht.follows fuel) he hc.conforming h
    ready mem run
  obtain ⟨-, sound, -⟩ := (yields_matchPattern ht.typed.extensible (matched_matchRule ht.typed fuel)
    (ht.typed.typed_of_mem_patterns hc.sound mem)).of_ok he hc.sound run
  exact ⟨⟨sound, conforms⟩, leads⟩

end

end Matcher

open Matcher

/-! ## Trees -/

/-- A part of a grammar that is matched. -/
inductive Part where
  | rule (id : RuleId)
  /-- A rule again and again; at first it may or may not be absent. -/
  | repetition (id : RuleId) (mayStop : Bool)
  | pattern (p : Pattern)
  | symbols (symbols : List Symbol)

/-- What comes of a part: a value, if there is one, or the values of several parts. -/
abbrev Part.Outcome : Part → Type
  | .rule _ | .pattern _ => Option Value
  | .repetition _ _ => List Value
  | .symbols _ => List MatchedValue

/-- What is known where the action of an alternative is performed: a rule has the alternative, the action
can be performed there, and the values have the shapes of the symbols. -/
structure Prepared (t : GrammarTable) (ofRule : RuleId → Shape) (effects : Effects) (p : Pattern)
    (v : Values) (c : Context) : Prop where
  grounded : c.Grounded t effects
  offered : ∃ id, t.Offers id p
  allows : ∀ a, p.action = some a → c.Allows a
  suits : Suits v (p.symbols.map (Shape.ofSymbol ofRule))

/-- The journal is no part of what is known. -/
theorem Prepared.of_journal {t : GrammarTable} {ofRule : RuleId → Shape} {effects : Effects}
    {p : Pattern} {v : Values} {c : Context} (h : Prepared t ofRule effects p v c)
    (journal : Log.Journal) : Prepared t ofRule effects p v { c with journal } where
  grounded := (h.grounded.of_noise c.tokens journal c.depth c.stop).1
  offered := h.offered
  allows := h.allows
  suits := h.suits

/-- What ends early where an action is performed is the action, which objects. -/
theorem Prepared.objects {env : Surroundings} {ofRule : RuleId → Shape} {effects : Effects} {p : Pattern}
    {v : Values} {c d : Context} (h : Prepared env.grammar ofRule effects p v c)
    {matchRule : RuleId → Matcher (Option Value)} {stop : Stop}
    (run : performed matchRule p v.location v.items env c = (.error stop, d)) :
    ∃ a, p.action = some a ∧ c.Objects (a.Misses c) stop d := by
  rcases cases_of_run_performed run with ⟨-, ⟨⟩, -⟩ | ⟨a, journal, action, acted⟩
  have objects := Action.objects v env { c with journal } (h.allows a action).ne_rule matchRule
  exact ⟨a, action, objects.of_error acted⟩

/-- How matching a part has led from one state to another. -/
inductive Course (ofRule : RuleId → Shape) (effects : Effects) (env : Surroundings) :
    (part : Part) → Context → part.Outcome → Context → Prop
  /-- A repeatable rule gives the list of its values, if there are any. -/
  | repeated {id : RuleId} {c d : Context} {values : List Value}
    (repeatable : (env.grammar.rule id).repeatable = true)
    (course : Course ofRule effects env (.repetition id (env.grammar.rule id).optional)
      { c with depth := c.depth + 1 } values d) :
    Course ofRule effects env (.rule id) c (collected values.reverse) { d with depth := d.depth - 1 }
  | absent {id : RuleId} {c d : Context} (optional : (env.grammar.rule id).optional = true)
    (choice : choose id env { c with depth := c.depth + 1 } = (.ok none, d)) :
    Course ofRule effects env (.rule id) c none { d with depth := d.depth - 1 }
  | once {id : RuleId} {c x d : Context} {p : Pattern} {v : Option Value}
    (choice : choose id env { c with depth := c.depth + 1 } = (.ok (some p), x))
    (offered : env.grammar.Offers id p)
    (course : Course ofRule effects env (.pattern p) x v d) :
    Course ofRule effects env (.rule id) c v { d with depth := d.depth - 1 }
  | stop {id : RuleId} {c d : Context} (choice : choose id env c = (.ok none, d)) :
    Course ofRule effects env (.repetition id true) c []
      { d with stop := some ⟨d.tokens.consumed, id⟩ }
  | next {id : RuleId} {mayStop : Bool} {c x y d : Context} {p : Pattern} {v : Option Value}
    {values : List Value} (choice : choose id env c = (.ok (some p), x))
    (offered : env.grammar.Offers id p)
    (course : Course ofRule effects env (.pattern p) x v y)
    (rest : Course ofRule effects env (.repetition id true) y values d) :
    Course ofRule effects env (.repetition id mayStop) c (v.toList ++ values) d
  | pattern {p : Pattern} {c x d : Context} {items : List MatchedValue} {v : Option Value}
    {matchRule : RuleId → Matcher (Option Value)}
    (course : Course ofRule effects env (.symbols p.symbols) c items x)
    (prepared : Prepared env.grammar ofRule effects p ⟨items, c.tokens.location⟩ x)
    (acted : performed matchRule p c.tokens.location items env x = (.ok v, d)) :
    Course ofRule effects env (.pattern p) c v d
  | nil {c : Context} : Course ofRule effects env (.symbols []) c [] c
  | terminal {s : Symbol} {a : Terminal} {symbols : List Symbol} {c d : Context}
    {items : List MatchedValue} (hs : s.terminal? = some a) (fits : a.accepts c.tokens.peek = true)
    (rest : Course ofRule effects env (.symbols symbols) (c.next env) items d) :
    Course ofRule effects env (.symbols (s :: symbols)) c (a.matched c.tokens.peek :: items) d
  | reference {id : RuleId} {symbols : List Symbol} {c x d : Context} {v : Option Value}
    {items : List MatchedValue} (course : Course ofRule effects env (.rule id) c v x)
    (rest : Course ofRule effects env (.symbols symbols) x items d) :
    Course ofRule effects env (.symbols (.rule id :: symbols)) c (.rule v :: items) d

namespace Course

section
variable {ofRule : RuleId → Shape} {effects : Effects} {env : Surroundings} {fuel : Nat}
  {c d : Context} {e : Effect}

/-- Whether rules that come to their end, with some fuel, do so along a tree. -/
def Traced (ofRule : RuleId → Shape) (effects : Effects) (env : Surroundings) (fuel : Nat) : Prop :=
  ∀ id c v d e, c.Grounded env.grammar effects → effects id c.place = some e → e.Ready c →
    matchRule fuel id env c = (.ok v, d) → Course ofRule effects env (.rule id) c v d

variable (ht : env.grammar.Charted ofRule effects) (hr : Traced ofRule effects env fuel)

include ht hr

omit ht in
/-- A symbol is matched along a tree. -/
theorem of_run_symbol {s : Symbol} (hc : c.Grounded env.grammar effects)
    (h : s.effect? effects c.place = some e) (ready : e.Ready c) {item : MatchedValue}
    (run : matchSymbol (matchRule fuel) s env c = (.ok item, d)) :
    Course ofRule effects env (.symbols [s]) c [item] d := by
  have terminal {a : Terminal} (hs : s.terminal? = some a) :
      Course ofRule effects env (.symbols [s]) c [item] d := by
    obtain ⟨fits, rfl, rfl⟩ := eq_of_run_terminal _ hs run
    exact .terminal hs fits .nil
  cases s with
  | literal text => exact terminal rfl
  | tokenClass class? => exact terminal rfl
  | rule id =>
    obtain ⟨v, matched, rfl⟩ := exists_of_run_map run
    exact .reference (hr id c v d e hc h ready matched) .nil

/-- Symbols one after the other are matched along a tree. -/
theorem of_run_symbols {symbols : List Symbol} (hc : c.Grounded env.grammar effects)
    (h : effectAlong? effects c.place symbols = some e) (ready : e.Ready c)
    {items : List MatchedValue} (run : matchSymbols (matchRule fuel) symbols env c = (.ok items, d)) :
    Course ofRule effects env (.symbols symbols) c items d := by
  induction symbols generalizing c e items with
  | nil =>
    cases run
    exact .nil
  | cons s symbols ih =>
    obtain ⟨first, hf, rest⟩ := Option.bind_eq_some_iff.mp h
    obtain ⟨others, ho, joined⟩ := Option.bind_eq_some_iff.mp rest
    obtain ⟨item, x, one, more⟩ := exists_of_run_bind run
    obtain ⟨behind, later, rfl⟩ := exists_of_run_map more
    have readyFirst := Effect.ready_of_andThen joined ready
    obtain ⟨hx, leads⟩ := grounded_symbol ht rfl hc hf readyFirst one
    -- the other symbols stand where the first one leads
    have there : effectAlong? effects x.place symbols = some others := by
      rw [Effect.place_of_leads leads]
      exact ho
    have goesOn := ih hx there (Effect.ready_behind joined ready leads) later
    cases of_run_symbol hr hc hf readyFirst one with
    | terminal hs fits rest =>
      cases rest
      exact .terminal hs fits goesOn
    | reference course rest =>
      cases rest
      exact .reference course goesOn

/-- An alternative is matched along a tree. -/
theorem of_run_pattern {id : RuleId} {p : Pattern} (hc : c.Grounded env.grammar effects)
    (mem : p ∈ (LiveGrammar.mk env.grammar c.extensions).patterns id)
    (h : effects id c.place = some e) (ready : e.Ready c) {v : Option Value}
    (run : matchPattern (matchRule fuel) p env c = (.ok v, d)) :
    Course ofRule effects env (.pattern p) c v d := by
  obtain ⟨f, along, readyFirst, allows⟩ := hc.exists_effectAlong ht.follows mem h ready
  rw [run_matchPattern] at run
  obtain ⟨items, x, symbols, acted⟩ := exists_of_run_bind run
  obtain ⟨hx, leads, suits⟩ :=
    grounded_symbols ht rfl hc along readyFirst c.tokens.location symbols
  have prepared : Prepared env.grammar ofRule effects p ⟨items, c.tokens.location⟩ x :=
    ⟨hx, ⟨id, hc.sound.offers mem⟩, allows x leads, suits⟩
  exact .pattern (of_run_symbols ht hr hc along readyFirst symbols) prepared acted

/-- A rule is repeated along a tree. -/
theorem of_run_matchRepeatedly {id : RuleId} (hc : c.Grounded env.grammar effects)
    (h : effects id c.place = some .stay) {mayStop : Bool} {count : Nat} {values all : List Value}
    (run : matchRepeatedly (matchRule fuel) id mayStop count values env c = (.ok all, d)) :
    ∃ others, all = others.reverse ++ values ∧
      Course ofRule effects env (.repetition id mayStop) c others d := by
  -- by induction on the number of times that the rule may still be repeated
  induction count generalizing mayStop values c with
  | zero => cases run
  | succ count ih =>
    rcases cases_of_run_matchRepeatedly run with ⟨x, choice, rfl, rfl, rfl⟩ | ⟨p, x, v, y, choice, matched, -, rest⟩
    · exact ⟨[], rfl, .stop choice⟩
    · obtain ⟨hx, onward, mem⟩ := grounded_choice rfl hc choice
      have there : effects id x.place = some .stay := onward.place ▸ h
      have ready : Effect.stay.Ready x := fun start => by cases start
      obtain ⟨hy, goesOn⟩ := grounded_pattern ht rfl hx (mem p rfl) there ready matched
      have behind : effects id y.place = some .stay := (Onward.place goesOn).symm ▸ there
      obtain ⟨others, rfl, course⟩ := ih hy behind rest
      refine ⟨v.toList ++ others, ?_,
        .next choice (hx.sound.offers (mem p rfl))
          (of_run_pattern ht hr hx (mem p rfl) there ready matched) course⟩
      cases v <;> simp

/-- A rule that has room to nest is matched along a tree. -/
theorem of_run_succ : Traced ofRule effects env (fuel + 1) := by
  intro id c v d e hc h ready run
  obtain ⟨-, x, alternatives, rfl⟩ := exists_of_run_matchRule run
  obtain ⟨deeper, down⟩ := hc.of_noise c.tokens c.journal (c.depth + 1) c.stop
  have there : effects id ({ c with depth := c.depth + 1 } : Context).place = some e := h
  have readyThere := Effect.ready_behind (Effect.stay_andThen? e) ready down
  rcases cases_of_run_matchAlternatives alternatives with
    ⟨repeatable, all, rfl, repeated⟩ | ⟨-, optional, rfl, choice⟩ | ⟨-, p, y, choice, matched⟩
  · obtain rfl := ht.follows.stays id c.place e h (.inr repeatable)
    obtain ⟨values, rfl, course⟩ := of_run_matchRepeatedly ht hr deeper there repeated
    rw [List.append_nil]
    exact .repeated repeatable course
  · exact .absent optional choice
  · obtain ⟨hy, onward, mem⟩ := grounded_choice rfl deeper choice
    have chosen : effects id y.place = some e := onward.place ▸ there
    have readyChosen := Effect.ready_behind (Effect.stay_andThen? e) readyThere onward
    exact .once choice (hy.sound.offers (mem p rfl))
      (of_run_pattern ht hr hy (mem p rfl) chosen readyChosen matched)

end

/-- Where a rule has come to its end, there is a tree of how, however deep rules nest. -/
theorem of_run {ofRule : RuleId → Shape} {effects : Effects} {env : Surroundings}
    (ht : env.grammar.Charted ofRule effects) (fuel : Nat) : Traced ofRule effects env fuel := by
  -- by induction on how deep rules may still nest
  induction fuel with
  | zero =>
    intro id c v d e _ _ _ run
    cases run
  | succ fuel ih => exact of_run_succ ht ih

end Course

end Planfile
