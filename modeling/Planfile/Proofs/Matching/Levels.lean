import Planfile.Proofs.Extension.Start
import Planfile.Proofs.Matching.Postcondition
import Planfile.Proofs.Words.Soundness

/-!
# Planfile — reading what is ahead

Where some tokens are ahead that a rule takes, it is known what comes of matching it. Each rule takes one more
level of the depth to which rules may nest: there has to be room for as many levels as are needed, and if there
is none, the depth is what is wrong.

Reading is followed from one state to the next. `Matcher.Lands` says of a computation what comes of it, which
state it leaves and how many levels it needs, and `Matcher.ReadsTo` says so of one that changes nothing but the
tokens that are ahead. There is a lemma for each kind of step.

Main results:

* `LiveGrammar.patterns_of_sound` — no plan adds to a rule that is not extendable.
* `Matcher.run_choose_of_terminals`, `Matcher.run_choose_of_single` — what the next token chooses.
* `Matcher.Lands.bind`, `Matcher.Lands.pattern`, `Matcher.Lands.rule` — the steps.
* `RuleReads.of_alternative`, `RuleReads.absent` — a rule reads what its alternative does, or is absent.
-/

namespace Planfile

/-! ## Looking ahead -/

/-- The terminal that an alternative starts with, if it starts with one. -/
def Pattern.terminal? (p : Pattern) : Option Terminal := p.first?.bind (·.terminal?)

/-- Whether an alternative starts with a terminal that accepts a token. -/
def Pattern.takes (token : Token) (p : Pattern) : Bool := p.terminal?.any (·.accepts token)

namespace LiveGrammar

/-- No plan adds an alternative to a rule that is not extendable. -/
theorem patterns_of_sound {t : GrammarTable} {c : Context} (sound : c.Sound t) {id : RuleId} {rule : Rule}
    (declared : t.rule id = rule) (fixed : extendableNames.contains rule.name = false) :
    patterns ⟨t, c.extensions⟩ id = rule.patterns := by
  have none : addedTo ⟨t, c.extensions⟩ id = [] := by
    rw [addedTo, List.map_eq_nil_iff, List.filter_eq_nil_iff]
    -- what has been added belongs to a rule that is extendable
    intro e added same
    obtain ⟨extendable, -⟩ := sound.extensions e added
    rw [beq_iff_eq.mp same] at extendable
    exact GrammarTable.not_isExtendable declared fixed extendable
  rw [patterns, none, List.append_nil, declared]

variable {g : LiveGrammar} {token : Token} {id : RuleId} {p : Pattern} {room : Nat}

/-- What an alternative accepts that starts with a terminal. -/
theorem accepts_of_terminal (g : LiveGrammar) (token : Token) (h : p.terminal?.isSome = true) (room : Nat) :
    (match p.first? with
      | some s => g.symbolAccepts token room s
      | none => .ok false) = .ok (p.takes token) := by
  unfold Pattern.takes Pattern.terminal? at *
  cases first : p.first? with
  | none =>
    rw [first] at h
    cases h
  | some s =>
    cases s with
    | literal text => exact symbolAccepts_literal g token room text
    | tokenClass c => exact symbolAccepts_tokenClass g token room c
    | rule id =>
      rw [first] at h
      cases h

/-- Those of some alternatives that can start with a token, if all of them start with terminals. -/
theorem accepting_of_terminals {ps : List Pattern} (h : ∀ p ∈ ps, p.terminal?.isSome = true) :
    g.accepting token ps = .ok (ps.filter (·.takes token)) := by
  induction ps with
  | nil => rfl
  | cons p ps ih =>
    have one : g.patternAccepts token p = .ok (p.takes token) :=
      accepts_of_terminal g token (h p List.mem_cons_self) _
    rw [accepting, one, ih fun q mem => h q (List.mem_cons_of_mem _ mem)]
    cases takes : p.takes token with
    | true =>
      rw [List.filter_cons_of_pos takes]
      rfl
    | false =>
      rw [List.filter_cons_of_neg (Bool.eq_false_iff.mp takes)]
      rfl

/-- A rule whose alternatives start with terminals can start with what one of these accepts. -/
theorem symbolAccepts_of_terminals (mem : p ∈ g.patterns id)
    (h : ∀ q ∈ g.patterns id, q.terminal?.isSome = true) (takes : p.takes token = true) :
    g.symbolAccepts token (room + 1) (.rule id) = .ok true := by
  have answers (q : Pattern) (there : q ∈ g.patterns id) :=
    accepts_of_terminal g token (h q there) room
  rw [symbolAccepts]
  exact (anyM_true_iff fun q there => ⟨_, answers q there⟩).mpr
    ⟨p, mem, (answers p mem).trans (congrArg _ takes)⟩

/-- A rule with one alternative can start as the rule at the start of it. -/
theorem symbolAccepts_of_single {other : RuleId} (patterns : g.patterns id = [p])
    (first : p.first? = some (.rule other)) (accepts : g.symbolAccepts token room (.rule other) = .ok true) :
    g.symbolAccepts token (room + 1) (.rule id) = .ok true := by
  rw [symbolAccepts, patterns, List.anyM, first]
  dsimp only
  rw [accepts]
  rfl

end LiveGrammar

namespace Matcher

variable {env : Surroundings} {c : Context} {id : RuleId}

/-- Where all alternatives start with terminals, the first is chosen that starts with the next token. -/
theorem run_choose_of_terminals {ps : List Pattern}
    (patterns : (LiveGrammar.mk env.grammar c.extensions).patterns id = ps)
    (h : ∀ p ∈ ps, p.terminal?.isSome = true) :
    ∃ journal, choose id env c = (.ok (ps.find? (·.takes c.tokens.peek)), { c with journal }) := by
  have found : (LiveGrammar.mk env.grammar c.extensions).candidates id c.tokens.peek =
      .ok (ps.filter (·.takes c.tokens.peek)) := by
    rw [LiveGrammar.candidates, patterns]
    exact LiveGrammar.accepting_of_terminals h
  obtain ⟨journal, run⟩ := run_choose found
  rw [List.head?_filter] at run
  exact ⟨journal, run⟩

/-- The one alternative of a rule is chosen where the rule at its start can start with the next token. -/
theorem run_choose_of_single {p : Pattern} {other : RuleId}
    (patterns : (LiveGrammar.mk env.grammar c.extensions).patterns id = [p])
    (first : p.first? = some (.rule other))
    (accepts : (LiveGrammar.mk env.grammar c.extensions).symbolAccepts c.tokens.peek Limits.firstSetDepth
      (.rule other) = .ok true) :
    ∃ journal, choose id env c = (.ok (some p), { c with journal }) := by
  have one : (LiveGrammar.mk env.grammar c.extensions).patternAccepts c.tokens.peek p = .ok true := by
    rw [LiveGrammar.patternAccepts, first]
    exact accepts
  have found : (LiveGrammar.mk env.grammar c.extensions).candidates id c.tokens.peek = .ok [p] := by
    rw [LiveGrammar.candidates, patterns, LiveGrammar.accepting, one]
    rfl
  exact run_choose found

end Matcher

/-! ## Tokens ahead -/

namespace TokenSource.Reads

variable {s u : TokenSource} {first second text : List Token} {token : Token}

/-- A text of two parts is read one part after the other. -/
theorem split (h : Reads s (first ++ second) u) : ∃ t, Reads s first t ∧ Reads t second u := by
  induction first generalizing s with
  | nil => exact ⟨s, .done s, h⟩
  | cons token first ih =>
    obtain ⟨spanned, t, same, advanced, rest⟩ := h.of_cons
    obtain ⟨mid, before, after⟩ := ih rest
    subst same
    exact ⟨mid, .token advanced before, after⟩

/-- The first token of a text is the next one, and the others are read behind it. -/
theorem next (h : Reads s (token :: text) u) : s.peek = token ∧ Reads s.read.settled text u := by
  obtain ⟨spanned, t, same, advanced, rest⟩ := h.of_cons
  obtain ⟨ahead, -, rfl⟩ := eq_of_advance advanced
  refine ⟨?_, rest⟩
  rw [TokenSource.peek, peekSpanned, TokenStream.current, ahead]
  exact same

end TokenSource.Reads

/-- What is ahead in a single text is read. -/
theorem TokenSource.Ahead.exists_reads {s : TokenSource} {text rest : List Token} (h : s.Ahead (text ++ rest))
    (going : ∀ token ∈ text, token.isEof = false) : ∃ behind, s.Reads text behind ∧ behind.Ahead rest := by
  induction text generalizing s with
  | nil => exact ⟨s, .done s, h⟩
  | cons token text ih =>
    have next : s.peek = token := h.peek
    obtain ⟨spanned, same, advanced⟩ := Matcher.advance_of_isEof (next ▸ going token List.mem_cons_self)
    obtain ⟨behind, reads, ahead⟩ := ih h.next fun other mem => going other (List.mem_cons_of_mem _ mem)
    rw [next] at same
    subst same
    exact ⟨behind, .token advanced reads, ahead⟩

namespace Matcher

/-! ## Steps -/

/-- Whether a computation gives a value and leaves a state, but for the journal and for where a repetition has
stopped, where rules may nest some levels deeper; and whether it ends for their depth, where they may not. -/
structure Lands (levels : Nat) (a : α) (d : Context) (m : Matcher α) (env : Surroundings) (c : Context) :
    Prop where
  fits : c.depth + levels ≤ Limits.parseDepth → ∃ journal stop, m env c = (.ok a, { d with journal, stop })
  deep : c.depth ≤ Limits.parseDepth → Limits.parseDepth < c.depth + levels →
    ∃ location e, m env c = (.error (.error ⟨.maxParseDepth Limits.parseDepth, location⟩), e)

namespace Lands

variable {env : Surroundings} {c d e : Context} {first second levels : Nat}
  {matchRule : RuleId → Matcher (Option Value)}

/-- The journal and where a repetition has stopped are not looked at. -/
theorem of_noise {m : Matcher α} {a : α} (journal : Log.Journal) (stop : Option StopMark)
    (h : Lands levels a { d with journal, stop } m env c) : Lands levels a d m env c :=
  ⟨h.fits, h.deep⟩

/-- One computation after the other: as many levels are needed as the deeper of the two needs. -/
theorem bind {m : Matcher α} {f : α → Matcher β} {a : α} {b : β} (hm : Lands first a d m env c)
    (level : d.depth = c.depth)
    (hf : ∀ journal stop, Lands second b e (f a) env { d with journal, stop }) :
    Lands (max first second) b e (m >>= f) env c where
  fits room := by
    obtain ⟨journal, stop, run⟩ := hm.fits (by omega)
    have rest := hf journal stop
    obtain ⟨journal', stop', goesOn⟩ := rest.fits (by dsimp only; omega)
    refine ⟨journal', stop', ?_⟩
    rw [run_bind, run]
    exact goesOn
  deep shallow room := by
    -- the first of the two that is too deep ends it
    by_cases fits : c.depth + first ≤ Limits.parseDepth
    · obtain ⟨journal, stop, run⟩ := hm.fits fits
      have rest := hf journal stop
      obtain ⟨location, d, ends⟩ := rest.deep (by dsimp only; omega) (by dsimp only; omega)
      refine ⟨location, d, ?_⟩
      rw [run_bind, run]
      exact ends
    · obtain ⟨location, d, ends⟩ := hm.deep shallow (by omega)
      refine ⟨location, d, ?_⟩
      rw [run_bind, ends]

/-- What comes to its end without a rule needs no level. -/
theorem done {m : Matcher α} {a : α} (h : ∃ journal stop, m env c = (.ok a, { d with journal, stop })) :
    Lands 0 a d m env c where
  fits _ := h
  deep shallow room := by omega

/-- A computation that goes on as another one does, when the journal has been changed. -/
theorem of_run {m m' : Matcher α} {a : α} (journal : Log.Journal) (run : m env c = m' env { c with journal })
    (h : Lands levels a d m' env { c with journal }) : Lands levels a d m env c where
  fits room := by
    rw [run]
    exact h.fits room
  deep shallow room := by
    rw [run]
    exact h.deep shallow room

theorem map {m : Matcher α} {a : α} (h : Lands levels a d m env c) (level : d.depth = c.depth) (f : α → β) :
    Lands levels (f a) d (f <$> m) env c := by
  rw [← bind_pure_comp, ← Nat.max_zero levels]
  exact h.bind level fun journal stop => done ⟨journal, stop, rfl⟩

/-- A rule, and other symbols behind it. -/
theorem rule_cons {id : RuleId} {symbols : List Symbol} {v : Option Value} {items : List MatchedValue}
    (one : Lands first v d (matchRule id) env c) (level : d.depth = c.depth) (last : e.depth = c.depth)
    (rest : ∀ journal stop, Lands second items e (matchSymbols matchRule symbols) env
      { d with journal, stop }) :
    Lands (max first second) (.rule v :: items) e (matchSymbols matchRule (.rule id :: symbols)) env c :=
  (one.map level MatchedValue.rule).bind level fun journal stop =>
    (rest journal stop).map (last.trans level.symm) (MatchedValue.rule v :: ·)

/-- Behind the last rule nothing is read. -/
theorem last_rule {id : RuleId} {v : Option Value} (one : Lands levels v d (matchRule id) env c)
    (level : d.depth = c.depth) :
    Lands levels [.rule v] d (matchSymbols matchRule [.rule id]) env c := by
  rw [← Nat.max_zero levels]
  exact one.rule_cons level level fun journal stop => done ⟨journal, stop, rfl⟩

/-- An alternative without an action is read symbol by symbol, and gives nothing. -/
theorem pattern_none {p : Pattern} (action : p.action = none) {items : List MatchedValue}
    (symbols : Lands levels items d (matchSymbols matchRule p.symbols) env c) (level : d.depth = c.depth) :
    Lands levels none d (matchPattern matchRule p) env c := by
  have run := run_matchPattern matchRule p env c
  refine of_run c.journal run ?_
  rw [← Nat.max_zero levels]
  refine symbols.bind level fun journal stop => done ⟨journal, stop, ?_⟩
  rw [performed, action]
  rfl

/-- An alternative is read symbol by symbol, and then its action is performed. -/
theorem pattern {p : Pattern} {a : Action} (action : p.action = some a) {items : List MatchedValue}
    {v : Option Value} (symbols : Lands levels items d (matchSymbols matchRule p.symbols) env c)
    (level : d.depth = c.depth)
    (acted : ∀ journal stop, ∃ journal' stop', a.perform matchRule ⟨items, c.tokens.location⟩ env
      { d with journal, stop } = (.ok v, { e with journal := journal', stop := stop' })) :
    Lands levels v e (matchPattern matchRule p) env c := by
  have run := run_matchPattern matchRule p env c
  refine of_run c.journal run ?_
  rw [← Nat.max_zero levels]
  refine symbols.bind level fun journal stop => done ?_
  -- before the action the journal says that it is performed
  obtain ⟨noted, performs⟩ := exists_run_performed matchRule action c.tokens.location items env
    { d with journal, stop }
  obtain ⟨last, mark, gives⟩ := acted noted stop
  exact ⟨last, mark, performs.trans gives⟩

/-- A rule takes one more level than what it is matched by. -/
theorem rule {n : Nat} {id : RuleId} {v : Option Value} (fuel : Limits.parseDepth < n + c.depth)
    (h : ∀ m, n = m + 1 → c.depth < Limits.parseDepth →
      Lands levels v { d with depth := d.depth + 1 } (matchAlternatives (Matcher.matchRule m) m id) env
        { c with depth := c.depth + 1 }) :
    Lands (levels + 1) v d (Matcher.matchRule n id) env c := by
  -- the rule itself may be the one for which there is no room
  by_cases shallow : c.depth < Limits.parseDepth
  · obtain ⟨m, rfl⟩ : ∃ m, n = m + 1 := ⟨n - 1, by omega⟩
    have inner := h m rfl shallow
    have run : Matcher.matchRule (m + 1) id env c = _ := run_matchRule m shallow
    refine ⟨fun room => ?_, fun _ room => ?_⟩
    · obtain ⟨journal, stop, one⟩ := inner.fits (by dsimp only; omega)
      refine ⟨journal, stop, ?_⟩
      rw [run, one]
      rfl
    · obtain ⟨location, d, ends⟩ := inner.deep shallow (by dsimp only; omega)
      refine ⟨location, { d with depth := d.depth - 1 }, ?_⟩
      rw [run, ends]
  · refine ⟨fun room => by omega, fun last _ => ?_⟩
    obtain ⟨m, rfl⟩ : ∃ m, n = m + 1 := ⟨n - 1, by omega⟩
    exact ⟨_, _, matchRule_tooDeep m id (Nat.le_of_not_lt shallow)⟩

end Lands

/-- Whether a computation gives a value and reads up to some place, where rules may nest some levels deeper;
and whether it ends for their depth, where they may not. -/
structure ReadsTo (levels : Nat) (a : α) (behind : TokenSource) (m : Matcher α) (env : Surroundings)
    (c : Context) : Prop where
  fits : c.depth + levels ≤ Limits.parseDepth →
    ∃ journal stop, m env c = (.ok a, { c with tokens := behind, journal, stop })
  deep : c.depth ≤ Limits.parseDepth → Limits.parseDepth < c.depth + levels →
    ∃ location d, m env c = (.error (.error ⟨.maxParseDepth Limits.parseDepth, location⟩), d)

/-- What only reads leaves a state in which nothing else has changed. -/
theorem ReadsTo.lands {levels : Nat} {a : α} {behind : TokenSource} {m : Matcher α} {env : Surroundings}
    {c : Context} (h : ReadsTo levels a behind m env c) : Lands levels a { c with tokens := behind } m env c :=
  ⟨h.fits, h.deep⟩

/-- What leaves a state in which nothing else has changed only reads. -/
theorem Lands.readsTo {levels : Nat} {a : α} {behind : TokenSource} {m : Matcher α} {env : Surroundings}
    {c : Context} (h : Lands levels a { c with tokens := behind } m env c) : ReadsTo levels a behind m env c :=
  ⟨h.fits, h.deep⟩

namespace ReadsTo

variable {env : Surroundings} {c : Context} {first second levels : Nat} {mid behind : TokenSource}
  {matchRule : RuleId → Matcher (Option Value)}

/-- One computation after the other: as many levels are needed as the deeper of the two needs. -/
theorem bind {m : Matcher α} {f : α → Matcher β} {a : α} {b : β} (hm : ReadsTo first a mid m env c)
    (hf : ∀ journal stop, ReadsTo second b behind (f a) env { c with tokens := mid, journal, stop }) :
    ReadsTo (max first second) b behind (m >>= f) env c :=
  Lands.readsTo <| hm.lands.bind rfl fun journal stop => .of_noise journal stop (hf journal stop).lands

/-- What comes to its end without a rule needs no level. -/
theorem done {m : Matcher α} {a : α}
    (h : ∃ journal stop, m env c = (.ok a, { c with tokens := behind, journal, stop })) :
    ReadsTo 0 a behind m env c :=
  (Lands.done (d := { c with tokens := behind }) h).readsTo

/-- A computation that goes on as another one does, when the journal has been changed. -/
theorem of_run {m m' : Matcher α} {a : α} (journal : Log.Journal) (run : m env c = m' env { c with journal })
    (h : ReadsTo levels a behind m' env { c with journal }) : ReadsTo levels a behind m env c :=
  Lands.readsTo <| .of_run journal run <| .of_noise journal c.stop h.lands

theorem map {m : Matcher α} {a : α} (h : ReadsTo levels a behind m env c) (f : α → β) :
    ReadsTo levels (f a) behind (f <$> m) env c :=
  (h.lands.map rfl f).readsTo

/-- Behind the last symbol nothing is read. -/
theorem nil (here : c.tokens = behind) : ReadsTo 0 [] behind (matchSymbols matchRule []) env c :=
  done ⟨c.journal, c.stop, here ▸ rfl⟩

/-- A symbol, and the others behind it. -/
theorem cons {s : Symbol} {symbols : List Symbol} {item : MatchedValue} {items : List MatchedValue}
    (one : ReadsTo first item mid (matchSymbol matchRule s) env c)
    (rest : ∀ journal stop, ReadsTo second items behind (matchSymbols matchRule symbols) env
      { c with tokens := mid, journal, stop }) :
    ReadsTo (max first second) (item :: items) behind (matchSymbols matchRule (s :: symbols)) env c :=
  one.bind fun journal stop => (rest journal stop).map (item :: ·)

/-- A rule, and other symbols behind it. -/
theorem rule_cons {id : RuleId} {symbols : List Symbol} {v : Option Value} {items : List MatchedValue}
    (one : ReadsTo first v mid (matchRule id) env c)
    (rest : ∀ journal stop, ReadsTo second items behind (matchSymbols matchRule symbols) env
      { c with tokens := mid, journal, stop }) :
    ReadsTo (max first second) (.rule v :: items) behind (matchSymbols matchRule (.rule id :: symbols)) env c :=
  cons (one.map MatchedValue.rule) rest

/-- A token, and other symbols behind it. -/
theorem token_cons {s : Symbol} {a : Terminal} (hs : s.terminal? = some a) {token : Token}
    (accepts : a.accepts token = true) {item : MatchedValue} (gives : a.matched token = item)
    {text : List Token} {stop : TokenSource} (reads : c.tokens.Reads (token :: text) stop)
    {symbols : List Symbol} {items : List MatchedValue}
    (rest : ∀ mid journal mark, mid.Reads text stop →
      ReadsTo levels items behind (matchSymbols matchRule symbols) env
        { c with tokens := mid, journal, stop := mark }) :
    ReadsTo levels (item :: items) behind (matchSymbols matchRule (s :: symbols)) env c := by
  obtain ⟨rfl, others⟩ := reads.next
  subst gives
  have run := run_matchSymbol_of_accepts matchRule hs env accepts
  have one : ReadsTo 0 (a.matched c.tokens.peek) c.tokens.read.settled (matchSymbol matchRule s) env c :=
    done ⟨_, c.stop, run⟩
  rw [← Nat.zero_max levels]
  exact one.cons fun journal mark => rest _ journal mark others

/-- A literal, and other symbols behind it. -/
theorem literal_cons (word : String) {token : Token} (fits : token.matchesLiteral word = true)
    {text : List Token} {stop : TokenSource} (reads : c.tokens.Reads (token :: text) stop)
    {symbols : List Symbol} {items : List MatchedValue}
    (rest : ∀ mid journal mark, mid.Reads text stop →
      ReadsTo levels items behind (matchSymbols matchRule symbols) env
        { c with tokens := mid, journal, stop := mark }) :
    ReadsTo levels (.literal word :: items) behind (matchSymbols matchRule (.literal word :: symbols)) env c :=
  token_cons (a := .literal word) rfl fits rfl reads rest

/-- A token of a class, and other symbols behind it. -/
theorem class_cons (k : TokenClass) {token : Token} (fits : (Terminal.tokenClass k).accepts token = true)
    {text : List Token} {stop : TokenSource} (reads : c.tokens.Reads (token :: text) stop)
    {symbols : List Symbol} {items : List MatchedValue}
    (rest : ∀ mid journal mark, mid.Reads text stop →
      ReadsTo levels items behind (matchSymbols matchRule symbols) env
        { c with tokens := mid, journal, stop := mark }) :
    ReadsTo levels (.token token :: items) behind (matchSymbols matchRule (.tokenClass k :: symbols)) env c :=
  token_cons (a := .tokenClass k) rfl fits rfl reads rest

/-- Behind the last literal nothing is read. -/
theorem last_literal (word : String) {token : Token} (fits : token.matchesLiteral word = true)
    (reads : c.tokens.Reads [token] behind) :
    ReadsTo 0 [.literal word] behind (matchSymbols matchRule [.literal word]) env c :=
  literal_cons word fits reads fun _ _ _ rest => nil rest.eq_of_nil.symm

/-- Behind the last rule nothing is read. -/
theorem last_rule {id : RuleId} {v : Option Value} (one : ReadsTo levels v behind (matchRule id) env c) :
    ReadsTo levels [.rule v] behind (matchSymbols matchRule [.rule id]) env c := by
  rw [← Nat.max_zero levels]
  exact rule_cons one fun _ _ => nil rfl

/-- An alternative is read symbol by symbol, and its action changes nothing but the journal. -/
theorem pattern {p : Pattern} {a : Action} (action : p.action = some a) {items : List MatchedValue}
    {v : Option Value} (symbols : ReadsTo levels items behind (matchSymbols matchRule p.symbols) env c)
    (acted : ∀ d : Context, d.project = c.project →
      ∃ journal, a.perform matchRule ⟨items, c.tokens.location⟩ env d = (.ok v, { d with journal })) :
    ReadsTo levels v behind (matchPattern matchRule p) env c := by
  refine (symbols.lands.pattern action rfl fun journal stop => ?_).readsTo
  obtain ⟨last, gives⟩ := acted { c with tokens := behind, journal, stop } rfl
  exact ⟨last, stop, gives⟩

/-- A repeatable rule goes on behind an alternative that has read something. -/
theorem again {id : RuleId} {p : Pattern} {v : Option Value} {values all : List Value} {fuel : Nat}
    {mayStop : Bool} {noted : Log.Journal} (choice : choose id env c = (.ok (some p), { c with journal := noted }))
    (one : ReadsTo first v mid (matchPattern matchRule p) env { c with journal := noted })
    (moved : mid.consumed ≠ c.tokens.consumed)
    (rest : ∀ journal stop, ReadsTo second all behind
      (matchRepeatedly matchRule id true fuel (v.toList ++ values)) env { c with tokens := mid, journal, stop }) :
    ReadsTo (max first second) all behind (matchRepeatedly matchRule id mayStop (fuel + 1) values) env c := by
  have run : matchRepeatedly matchRule id mayStop (fuel + 1) values env c =
      (matchPattern matchRule p >>= fun v => do
        if (← get).tokens.consumed = c.tokens.consumed then
          failNext (.grammar (.noProgress ((← read).grammar.rule id).name))
        matchRepeatedly matchRule id true fuel (v.toList ++ values)) env { c with journal := noted } := by
    rw [matchRepeatedly, run_bind, choice]
    rfl
  refine of_run noted run (one.bind fun journal stop => of_run journal ?_ (rest journal stop))
  -- there has been progress, so it is not objected to
  rw [run_bind, run_get]
  dsimp only
  rw [if_neg moved]

/-- A rule takes one more level than what it is matched by. -/
theorem rule {n : Nat} {id : RuleId} {v : Option Value} (fuel : Limits.parseDepth < n + c.depth)
    (h : ∀ m, n = m + 1 → c.depth < Limits.parseDepth →
      ReadsTo levels v behind (matchAlternatives (Matcher.matchRule m) m id) env
        { c with depth := c.depth + 1 }) :
    ReadsTo (levels + 1) v behind (Matcher.matchRule n id) env c :=
  Lands.readsTo <| .rule fuel fun m same shallow => (h m same shallow).lands

end ReadsTo

end Matcher

/-! ## Rules -/

/-- Whether a state is one in which expressions about a project are read. -/
structure Context.Hosts (env : Surroundings) (p : Plan.Project) (c : Context) : Prop where
  sound : c.Sound env.grammar
  project : c.project = some p

/-- What tokens are ahead, how deep rules are nested and what the journal says does not matter. -/
theorem Context.Hosts.of_noise {env : Surroundings} {p : Plan.Project} {c : Context} (h : c.Hosts env p)
    (tokens : TokenSource) (journal : Log.Journal) (depth : Nat) (stop : Option StopMark) :
    Context.Hosts env p { c with tokens, journal, depth, stop } :=
  ⟨⟨h.sound.extensions, h.sound.target⟩, h.project⟩

open Matcher

/-- Whether a rule reads some tokens and gives a value, which may depend on the place, wherever these tokens
are ahead and then one that can follow. -/
def RuleReads (env : Surroundings) (p : Plan.Project) (id : RuleId) (levels : Nat)
    (v : Location → Option Value) (text : List Token) (follows : Token → Prop) : Prop :=
  ∀ n c behind, c.Hosts env p → c.tokens.Reads text behind → follows behind.peek →
    Limits.parseDepth + text.length < n + c.depth →
    ReadsTo levels (v c.tokens.location) behind (matchRule n id) env c

namespace RuleReads

variable {env : Surroundings} {p : Plan.Project} {id : RuleId} {levels : Nat}
  {v : Location → Option Value} {text : List Token} {follows : Token → Prop}

/-- A rule reads what the alternative that is chosen reads. -/
theorem of_alternative (q : Pattern) {expected : List Symbol} {a : Action} (items : List MatchedValue)
    (single : (env.grammar.rule id).repeatable = false) (parts : q = ⟨expected, some a⟩)
    (chosen : ∀ c behind, c.Hosts env p → c.tokens.Reads text behind →
      ∃ journal, choose id env c = (.ok (some q), { c with journal }))
    (symbols : ∀ m c behind, c.Hosts env p → c.tokens.Reads text behind → follows behind.peek →
      Limits.parseDepth + text.length < m + c.depth →
      ReadsTo levels items behind (matchSymbols (matchRule m) expected) env c)
    (acted : ∀ matchRule location d, d.project = some p →
      ∃ journal, a.perform matchRule ⟨items, location⟩ env d = (.ok (v location), { d with journal })) :
    RuleReads env p id (levels + 1) v text follows := by
  subst parts
  intro n c behind hosts reads next fuel
  -- one level deeper there is one less of the fuel, and the tokens are the same
  refine .rule (by omega) fun m same shallow => ?_
  subst same
  obtain ⟨journal, choice⟩ := chosen { c with depth := c.depth + 1 } behind
    (hosts.of_noise c.tokens c.journal _ c.stop) reads
  have run : matchAlternatives (matchRule m) m id env { c with depth := c.depth + 1 } =
      matchPattern (matchRule m) ⟨expected, some a⟩ env { c with depth := c.depth + 1, journal } := by
    rw [run_matchAlternatives_of_single single, choice]
  have inner := symbols m { c with depth := c.depth + 1, journal } behind
    (hosts.of_noise c.tokens journal _ c.stop) reads next (by dsimp only; omega)
  exact .of_run journal run (inner.pattern rfl fun d same => acted _ _ d (same.trans hosts.project))

/-- A rule that may be absent is, where the next token starts none of its alternatives. -/
theorem absent {name : String} {ps : List Pattern} (rule : env.grammar.rule id = ⟨name, ps, true, false⟩)
    (fixed : extendableNames.contains name = false) (terminals : ∀ q ∈ ps, q.terminal?.isSome = true) :
    RuleReads env p id 1 (fun _ => none) [] (fun next => ps.find? (·.takes next) = none) := by
  intro n c behind hosts reads next fuel
  obtain rfl := reads.eq_of_nil
  refine .rule (by omega) fun m same shallow => .done ?_
  have inside := hosts.of_noise c.tokens c.journal (c.depth + 1) c.stop
  have patterns := LiveGrammar.patterns_of_sound inside.sound rule fixed
  obtain ⟨journal, choice⟩ := run_choose_of_terminals (c := { c with depth := c.depth + 1 }) patterns terminals
  rw [next] at choice
  refine ⟨journal, c.stop, ?_⟩
  rw [run_matchAlternatives_of_single (by rw [rule]), choice, rule]
  rfl

end RuleReads

/-! ## Repetitions -/

section
variable {β : Type} {env : Surroundings} {p : Plan.Project} {q : Pattern} {levels : Nat}
  {write : β → List Token} {give : β → Value} {ends : Token → Prop}

/-- Whether an alternative reads items as they are written, where another one follows or else the end, which is
told by the next token. -/
structure ReadsItems (env : Surroundings) (p : Plan.Project) (q : Pattern) (levels : Nat)
    (write : β → List Token) (give : β → Value) (ends : Token → Prop) : Prop where
  terminal : q.terminal?.isSome = true
  starts : ∀ b, ∃ first rest, write b = first :: rest ∧ q.takes first = true
  stops : ∀ next, ends next → q.takes next = false
  reads : ∀ b m c behind, c.Hosts env p → c.tokens.Reads (write b) behind →
    (∃ other, (write other).head? = some behind.peek) ∨ ends behind.peek →
    Limits.parseDepth + (write b).length < m + c.depth →
    ReadsTo levels (some (give b)) behind (matchPattern (matchRule m) q) env c

namespace ReadsItems

variable {id : RuleId} {name : String} (h : ReadsItems env p q levels write give ends)

include h

/-- Each item has a token at least. -/
theorem length_le (items : List β) : items.length ≤ (items.flatMap write).length := by
  induction items with
  | nil => exact Nat.le_refl _
  | cons b rest ih =>
    obtain ⟨first, others, tokens, -⟩ := h.starts b
    rw [List.flatMap_cons, List.length_append, tokens, List.length_cons, List.length_cons]
    omega

/-- Behind an item another one follows, or the end. -/
theorem follows {items : List β} {s behind : TokenSource} (reads : s.Reads (items.flatMap write) behind)
    (last : ends behind.peek) : (∃ other, (write other).head? = some s.peek) ∨ ends s.peek := by
  cases items with
  | nil =>
    obtain rfl := reads.eq_of_nil
    exact .inr last
  | cons b rest =>
    obtain ⟨first, others, tokens, -⟩ := h.starts b
    rw [List.flatMap_cons, tokens] at reads
    exact .inl ⟨b, by rw [tokens, reads.next.1]; rfl⟩

variable (rule : env.grammar.rule id = ⟨name, [q], true, true⟩)
  (fixed : extendableNames.contains name = false)

include rule fixed

/-- Items are read one after the other. -/
theorem repeatedly (items : List β) {m fuel : Nat} {c : Context} {behind : TokenSource} {values : List Value}
    (hosts : c.Hosts env p)
    (reads : c.tokens.Reads (items.flatMap write) behind) (last : ends behind.peek)
    (ample : Limits.parseDepth + (items.flatMap write).length < m + c.depth) (enough : items.length < fuel) :
    ReadsTo (if items.isEmpty then 0 else levels) ((items.map give).reverse ++ values) behind
      (matchRepeatedly (matchRule m) id true fuel values) env c := by
  have chooses {c : Context} (hosts : c.Hosts env p) : ∃ journal, choose id env c =
      (.ok ([q].find? (·.takes c.tokens.peek)), { c with journal }) :=
    run_choose_of_terminals (LiveGrammar.patterns_of_sound hosts.sound rule fixed)
      fun q mem => by rw [List.mem_singleton.mp mem]; exact h.terminal
  -- by induction on the items, of which each takes one more round
  induction items generalizing fuel c values with
  | nil =>
    obtain ⟨fuel, rfl⟩ : ∃ left, fuel = left + 1 := ⟨fuel - 1, by omega⟩
    obtain ⟨noted, choice⟩ := chooses hosts
    obtain rfl := reads.eq_of_nil
    rw [List.find?_cons_of_neg (Bool.eq_false_iff.mp (h.stops _ last)), List.find?_nil] at choice
    refine .done ⟨noted, some ⟨c.tokens.consumed, id⟩, ?_⟩
    rw [run_matchRepeatedly_of_none choice]
    rfl
  | cons b rest ih =>
    obtain ⟨fuel, rfl⟩ : ∃ left, fuel = left + 1 := ⟨fuel - 1, by omega⟩
    rw [List.flatMap_cons, List.length_append] at ample
    rw [List.length_cons] at enough
    rw [List.flatMap_cons] at reads
    obtain ⟨mid, one, others⟩ := reads.split
    obtain ⟨first, more, tokens, takes⟩ := h.starts b
    obtain ⟨noted, choice⟩ := chooses hosts
    have next : c.tokens.peek = first := by
      rw [tokens] at one
      exact one.next.1
    rw [next, List.find?_cons_of_pos takes] at choice
    have item := h.reads b m { c with journal := noted } mid (hosts.of_noise c.tokens noted c.depth c.stop) one
      (h.follows others last) (by dsimp only; omega)
    have moved : mid.consumed ≠ c.tokens.consumed := by
      rw [one.consumed, tokens, List.length_cons]
      omega
    -- what has been read comes in front of the values of before
    have all : ((b :: rest).map give).reverse ++ values =
        (rest.map give).reverse ++ ((some (give b)).toList ++ values) := by simp
    have whole : (if (b :: rest).isEmpty then 0 else levels) =
        max levels (if rest.isEmpty then 0 else levels) := by
      cases rest <;> simp
    rw [all, whole]
    refine .again choice item moved fun journal mark => ?_
    exact ih (hosts.of_noise mid journal c.depth mark) others (by dsimp only; omega) (by omega)

/-- A rule of any number of items collects them. -/
theorem ruleReads (items : List β) :
    RuleReads env p id ((if items.isEmpty then 0 else levels) + 1)
      (fun _ => collected (items.map give).reverse) (items.flatMap write) ends := by
  intro n c behind hosts reads next fuel
  refine .rule (by omega) fun m same shallow => ?_
  subst same
  have run : matchAlternatives (matchRule m) m id env { c with depth := c.depth + 1 } =
      (collected <$> matchRepeatedly (matchRule m) id true m []) env { c with depth := c.depth + 1 } := by
    rw [run_matchAlternatives_of_repeatable (by rw [rule]), rule]
  have length := h.length_le items
  have repeated : ReadsTo (if items.isEmpty then 0 else levels) ((items.map give).reverse ++ []) behind
      (matchRepeatedly (matchRule m) id true m []) env { c with depth := c.depth + 1 } :=
    h.repeatedly rule fixed items (hosts.of_noise c.tokens c.journal (c.depth + 1) c.stop) reads next
      (by dsimp only; omega) (by omega)
  rw [List.append_nil] at repeated
  exact .of_run c.journal run (repeated.map collected)

end ReadsItems

end

end Planfile
