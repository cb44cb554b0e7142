import Planfile.Proofs.Error.Language
import Planfile.Proofs.Extension.Hosted
import Planfile.Proofs.Layout.Matching
import Planfile.Proofs.Termination.Lookahead

/-!
# Planfile — where repetitions have stopped

An identifier that does not fit is called an unknown attribute of a repeatable rule, if that rule has just
come to its end in front of it. Which rule that is, one mark in the state says: it is overwritten whenever a
repetition stops, and tells a token only by how many have been read before. A file that is included changes
what is ahead without reading anything, and an attribute that is added changes what a rule takes; so a mark
could be out of date although no token has been read since.

It never is. All the stops of a run are listed here along with the run, in their order, and the mark is that of
the last one. Between a stop and a later state either nothing has been changed by which alternatives are
chosen, or a token has been read: an alternative that includes a file or adds an attribute ends with a token of
its own, or with a body that does, and what has stopped before that token is behind.

Main results:

* `Matcher.stopsOfRule` — the repetitions that have stopped while a rule has been matched.
* `Matcher.followed_matchRule` — the mark of a state is that of the last one, and is not out of date.
-/

namespace Planfile

open Matcher

/-! ## Stops -/

/-- A repeatable rule that has stopped, and the state in which it has. -/
structure Stopped where
  rule : RuleId
  state : Context

namespace Matcher

/-- The repetitions that stop while a symbol is matched, where `stops` says which do so while a rule is. -/
def stopsOfSymbol (stops : RuleId → Context → List Stopped) : Symbol → Context → List Stopped
  | .rule id, c => stops id c
  | .literal _, _ | .tokenClass _, _ => []

section
variable (matchRule : RuleId → Matcher (Option Value)) (stops : RuleId → Context → List Stopped)
  (env : Surroundings)

/-- The repetitions that stop while some symbols are matched. -/
def stopsOfSymbols : List Symbol → Context → List Stopped
  | [], _ => []
  | s :: rest, c =>
    stopsOfSymbol stops s c ++ match matchSymbol matchRule s env c with
      | (.ok _, d) => stopsOfSymbols rest d
      | (.error _, _) => []

/-- The repetitions that stop while a rule is repeated: those inside of it, and at last its own one. -/
def stopsOfRepetition (rule : RuleId) : Bool → Nat → Context → List Stopped
  | _, 0, _ => []
  | mayStop, fuel + 1, c =>
    match choose rule env c with
    | (.error _, _) => []
    | (.ok none, d) => if mayStop then [⟨rule, d⟩] else []
    | (.ok (some p), d) =>
      stopsOfSymbols matchRule stops env p.symbols d ++ match matchPattern matchRule p env d with
        | (.error _, _) => []
        | (.ok _, e) =>
          if e.tokens.consumed = d.tokens.consumed then [] else stopsOfRepetition rule true fuel e

/-- The repetitions that stop while one of the alternatives of a rule is matched, or several. -/
def stopsOfAlternatives (fuel : Nat) (rule : RuleId) (c : Context) : List Stopped :=
  let definition := env.grammar.rule rule
  if definition.repeatable then stopsOfRepetition matchRule stops env rule definition.optional fuel c
  else match choose rule env c with
    | (.ok (some p), d) => stopsOfSymbols matchRule stops env p.symbols d
    | _ => []

end

/-- The repetitions that stop while a rule is matched, in their order. No action of the language matches a
rule, so these are those of its symbols. -/
def stopsOfRule (env : Surroundings) : Nat → RuleId → Context → List Stopped
  | 0, _, _ => []
  | fuel + 1, rule, c =>
    if Limits.parseDepth ≤ c.depth then []
    else stopsOfAlternatives (matchRule fuel) (stopsOfRule env fuel) env fuel rule
      { c with depth := c.depth + 1 }

/-- The repetitions that stop while a plan is matched. -/
def stopsOfPlan (env : Surroundings) (c : Context) : List Stopped :=
  match env.grammar.ruleId? "project" with
  | some rule => stopsOfRule env ampleFuel rule c
  | none => []

end Matcher

/-! ## What has changed since -/

/-- Whether from one state to another either nothing has changed by which alternatives are chosen, or at
least one token has been read. -/
def Context.Moves (c d : Context) : Prop :=
  (d.tokens = c.tokens ∧ d.extensions = c.extensions) ∨ c.tokens.consumed < d.tokens.consumed

namespace Context.Moves

variable {c d e : Context}

theorem refl (c : Context) : c.Moves c := .inl ⟨rfl, rfl⟩

theorem trans (h : c.Moves d) (h' : d.Moves e) : c.Moves e := by
  rcases h with ⟨tokens, extensions⟩ | read
  · rcases h' with ⟨tokens', extensions'⟩ | read'
    · exact .inl ⟨tokens'.trans tokens, extensions'.trans extensions⟩
    · exact .inr (tokens ▸ read')
  · rcases h' with ⟨tokens', -⟩ | read'
    · exact .inr (tokens' ▸ read)
    · exact .inr (Nat.lt_trans read read')

theorem consumed_le (h : c.Moves d) : c.tokens.consumed ≤ d.tokens.consumed := by
  rcases h with ⟨tokens, -⟩ | read
  · exact Nat.le_of_eq (by rw [tokens])
  · exact Nat.le_of_lt read

end Context.Moves

namespace Stopped

/-- The mark of a stop. -/
def mark (s : Stopped) : StopMark := ⟨s.state.tokens.consumed, s.rule⟩

/-- Whether a repeatable rule has stopped indeed: no alternative in force takes the next token. -/
structure Genuine (env : Surroundings) (s : Stopped) : Prop where
  repeatable : (env.grammar.rule s.rule).repeatable = true
  refuses : ∀ p ∈ (LiveGrammar.mk env.grammar s.state.extensions).patterns s.rule,
    (LiveGrammar.mk env.grammar s.state.extensions).patternAccepts s.state.tokens.peek p = .ok false

end Stopped

/-- Whether a list of stops tells all that has stopped between two states, in its order. -/
structure Context.Logs (env : Surroundings) (c : Context) (log : List Stopped) (d : Context) : Prop where
  moves : c.Moves d
  genuine : ∀ s ∈ log, s.Genuine env
  since : ∀ s ∈ log, s.state.Moves d
  mark : d.stop = (log.getLast?.map (·.mark)).or c.stop

namespace Context.Logs

variable {env : Surroundings} {c d e : Context} {log more : List Stopped}

/-- Where nothing has stopped, the mark is that of before. -/
theorem of_moves (moves : c.Moves d) (mark : d.stop = c.stop) : c.Logs env [] d where
  moves := moves
  genuine _ hs := by cases hs
  since _ hs := by cases hs
  mark := mark

/-- What has stopped later stands behind what has stopped before. -/
theorem append (h : c.Logs env log d) (h' : d.Logs env more e) : c.Logs env (log ++ more) e where
  moves := h.moves.trans h'.moves
  genuine s hs := (List.mem_append.mp hs).elim (h.genuine s) (h'.genuine s)
  since s hs := (List.mem_append.mp hs).elim (fun mem => (h.since s mem).trans h'.moves) (h'.since s)
  mark := by
    rw [h'.mark, h.mark, List.getLast?_append]
    cases more.getLast? <;> rfl

/-- Where nothing more has stopped, the list is that of before. -/
theorem onward (h : c.Logs env log d) (moves : d.Moves e) (mark : e.stop = d.stop) : c.Logs env log e := by
  have whole := h.append (of_moves moves mark : d.Logs env [] e)
  rwa [List.append_nil] at whole

end Context.Logs

/-! ## Actions -/

/-- What two runs have in common that both keep a mark. -/
def RunRelation.marking (mark : Option StopMark) : RunRelation where
  surroundings env env' := env' = env
  grammar h := congrArg Surroundings.grammar h
  reading _ stop _ _ := stop = mark
  view := id
  allows _ := True
  stores _ _ _ := trivial

section
variable {a : Action} {v : Values} {matchRule : RuleId → Matcher (Option Value)} {env : Surroundings}
  {c d : Context} {o : Option Value}

/-- An action is no repetition. -/
theorem Action.stop_of_run (statement : a.isStatement = true)
    (run : a.perform matchRule v env c = (.ok o, d)) : d.stop = c.stop := by
  -- a run beside itself: where the mark is the same before, it is the same behind
  have alike : (RunRelation.marking c.stop).Alike c c := ⟨rfl, fun _ _ _ _ => trivial, rfl⟩
  have same : v.Same id v := ⟨fun _ => rfl, fun _ => rfl⟩
  have after := (a.parallel_perform (L := RunRelation.marking c.stop) same statement matchRule matchRule
    env env c c rfl alike).2.reading
  rw [run] at after
  exact after

theorem Action.IsPlaceless.ne_rule (h : a.IsPlaceless) (name : String) : a ≠ .rule name := by
  rintro rfl
  rcases h with statement | ⟨i, same⟩
  · cases statement
  · cases same

/-- Neither an action of the language nor a file that is included stops a repetition or reads a token. -/
theorem Action.IsPlaceless.kept (h : a.IsPlaceless) (run : a.perform matchRule v env c = (.ok o, d)) :
    d.stop = c.stop ∧ d.tokens.consumed = c.tokens.consumed := by
  refine ⟨?_, ?_⟩
  · rcases h with statement | ⟨i, rfl⟩
    · exact Action.stop_of_run statement run
    · obtain ⟨-, path, tokens, journal, -, rfl, -⟩ := Action.eq_of_run_includeFile v run
      rfl
  · rcases Action.tokens_of_run h.ne_rule run with same | ⟨path, opened⟩
    · rw [same]
    · obtain ⟨_, -, same⟩ := Context.included_of_pushInclude? opened
      exact same

/-- A self-contained action changes nothing by which alternatives are chosen. -/
theorem Action.moves_of_run (contained : a.isSelfContained = true)
    (run : a.perform matchRule v env c = (.ok o, d)) : c.Moves d := by
  have same := (a.keeps_matchingState v contained matchRule env c).of_ok run
  exact .inl ⟨congrArg MatchingState.tokens same, congrArg MatchingState.extensions same⟩

/-- No action says that an attribute is unknown. -/
theorem Action.IsPlaceless.not_unknown (h : a.IsPlaceless) {e : ParseError}
    (run : a.perform matchRule v env c = (.error (.error e), d)) (keyword name : String) :
    e.fault ≠ .unknownAttribute keyword name := by
  have objects := (Action.objects v env c h.ne_rule matchRule).of_error run
  intro unknown
  obtain ⟨fault, l⟩ := e
  obtain rfl : fault = _ := unknown
  exact objects

end

/-! ## Alternatives that change what is ahead -/

/-- Whether some symbols end with one that stands for a token. -/
def EndsInToken (symbols : List Symbol) : Prop :=
  ∃ front s a, symbols = front ++ [s] ∧ s.terminal? = some a

/-- Whether a rule is a body that may be absent, and else ends with a token. A plan adds nothing to it. -/
structure GrammarTable.IsBody (t : GrammarTable) (id : RuleId) : Prop where
  once : (t.rule id).repeatable = false
  fixed : ¬t.IsExtendable id
  ends : ∀ p ∈ (t.rule id).patterns, EndsInToken p.symbols

/-- Whether some symbols end with one that stands for a token, behind which there may be a body. -/
def EndsAfresh (t : GrammarTable) (symbols : List Symbol) : Prop :=
  EndsInToken symbols ∨ ∃ front id, symbols = front ++ [.rule id] ∧ EndsInToken front ∧ t.IsBody id

/-- Whether the alternatives of a grammar that include a file or add an attribute end afresh. The other
actions are those of the language. -/
structure GrammarTable.IsTimely (t : GrammarTable) : Prop where
  placeless : t.IsPlaceless
  afresh : ∀ id, ∀ p ∈ (t.rule id).patterns, ∀ a ∈ p.action, a.isSelfContained = false →
    EndsAfresh t p.symbols

/-! ## Runs -/

/-- Whether a list of stops tells all that has stopped in a computation that has been started in a state, if
it has come to its end or says that an attribute is unknown. In that case this is what the mark says. -/
def Context.Tells (env : Surroundings) (c : Context) (log : List Stopped) :
    Except Stop α × Context → Prop
  | (.ok _, d) => c.Logs env log d
  | (.error (.error e), d) => ∀ keyword name, e.fault = .unknownAttribute keyword name →
    c.Logs env log d ∧ unknownAttribute? env.grammar d = some e.fault ∧ e.location = d.tokens.location
  | (.error .outOfFuel, _) => True

section
variable {env : Surroundings} {c d : Context} {log : List Stopped}

/-- What is told of the second part of a computation is told of the whole, behind what has stopped in the
first one. -/
theorem Context.Logs.tells (h : c.Logs env log d) {more : List Stopped} {r : Except Stop α × Context}
    (tells : d.Tells env more r) : c.Tells env (log ++ more) r := by
  obtain ⟨outcome, e⟩ := r
  cases outcome with
  | ok x => exact h.append tells
  | error stop =>
    cases stop with
    | outOfFuel => trivial
    | error error =>
      intro keyword name unknown
      obtain ⟨logs, rest⟩ := tells keyword name unknown
      exact ⟨h.append logs, rest⟩

/-- What ends early is told whatever it would have given. -/
theorem Context.Tells.of_error {stop : Stop}
    (h : c.Tells env log ((.error stop, d) : Except Stop α × Context)) :
    c.Tells env log ((.error stop, d) : Except Stop β × Context) := by
  cases stop <;> exact h

/-- What is wrong with the grammar is no unknown attribute. -/
theorem Context.tells_grammar (e : GrammarError) (l : Location) :
    c.Tells env log ((.error (.error ⟨.grammar e, l⟩), d) : Except Stop α × Context) :=
  fun _ _ unknown => by cases unknown

end

namespace Matcher

/-- What is known of how rules are matched, where `stops` says which repetitions stop meanwhile: these are
all, additions are made where they may be, and behind a body what has stopped in it is behind, too. -/
structure Followed (env : Surroundings) (matchRule : RuleId → Matcher (Option Value))
    (stops : RuleId → Context → List Stopped) : Prop where
  tells : ∀ (id : RuleId) (c : Context), c.Hosted env.grammar →
    c.Tells env (stops id c) (matchRule id env c)
  keeps : ∀ {id : RuleId} {c d : Context} {v : Option Value}, matchRule id env c = (.ok v, d) →
    c.Hosted env.grammar → d.Hosted env.grammar
  bodies : ∀ {id : RuleId} {c d : Context} {v : Option Value}, env.grammar.IsBody id →
    c.Hosted env.grammar → matchRule id env c = (.ok v, d) →
      c.tokens.consumed ≤ d.tokens.consumed ∧
        ∀ s ∈ stops id c, s.state.tokens.consumed < d.tokens.consumed

namespace Followed

variable {env : Surroundings} {c d : Context} {matchRule : RuleId → Matcher (Option Value)}
  {stops : RuleId → Context → List Stopped} (hf : Followed env matchRule stops)
  (hosted : c.Hosted env.grammar)
include hf hosted

/-- A symbol is matched by the next token, or as its rule is. -/
theorem symbol (s : Symbol) :
    c.Tells env (stopsOfSymbol stops s c) (matchSymbol matchRule s env c) := by
  have terminal {a : Terminal} (hs : s.terminal? = some a) :
      c.Tells env [] (matchSymbol matchRule s env c) := by
    cases fits : a.accepts c.tokens.peek with
    | true =>
      rw [run_matchSymbol_of_accepts matchRule hs env fits]
      exact .of_moves (.inr (Nat.lt_succ_self _)) rfl
    | false =>
      rw [run_matchSymbol_of_refused matchRule hs fits]
      intro keyword name unknown
      refine ⟨.of_moves (.refl c) rfl, ?_, rfl⟩
      dsimp only at unknown ⊢
      cases found : unknownAttribute? env.grammar c with
      | some fault => rfl
      | none =>
        -- what is merely not expected is called otherwise
        rw [found] at unknown
        cases a <;> cases unknown
  cases s with
  | literal text => exact terminal rfl
  | tokenClass k => exact terminal rfl
  | rule id =>
    have told := hf.tells id c hosted
    rw [matchSymbol, run_bind]
    generalize matchRule id env c = r at told ⊢
    obtain ⟨outcome, e⟩ := r
    cases outcome with
    | error stop => exact told.of_error
    | ok v => exact told

/-- Symbols are matched one after the other. -/
theorem symbols (symbols : List Symbol) :
    c.Tells env (stopsOfSymbols matchRule stops env symbols c) (matchSymbols matchRule symbols env c) := by
  induction symbols generalizing c with
  | nil => exact .of_moves (.refl c) rfl
  | cons s rest ih =>
    have first := hf.symbol hosted s
    rw [stopsOfSymbols, matchSymbols, run_bind]
    cases matched : matchSymbol matchRule s env c with
    | mk outcome e =>
      rw [matched] at first
      cases outcome with
      | error stop =>
        dsimp only
        rw [List.append_nil]
        exact first.of_error
      | ok item =>
        have still : e.Hosted env.grammar :=
          (stepwise_hosted env).of_run_matchSymbol hf.keeps matched hosted
        have others := ih still
        dsimp only
        rw [run_bind]
        refine Context.Logs.tells first ?_
        generalize matchSymbols matchRule rest env e = r at others ⊢
        obtain ⟨outcome, f⟩ := r
        cases outcome with
        | error stop => exact others.of_error
        | ok items => exact others

omit hf hosted in
/-- Symbols that have been matched have been so in two parts, and what has stopped in the first one stands
in front of what has stopped in the second one. -/
theorem exists_of_run_append (stops : RuleId → Context → List Stopped) {first second : List Symbol}
    {items : List MatchedValue}
    (run : matchSymbols matchRule (first ++ second) env c = (.ok items, d)) :
    ∃ is js e, matchSymbols matchRule first env c = (.ok is, e) ∧
      matchSymbols matchRule second env e = (.ok js, d) ∧
      stopsOfSymbols matchRule stops env (first ++ second) c =
        stopsOfSymbols matchRule stops env first c ++ stopsOfSymbols matchRule stops env second e := by
  induction first generalizing c items with
  | nil => exact ⟨[], items, c, rfl, run, rfl⟩
  | cons s rest ih =>
    obtain ⟨item, e, matched, others⟩ := exists_of_run_bind run
    obtain ⟨items', later, -⟩ := exists_of_run_map (by rwa [bind_pure_comp] at others)
    obtain ⟨is, js, f, front, back, logs⟩ := ih later
    refine ⟨item :: is, js, f, ?_, back, ?_⟩
    · rw [matchSymbols, run_bind, matched]
      dsimp only
      rw [run_bind, front]
      rfl
    · rw [List.cons_append, stopsOfSymbols, stopsOfSymbols, matched]
      dsimp only
      rw [logs, List.append_assoc]

/-- Behind symbols that end with one that stands for a token, what has stopped is behind, and so is where
they start. -/
theorem behind_of_endsInToken {symbols : List Symbol} (ends : EndsInToken symbols)
    {items : List MatchedValue} (run : matchSymbols matchRule symbols env c = (.ok items, d)) :
    c.tokens.consumed < d.tokens.consumed ∧
      ∀ s ∈ stopsOfSymbols matchRule stops env symbols c, s.state.tokens.consumed < d.tokens.consumed := by
  obtain ⟨front, s, a, rfl, hs⟩ := ends
  obtain ⟨is, js, e, first, second, logs⟩ := exists_of_run_append stops run
  have told := hf.symbols hosted front
  rw [first] at told
  -- the token is read behind everything else
  obtain ⟨item, f, matched, nothing⟩ := exists_of_run_bind second
  cases nothing
  obtain ⟨-, -, rfl⟩ := eq_of_run_terminal matchRule hs matched
  have read : e.tokens.consumed < (e.next env).tokens.consumed := Nat.lt_succ_self _
  have none : stopsOfSymbols matchRule stops env [s] e = [] := by
    rw [stopsOfSymbols, matched]
    cases s with
    | rule id => cases hs
    | _ => rfl
  rw [logs, none, List.append_nil]
  exact ⟨Nat.lt_of_le_of_lt told.moves.consumed_le read, fun x hx =>
    Nat.lt_of_le_of_lt (told.since x hx).consumed_le read⟩

/-- So it is if there is a body behind the token. -/
theorem behind_of_endsAfresh {symbols : List Symbol} (ends : EndsAfresh env.grammar symbols)
    {items : List MatchedValue} (run : matchSymbols matchRule symbols env c = (.ok items, d)) :
    c.tokens.consumed < d.tokens.consumed ∧
      ∀ s ∈ stopsOfSymbols matchRule stops env symbols c, s.state.tokens.consumed < d.tokens.consumed := by
  rcases ends with token | ⟨front, id, rfl, token, body⟩
  · exact hf.behind_of_endsInToken hosted token run
  · obtain ⟨is, js, e, first, second, logs⟩ := exists_of_run_append stops run
    obtain ⟨start, inFront⟩ := hf.behind_of_endsInToken hosted token first
    have still : e.Hosted env.grammar :=
      (stepwise_hosted env).of_run_matchSymbols hf.keeps first hosted
    obtain ⟨item, f, matched, nothing⟩ := exists_of_run_bind second
    cases nothing
    obtain ⟨v, inside, rfl⟩ := exists_of_run_map (by rwa [matchSymbol, bind_pure_comp] at matched)
    obtain ⟨onward, inBody⟩ := hf.bodies body still inside
    have last : stopsOfSymbols matchRule stops env [.rule id] e = stops id e := by
      rw [stopsOfSymbols, matched]
      exact List.append_nil _
    rw [logs, last]
    refine ⟨Nat.lt_of_lt_of_le start onward, fun x hx => ?_⟩
    rcases List.mem_append.mp hx with before | within
    · exact Nat.lt_of_lt_of_le (inFront x before) onward
    · exact inBody x within

omit hf in
/-- The action of an alternative in force is one of the language, or it stores a value of what a plan has added. -/
theorem placeless_of_mem (timely : env.grammar.IsTimely) {id : RuleId} {p : Pattern}
    (mem : p ∈ (LiveGrammar.mk env.grammar c.extensions).patterns id) {a : Action} (action : p.action = some a) :
    a.IsPlaceless ∧ (a.isSelfContained = false → EndsAfresh env.grammar p.symbols) := by
  rcases hosted.cases_of_mem_patterns mem with declared | ⟨x, stores⟩
  · exact ⟨timely.placeless id p declared a action, timely.afresh id p declared a action⟩
  · obtain rfl : x.action = a := Option.some.inj (stores.symm.trans action)
    exact ⟨.inl rfl, fun wrong => by cases wrong⟩

/-- An action stops nothing. One that reads tokens or adds to the language stands behind symbols that have read
something behind all that has stopped in them. -/
theorem action {a : Action} (placeless : a.IsPlaceless) {symbols : List Symbol}
    (afresh : a.isSelfContained = false → EndsAfresh env.grammar symbols) {items : List MatchedValue}
    (matched : matchSymbols matchRule symbols env c = (.ok items, d))
    (told : c.Logs env (stopsOfSymbols matchRule stops env symbols c) d) (journal : Log.Journal) (v : Values) :
    c.Tells env (stopsOfSymbols matchRule stops env symbols c)
      (a.perform matchRule v env { d with journal }) := by
  cases acted : a.perform matchRule v env { d with journal } with
  | mk outcome e =>
    cases outcome with
    | error stop =>
      cases stop with
      | outOfFuel => trivial
      | error error =>
        exact fun keyword name unknown => absurd unknown (placeless.not_unknown acted keyword name)
    | ok value =>
      obtain ⟨mark, count⟩ := placeless.kept acted
      cases contained : a.isSelfContained with
      | true =>
        have moves : d.Moves e := Action.moves_of_run (c := { d with journal }) contained acted
        exact told.onward moves mark
      | false =>
        obtain ⟨start, before⟩ := hf.behind_of_endsAfresh hosted (afresh contained) matched
        exact {
          moves := .inr (count ▸ start)
          genuine := told.genuine
          since := fun s hs => .inr (count ▸ before s hs)
          mark := mark.trans told.mark }

/-- An alternative in force is matched by its symbols, and its action stops nothing. -/
theorem pattern (timely : env.grammar.IsTimely) {id : RuleId} {p : Pattern}
    (mem : p ∈ (LiveGrammar.mk env.grammar c.extensions).patterns id) :
    c.Tells env (stopsOfSymbols matchRule stops env p.symbols c) (matchPattern matchRule p env c) := by
  have told := hf.symbols hosted p.symbols
  rw [run_matchPattern, run_bind]
  cases matched : matchSymbols matchRule p.symbols env c with
  | mk outcome d =>
    rw [matched] at told
    cases outcome with
    | error stop => exact told.of_error
    | ok items =>
      dsimp only
      cases action : p.action with
      | none =>
        rw [performed, action]
        exact told
      | some a =>
        obtain ⟨placeless, afresh⟩ := placeless_of_mem hosted timely mem action
        obtain ⟨journal, same⟩ := exists_run_performed matchRule action c.tokens.location items env d
        rw [same]
        exact hf.action hosted placeless afresh matched told journal _

/-- A repetition stops where no alternative is chosen, and else goes on behind one. -/
theorem repetition (timely : env.grammar.IsTimely) {id : RuleId}
    (repeatable : (env.grammar.rule id).repeatable = true) (fuel : Nat) (mayStop : Bool)
    (values : List Value) :
    c.Tells env (stopsOfRepetition matchRule stops env id mayStop fuel c)
      (matchRepeatedly matchRule id mayStop fuel values env c) := by
  -- by induction on the number of times that the rule may still be repeated
  induction fuel generalizing c mayStop values with
  | zero => trivial
  | succ fuel ih =>
    rw [stopsOfRepetition]
    cases choice : choose id env c with
    | mk outcome d =>
      cases outcome with
      | error stop =>
        obtain ⟨e, rfl, -⟩ := exists_of_choose_error choice
        rw [matchRepeatedly, run_bind, choice]
        exact Context.tells_grammar e _
      | ok chosen =>
        cases chosen with
        | none =>
          obtain ⟨rfl, refuses⟩ := refused_of_run_choose choice
          rw [run_matchRepeatedly_of_none choice]
          cases mayStop with
          | false => exact fun _ _ unknown => by cases unknown
          | true => exact { -- the rule has stopped in this very state
              moves := .inl ⟨rfl, rfl⟩
              genuine := fun s hs => List.mem_singleton.mp hs ▸ ⟨repeatable, refuses⟩
              since := fun s hs => List.mem_singleton.mp hs ▸ .inl ⟨rfl, rfl⟩
              mark := rfl }
        | some p =>
          obtain ⟨⟨journal, rfl⟩, among⟩ := exists_of_run_choose choice
          have still : ({ c with journal } : Context).Hosted env.grammar := hosted.of_eq rfl rfl
          have noted : c.Logs env [] { c with journal } := .of_moves (.inl ⟨rfl, rfl⟩) rfl
          have first := noted.tells (hf.pattern still timely (among p rfl))
          rw [run_matchRepeatedly_of_some choice]
          dsimp only
          cases matched : matchPattern matchRule p env { c with journal } with
          | mk outcome e =>
            rw [matched] at first
            cases outcome with
            | error stop =>
              rw [List.append_nil]
              exact first.of_error
            | ok v =>
              dsimp only
              split
              · exact Context.tells_grammar _ _
              · have behind : e.Hosted env.grammar :=
                  (stepwise_hosted env).of_run_matchPattern hf.keeps matched still
                exact Context.Logs.tells first (ih behind _ _)

/-- A rule is matched by being repeated, or by the alternative that is chosen. -/
theorem alternatives (timely : env.grammar.IsTimely) (fuel : Nat) (id : RuleId) :
    c.Tells env (stopsOfAlternatives matchRule stops env fuel id c)
      (matchAlternatives matchRule fuel id env c) := by
  rw [stopsOfAlternatives]
  cases repeatable : (env.grammar.rule id).repeatable with
  | true =>
    have told := hf.repetition hosted timely repeatable fuel (env.grammar.rule id).optional []
    rw [run_matchAlternatives_of_repeatable repeatable, run_map, if_pos rfl]
    -- what a repetition collects does not matter for what it tells
    generalize matchRepeatedly matchRule id (env.grammar.rule id).optional fuel [] env c = r at told ⊢
    obtain ⟨outcome, d⟩ := r
    cases outcome with
    | error stop => exact told.of_error
    | ok values => exact told
  | false =>
    rw [run_matchAlternatives_of_single repeatable, if_neg Bool.false_ne_true]
    cases choice : choose id env c with
    | mk outcome d =>
      cases outcome with
      | error stop =>
        obtain ⟨e, rfl, -⟩ := exists_of_choose_error choice
        exact Context.tells_grammar e _
      | ok chosen =>
        obtain ⟨⟨journal, rfl⟩, among⟩ := exists_of_run_choose choice
        have noted : c.Logs env [] { c with journal } := .of_moves (.inl ⟨rfl, rfl⟩) rfl
        cases chosen with
        | some p =>
          have still : ({ c with journal } : Context).Hosted env.grammar := hosted.of_eq rfl rfl
          exact noted.tells (hf.pattern still timely (among p rfl))
        | none =>
          dsimp only
          cases (env.grammar.rule id).optional with
          | true => exact noted
          | false => exact fun _ _ unknown => by cases unknown

/-- Behind a body what has stopped in it is behind, and none that is absent has stopped. -/
theorem body (timely : env.grammar.IsTimely) {id : RuleId} (body : env.grammar.IsBody id) {fuel : Nat}
    {v : Option Value} (run : matchAlternatives matchRule fuel id env c = (.ok v, d)) :
    c.tokens.consumed ≤ d.tokens.consumed ∧
      ∀ s ∈ stopsOfAlternatives matchRule stops env fuel id c,
        s.state.tokens.consumed < d.tokens.consumed := by
  rw [stopsOfAlternatives, body.once, if_neg Bool.false_ne_true]
  rcases cases_of_run_matchAlternatives run with
    ⟨again, -⟩ | ⟨-, -, rfl, choice⟩ | ⟨-, p, e, choice, matched⟩
  · rw [body.once] at again
    cases again
  · rw [choice]
    obtain ⟨⟨journal, rfl⟩, -⟩ := exists_of_run_choose choice
    exact ⟨Nat.le_refl _, fun s hs => by cases hs⟩
  · rw [choice]
    obtain ⟨⟨journal, rfl⟩, among⟩ := exists_of_run_choose choice
    have still : ({ c with journal } : Context).Hosted env.grammar := hosted.of_eq rfl rfl
    have declared := among p rfl
    rw [hosted.patterns_eq body.fixed] at declared
    rw [run_matchPattern] at matched
    obtain ⟨items, f, symbols, done⟩ := exists_of_run_bind matched
    obtain ⟨start, inside⟩ := hf.behind_of_endsInToken still (body.ends p declared) symbols
    -- the action reads nothing
    have count : d.tokens.consumed = f.tokens.consumed := by
      rcases cases_of_run_performed done with ⟨-, ⟨⟩, rfl⟩ | ⟨a, journal', action, done⟩
      · rfl
      · exact ((timely.placeless id p declared a action).kept done).2
    rw [count]
    exact ⟨Nat.le_of_lt start, inside⟩

end Followed

/-- The mark of a state is that of the repetition that has stopped last, and it is not out of date. -/
theorem followed_matchRule {env : Surroundings} (timely : env.grammar.IsTimely) (n : Nat) :
    Followed env (matchRule n) (stopsOfRule env n) := by
  -- by induction on how deep rules may still nest
  induction n with
  | zero =>
    exact {
      tells := fun _ _ _ => trivial
      keeps := fun run _ => by cases run
      bodies := fun _ _ run => by cases run }
  | succ n ih =>
    refine ⟨fun id c hosted => ?_, (stepwise_hosted env).of_run_matchRule, fun {id c d v} body hosted run => ?_⟩
    · rw [stopsOfRule]
      by_cases shallow : c.depth < Limits.parseDepth
      · have deeper : ({ c with depth := c.depth + 1 } : Context).Hosted env.grammar := hosted.of_eq rfl rfl
        -- on the way in and out only the depth changes, which no stop is about
        have told := ih.alternatives deeper timely n id
        have noted : c.Logs env [] { c with depth := c.depth + 1 } := .of_moves (.inl ⟨rfl, rfl⟩) rfl
        have whole := noted.tells told
        rw [if_neg (Nat.not_le_of_lt shallow), run_matchRule n shallow]
        dsimp only
        generalize matchAlternatives (matchRule n) n id env { c with depth := c.depth + 1 } = r at whole ⊢
        obtain ⟨outcome, e⟩ := r
        cases outcome with
        | ok v => exact whole.onward (.inl ⟨rfl, rfl⟩) rfl
        | error stop =>
          cases stop with
          | outOfFuel => trivial
          | error error =>
            intro keyword name unknown
            obtain ⟨logs, fault, place⟩ := whole keyword name unknown
            exact ⟨logs.onward (.inl ⟨rfl, rfl⟩) rfl, fault, place⟩
      · rw [matchRule_tooDeep n id (Nat.le_of_not_lt shallow)]
        exact fun _ _ unknown => by cases unknown
    · obtain ⟨shallow, e, alternatives, rfl⟩ := exists_of_run_matchRule run
      have deeper : ({ c with depth := c.depth + 1 } : Context).Hosted env.grammar := hosted.of_eq rfl rfl
      rw [stopsOfRule, if_neg (Nat.not_le_of_lt shallow)]
      have inside := ih.body deeper timely body alternatives
      exact inside

end Matcher

end Planfile
