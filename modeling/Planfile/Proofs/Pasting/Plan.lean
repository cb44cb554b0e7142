import Planfile.Proofs.Matching.Choice
import Planfile.Proofs.Pasting.Language

/-!
# Planfile — including files is pasting them

A plan may be spread over files. When its include statements give way to the tokens of the files they
name, what is left is a single text, and it makes the same project. At the places where files can be
included another token follows the statement before, and another one than that statement is read
next. What stands there is a token between statements in both cases, and a body goes on with what
follows.

Main results:

* `Matcher.flattens_matchRepeatedly` — statements, some of which include files.
* `Matcher.plan_pasted` — a plan makes the project that it makes when all its files are pasted.
-/

namespace Planfile

open TokenSource (Pastes nextOf)

/-- The state in which a parse of a stream starts. -/
def Context.ofStream (stream : TokenStream) (file : String) (path : Option String)
    (journal : Log.Journal) : Context :=
  .initial (.ofStream stream file path) journal

namespace Matcher

/-! ## What stands behind -/

/-- Whether the token that stands behind something is the one that stood there, or takes its place
between statements. -/
def Joins (old new : Token) : Prop := new = old ∨ old.Closes ∧ new.Closes

/-- Whether the token that stood behind a statement is still there. -/
def Meets (old new : Token) : Prop := new = old ∧ old.Closes

/-- Whether both the token that stood there and the one that takes its place are found between
statements. -/
def BothClose (old new : Token) : Prop := old.Closes ∧ new.Closes

/-- Where a text that ends a statement comes to its end, the next token may be another one. -/
theorem follows_of_joins {ends : Prop} (h : ends) {c : Context} {behind : List Token}
    (joins : Joins c.tokens.peek (nextOf behind)) : Follows ends c behind :=
  joins.imp_right fun closes => ⟨h, closes⟩

/-- Whether a computation reads its text, in between performing include statements, and another one
comes to its end wherever the text is ahead in one piece, leaves a state like that of the first one,
and leaves ahead what stands behind the text. What is asked of the token behind the text is said by
`after`, and what is then known of the token that the text begins with is said by `before`. -/
def Flattens (t : GrammarTable) (after before : Token → Token → Prop) (m n : Matcher α)
    (text : Text) : Prop :=
  ∀ env c a c', env.grammar = t → c.Sound t → m env c = (.ok a, c') →
    Pastes env.preferences env.files c.tokens (text env c) c'.tokens ∧
      ∀ behind, after c'.tokens.peek (nextOf behind) →
        before c.tokens.peek (nextOf (text env c ++ behind)) ∧
          ∀ env' d, env'.grammar = t → c.Alike d → d.tokens.Ahead (text env c ++ behind) →
            ∃ b d', n env' d = (.ok b, d') ∧ c'.Alike d' ∧ d'.tokens.Ahead behind

section
variable {t : GrammarTable} {after mid before : Token → Token → Prop} {m n : Matcher α}
  {text : Text}

/-- One text is read behind another. -/
theorem Flattens.bind {ok : α → Prop} {f g : α → Matcher β} {text' : Text}
    (hm : Flattens t mid before m n text) (sound : Yields t ok m)
    (hf : ∀ a b, Flattens t after mid (f a) (g b) text') :
    Flattens t after before (m >>= f) (n >>= g)
      fun env c => text env c ++ text' env (m env c).2 := by
  intro env c x c' he hc run
  obtain ⟨a, e, one, two⟩ := exists_of_run_bind run
  obtain ⟨-, he', -⟩ := sound.of_ok he hc one
  obtain ⟨pastes, again⟩ := hm env c a e he hc one
  obtain ⟨pastes', again'⟩ := hf a a env e x c' he he' two
  simp only [one]
  refine ⟨pastes.append pastes', fun behind asked => ?_⟩
  -- what is known of the second text is what is asked behind the first one
  obtain ⟨known, -⟩ := again' behind asked
  obtain ⟨first, goOn⟩ := again _ known
  rw [List.append_assoc]
  refine ⟨first, fun env' d same alike ahead => ?_⟩
  obtain ⟨b, d₁, one', alike, ahead⟩ := goOn env' d same alike ahead
  obtain ⟨-, again'⟩ := hf a b env e x c' he he' two
  obtain ⟨-, goOn'⟩ := again' behind asked
  obtain ⟨y, d₂, two', result⟩ := goOn' env' d₁ same alike ahead
  refine ⟨y, d₂, ?_, result⟩
  rw [run_bind, one']
  exact two'

theorem Flattens.map {f g : α → β} (hm : Flattens t after before m n text) :
    Flattens t after before (f <$> m) (g <$> n) text := by
  intro env c x c' he hc run
  obtain ⟨a, given, rfl⟩ := exists_of_run_map run
  obtain ⟨pastes, again⟩ := hm env c a c' he hc given
  refine ⟨pastes, fun behind asked => ?_⟩
  obtain ⟨first, goOn⟩ := again behind asked
  refine ⟨first, fun env' d same alike ahead => ?_⟩
  obtain ⟨b, d', run', result⟩ := goOn env' d same alike ahead
  refine ⟨g b, d', ?_, result⟩
  rw [run_map, run']

/-- More can be asked, and less be known. -/
theorem Flattens.weaken {more less : Token → Token → Prop} (hm : Flattens t after before m n text)
    (ha : ∀ old new, more old new → after old new)
    (hb : ∀ old new, before old new → less old new) : Flattens t more less m n text := by
  intro env c a c' he hc run
  obtain ⟨pastes, again⟩ := hm env c a c' he hc run
  refine ⟨pastes, fun behind asked => ?_⟩
  obtain ⟨first, goOn⟩ := again behind (ha _ _ asked)
  exact ⟨hb _ _ first, goOn⟩

/-- What includes no files reads its text as such. -/
theorem Replays.flattens {R : α → α → Prop} {ends : Prop} (h : Replays t ends R m n text)
    (closed : ends) : Flattens t Joins Joins m n text := by
  intro env c a c' he hc run
  obtain ⟨reads, again⟩ := h env c a c' he hc run
  refine ⟨reads.pastes, fun behind joins => ⟨?_, fun env' d same alike ahead => ?_⟩⟩
  · have before : Follows True c (text env c ++ behind) :=
      (follows_of_joins trivial joins).before reads fun _ _ => trivial
    exact before.imp_right And.right
  · obtain ⟨b, d', run', -, result⟩ :=
      again env' d behind same alike ahead (follows_of_joins closed joins)
    exact ⟨b, d', run', result⟩

end

/-! ## Statements -/

section
variable {t : GrammarTable} {o : Outline} {ofRule : RuleId → Shape} {id : RuleId}

/-- A statement is one that includes a file, or has nothing to do with including files and ends with
what leaves alone the token behind it. -/
theorem statement_of_mem (statements : t.RepeatsStatements o id) {c : Context} (hc : c.Sound t)
    {p : Pattern} (hp : p ∈ (LiveGrammar.mk t c.extensions).patterns id) :
    p = o.including ∨ o.isFreePattern p = true ∧ t.EndsClosed p.symbols := by
  have closed : t.isClosed id = true := by
    have keywords := statements.keywords
    rw [show Limits.firstSetDepth = 63 + 1 from rfl, GrammarTable.startsOnly,
      Bool.and_eq_true] at keywords
    exact keywords.1
  rw [GrammarTable.patterns_of_isClosed hc closed] at hp
  exact statements.statements p hp

/-- Statements, some of which include files, read a text that is matched again in one piece, and they
are read between two tokens that are found between statements. -/
theorem flattens_matchRepeatedly (ht : t.Typed ofRule) (ho : t.Fits o)
    (statements : t.RepeatsStatements o id) (fuel : Nat) {count count' : Nat}
    (enough : count ≤ count') (values values' : List Value) :
    Flattens t Meets BothClose (matchRepeatedly (matchRule fuel) id true count values)
      (matchRepeatedly (matchRule fuel) id true count' values')
      (repetitionText (matchRule fuel) (ruleText fuel) id count) := by
  have hm := matched_matchRule ht fuel
  -- by induction on the number of statements that may still follow; what is not included leaves
  -- room for more of them in the single text
  induction count generalizing count' values values' with
  | zero =>
    intro env c all c' _ _ run
    cases run
  | succ count ih =>
    obtain ⟨count', rfl⟩ : ∃ n, count' = n + 1 := ⟨count' - 1, by omega⟩
    intro env c all c' he hc run
    obtain ⟨chosen, journal, choice, one⟩ := exists_of_choose ht.extensible he hc id
    rw [repetitionText, choice]
    have sound : ({ c with journal } : Context).Sound t := ⟨hc.extensions, hc.target⟩
    cases chosen with
    | none =>
      -- the token behind the last statement is there in the single text, and is no statement there
      rw [run_matchRepeatedly_of_none choice] at run
      obtain ⟨-, rfl, rfl⟩ := eq_of_endRepetition run
      refine ⟨.done _, fun behind meets => ?_⟩
      obtain ⟨same, closes⟩ := meets
      refine ⟨⟨closes, same ▸ closes⟩, fun env' d he' states ahead => ?_⟩
      obtain ⟨journal', choice'⟩ := run_choose_alike ht.extensible he he' hc states
        (ahead.peek.trans same) choice
      refine ⟨values', _, run_matchRepeatedly_of_none choice' true count' values', ?_, ahead⟩
      exact (states.changed _ _ _).of_changed _ _ _
    | some p =>
      obtain ⟨mem, accepts⟩ := one p rfl
      -- a statement starts with a keyword, so it can follow any other one
      have closes := GrammarTable.closes_of_keywords hc statements.keywords mem accepts
      rw [run_matchRepeatedly_of_some choice] at run
      cases hr : matchPattern (matchRule fuel) p env { c with journal } with
      | mk outcome e =>
        rw [hr] at run
        cases outcome with
        | error stop => cases run
        | ok v =>
          have typed := ht.typed_of_mem_patterns hc mem
          have strict : c.tokens.consumed < e.tokens.consumed := hm.reads choice hr
          obtain ⟨-, still, -⟩ := (yields_matchPattern ht.extensible hm typed).of_ok he sound hr
          dsimp only at run
          rw [if_neg (Nat.ne_of_gt strict)] at run
          simp only [hr]
          rcases statement_of_mem statements hc mem with rfl | ⟨free, closed⟩
          · -- the statement is skipped: what it has read is not there in the single text
            obtain ⟨rfl, nothing, tokens, later, rfl, pastes⟩ :=
              pastes_including ht.extensible ho he sound hr
            obtain ⟨others, again⟩ :=
              ih (Nat.le_of_succ_le enough) values values' env _ all c' he still run
            rw [nothing, List.nil_append]
            refine ⟨pastes.append others, fun behind asked => ?_⟩
            obtain ⟨⟨-, first⟩, goOn⟩ := again behind asked
            refine ⟨⟨closes, first⟩, fun env' d he' states ahead => ?_⟩
            exact goOn env' d he' (states.changed tokens later c.stop) ahead
          · -- any other statement is read again, up to the token at which the next one starts
            obtain ⟨reads, replay⟩ := replays_chosen ht hm
              (replays_matchRule ht ho fuel) he hc choice free hr
            have rest (values' : List Value) :=
              ih (Nat.le_of_succ_le_succ enough) (v.toList ++ values) values' env e all c' he still
                run
            refine ⟨reads.pastes.append (rest values').1, fun behind asked => ?_⟩
            obtain ⟨known, -⟩ := (rest values').2 behind asked
            obtain ⟨first, goOn⟩ := replay (repetitionText (matchRule fuel) (ruleText fuel) id count
              env e ++ behind)
            rw [List.append_assoc]
            refine ⟨⟨closes, first ▸ closes⟩, fun env' d he' states ahead => ?_⟩
            obtain ⟨e', w, d₁, choice', run', strict', -, states, ahead⟩ :=
              goOn env' d he' states ahead (follows_of_joins closed (.inr known))
            obtain ⟨-, goOn⟩ := (rest (w.toList ++ values')).2 behind asked
            obtain ⟨all', d₂, others, result⟩ := goOn env' d₁ he' states ahead
            refine ⟨all', d₂, ?_, result⟩
            rw [run_matchRepeatedly_of_some choice', run']
            dsimp only
            rw [if_neg (Nat.ne_of_gt strict'), others]

end

/-! ## Rules -/

section
variable {t : GrammarTable} {after mid before : Token → Token → Prop} {id : RuleId}
  {rule : RuleId → Matcher (Option Value)} {text : RuleId → Text}

/-- A rule does what its alternatives do one level deeper. -/
theorem flattens_matchRule
    (h : ∀ fuel, Flattens t after before (matchAlternatives (matchRule fuel) fuel id)
      (matchAlternatives (matchRule fuel) fuel id)
      (alternativesText (matchRule fuel) (ruleText fuel) fuel id)) (fuel : Nat) :
    Flattens t after before (matchRule fuel id) (matchRule fuel id) (ruleText fuel id) := by
  intro env c v c' he hc run
  cases fuel with
  | zero => cases run
  | succ fuel =>
    obtain ⟨shallow, e, alternatives, rfl⟩ := exists_of_run_matchRule run
    have deeper : ({ c with depth := c.depth + 1 } : Context).Sound t := ⟨hc.extensions, hc.target⟩
    obtain ⟨pastes, again⟩ := h fuel env _ v e he deeper alternatives
    refine ⟨pastes, fun behind asked => ?_⟩
    obtain ⟨first, goOn⟩ := again behind asked
    refine ⟨first, fun env' d he' states ahead => ?_⟩
    obtain ⟨w, d', run', states', ahead'⟩ :=
      goOn env' { d with depth := c.depth + 1 } he' (states.withDepth _) ahead
    exact ⟨w, _, run_matchRule_alike shallow states run' states', states'.withDepth _, ahead'⟩

/-- Symbols are read one after the other. -/
theorem Flattens.cons {s : Symbol} {rest : List Symbol} {ok : MatchedValue → Prop}
    (first : Flattens t mid before (matchSymbol rule s) (matchSymbol rule s) (symbolText text s))
    (sound : Yields t ok (matchSymbol rule s))
    (others : Flattens t after mid (matchSymbols rule rest) (matchSymbols rule rest)
      (symbolsText rule text rest)) :
    Flattens t after before (matchSymbols rule (s :: rest)) (matchSymbols rule (s :: rest))
      (symbolsText rule text (s :: rest)) :=
  first.bind sound fun _ _ => others.map

theorem flattens_nil :
    Flattens t after after (matchSymbols rule []) (matchSymbols rule [])
      (symbolsText rule text []) := by
  intro env c items c' _ _ run
  cases run
  exact ⟨.done _, fun behind asked => ⟨asked, fun _ d _ states ahead =>
    ⟨[], d, rfl, states, ahead⟩⟩⟩

theorem Flattens.matchPattern {symbols : List Symbol}
    (h : Flattens t after before (matchSymbols rule symbols) (matchSymbols rule symbols)
      (symbolsText rule text symbols)) :
    Flattens t after before (matchPattern rule ⟨symbols, none⟩) (matchPattern rule ⟨symbols, none⟩)
      (patternText rule text ⟨symbols, none⟩) :=
  h.map (f := fun _ => none) (g := fun _ => none)

/-- A terminal reads one token, and anything can stand behind it. -/
theorem flattens_terminal {s : Symbol} {a : Terminal} (hs : s.terminal? = some a) :
    Flattens t Joins Joins (matchSymbol rule s) (matchSymbol rule s) fun _ c => [c.tokens.peek] := by
  have replays : Replays t True _ (matchSymbol rule s) (matchSymbol rule s) _ := replays_terminal hs
  exact replays.flattens trivial

/-- The end of a body is read by itself. -/
theorem flattens_rightBrace :
    Flattens t Joins Meets (matchSymbol rule (.literal "\x7d")) (matchSymbol rule (.literal "\x7d"))
      (symbolText text (.literal "\x7d")) := by
  have terminal : Flattens t Joins Joins (matchSymbol rule (.literal "\x7d"))
      (matchSymbol rule (.literal "\x7d")) (symbolText text (.literal "\x7d")) :=
    flattens_terminal rfl
  intro env c item c' he hc run
  obtain ⟨fits, -, -⟩ := eq_of_run_terminal rule (a := .literal "\x7d") rfl run
  obtain ⟨pastes, again⟩ := terminal env c item c' he hc run
  refine ⟨pastes, fun behind asked => ⟨⟨rfl, Token.closes_of_rightBrace fits⟩, ?_⟩⟩
  exact (again behind asked).2

end

/-! ## The whole plan -/

section
variable {t : GrammarTable} {o : Outline} {ofRule : RuleId → Shape}

/-- A rule for statements, some of which include files. -/
theorem flattens_statements (ht : t.Typed ofRule) (ho : t.Fits o) {id : RuleId}
    (statements : t.RepeatsStatements o id) (fuel : Nat) :
    Flattens t Meets BothClose (matchRule fuel id) (matchRule fuel id) (ruleText fuel id) := by
  refine flattens_matchRule (fun fuel => ?_) fuel
  have repetition := (flattens_matchRepeatedly ht ho statements fuel (Nat.le_refl fuel) [] []).map
    (f := collected) (g := collected)
  intro env c v c' he hc run
  rw [run_matchAlternatives_of_repeatable (he ▸ statements.repeatable), he,
    statements.optional] at run
  obtain ⟨pastes, again⟩ := repetition env c v c' he hc run
  unfold alternativesText
  rw [he, if_pos statements.repeatable]
  refine ⟨pastes, fun behind asked => ?_⟩
  obtain ⟨first, goOn⟩ := again behind asked
  refine ⟨first, fun env' d he' states ahead => ?_⟩
  rw [run_matchAlternatives_of_repeatable (he' ▸ statements.repeatable), he', statements.optional]
  exact goOn env' d he' states ahead

/-- The symbols of the body of a project. -/
theorem flattens_bodySymbols (ht : t.Typed ofRule) (ho : t.Fits o) (fuel : Nat) :
    Flattens t Joins Joins
      (matchSymbols (matchRule fuel) [.literal "\x7b", .rule o.settings, .literal "\x7d"])
      (matchSymbols (matchRule fuel) [.literal "\x7b", .rule o.settings, .literal "\x7d"])
      (symbolsText (matchRule fuel) (ruleText fuel)
        [.literal "\x7b", .rule o.settings, .literal "\x7d"]) := by
  have hm := matched_matchRule ht fuel
  have opening : Flattens t Joins Joins (matchSymbol (matchRule fuel) (.literal "\x7b"))
      (matchSymbol (matchRule fuel) (.literal "\x7b"))
      (symbolText (ruleText fuel) (.literal "\x7b")) :=
    flattens_terminal rfl
  have settings : Flattens t Meets BothClose (matchSymbol (matchRule fuel) (.rule o.settings))
      (matchSymbol (matchRule fuel) (.rule o.settings))
      (symbolText (ruleText fuel) (.rule o.settings)) :=
    (flattens_statements ht ho ho.settings fuel).map
  have closing : Flattens t Joins Meets (matchSymbol (matchRule fuel) (.literal "\x7d"))
      (matchSymbol (matchRule fuel) (.literal "\x7d"))
      (symbolText (ruleText fuel) (.literal "\x7d")) :=
    flattens_rightBrace
  -- from the back: the brace asks for the token behind the settings, they for one behind a statement
  have behindOpening := settings.cons (yields_matchSymbol hm _) <|
    closing.cons (yields_matchSymbol hm _) flattens_nil
  exact opening.cons (yields_matchSymbol hm _) <|
    behindOpening.weaken (fun _ _ joins => joins) fun _ _ closes => .inr closes

/-- The body of a project, which may be absent. -/
theorem flattens_body (ht : t.Typed ofRule) (ho : t.Fits o) (fuel : Nat) :
    Flattens t BothClose Joins (matchRule fuel o.body) (matchRule fuel o.body)
      (ruleText fuel o.body) := by
  refine flattens_matchRule (fun fuel => ?_) fuel
  intro env c v c' he hc run
  have once : (t.rule o.body).repeatable = false := by rw [ho.bodyRule]
  have absent : (t.rule o.body).optional = true := by rw [ho.bodyRule]
  have closed : t.isClosed o.body = true := ho.closed o.body (by simp [Outline.isFree])
  have inner : t.startsOnly Terminal.isInner Limits.firstSetDepth (.rule o.body) = true := by
    rw [show Limits.firstSetDepth = 63 + 1 from rfl, GrammarTable.startsOnly, closed, ho.bodyRule]
    rfl
  rw [run_matchAlternatives_of_single (he ▸ once)] at run
  unfold alternativesText
  rw [he, once, if_neg Bool.false_ne_true]
  obtain ⟨chosen, journal, choice, one⟩ := exists_of_choose ht.extensible he hc o.body
  rw [choice] at run ⊢
  cases chosen with
  | none =>
    -- neither the statement ahead nor the one that takes its place starts a body
    dsimp only at run
    rw [he, if_pos absent] at run
    cases run
    refine ⟨.done _, fun behind closes => ⟨.inr closes, fun env' d he' states ahead => ?_⟩⟩
    have next : d.tokens.peek.Closes := ahead.peek ▸ closes.2
    obtain ⟨journal', choice'⟩ :=
      run_choose_of_inner ht.extensible he' (states.sound hc) next inner
    refine ⟨none, { d with journal := journal' }, ?_, ?_, ahead⟩
    · rw [run_matchAlternatives_of_single (he' ▸ once), choice']
      dsimp only
      rw [he', if_pos absent]
      rfl
    · exact (states.changed _ _ _).of_changed _ _ d.stop
  | some p =>
    -- the body is there, and its brace is read as such
    obtain ⟨mem, -⟩ := one p rfl
    rw [GrammarTable.patterns_of_isClosed hc closed, ho.bodyRule, List.mem_singleton] at mem
    subst mem
    have sound : ({ c with journal } : Context).Sound t := ⟨hc.extensions, hc.target⟩
    obtain ⟨pastes, again⟩ :=
      (flattens_bodySymbols ht ho fuel).matchPattern env _ v c' he sound run
    refine ⟨pastes, fun behind closes => ?_⟩
    obtain ⟨first, goOn⟩ := again behind (.inr closes)
    refine ⟨first, fun env' d he' states ahead => ?_⟩
    have next : d.tokens.peek = c.tokens.peek := ahead.peek
    obtain ⟨journal', choice'⟩ := run_choose_alike ht.extensible he he' hc states next choice
    rw [run_matchAlternatives_of_single (he' ▸ once), choice']
    exact goOn env' { d with journal := journal' } he'
      ((states.changed c.tokens journal c.stop).of_changed d.tokens journal' d.stop) ahead

/-- The symbols of a project. -/
theorem flattens_projectSymbols (ht : t.Typed ofRule) (ho : t.Fits o) (fuel : Nat) :
    Flattens t Meets Joins
      (matchSymbols (matchRule fuel) [.rule o.header, .rule o.body, .rule o.properties])
      (matchSymbols (matchRule fuel) [.rule o.header, .rule o.body, .rule o.properties])
      (symbolsText (matchRule fuel) (ruleText fuel)
        [.rule o.header, .rule o.body, .rule o.properties]) := by
  have hm := matched_matchRule ht fuel
  have header : Flattens t Joins Joins (matchSymbol (matchRule fuel) (.rule o.header))
      (matchSymbol (matchRule fuel) (.rule o.header)) (symbolText (ruleText fuel) (.rule o.header)) :=
    ((replays_matchRule ht ho fuel o.header ho.header.1).flattens ho.header.2).map
  have body : Flattens t BothClose Joins (matchSymbol (matchRule fuel) (.rule o.body))
      (matchSymbol (matchRule fuel) (.rule o.body)) (symbolText (ruleText fuel) (.rule o.body)) :=
    (flattens_body ht ho fuel).map
  have properties : Flattens t Meets BothClose (matchSymbol (matchRule fuel) (.rule o.properties))
      (matchSymbol (matchRule fuel) (.rule o.properties))
      (symbolText (ruleText fuel) (.rule o.properties)) :=
    (flattens_statements ht ho ho.properties fuel).map
  exact header.cons (yields_matchSymbol hm _) <|
    body.cons (yields_matchSymbol hm _) <|
      properties.cons (yields_matchSymbol hm _) flattens_nil

/-- The text of a project begins with the next token, which its header reads. -/
theorem nextOf_projectText (ht : t.Typed ofRule) (ho : t.Fits o) {fuel : Nat}
    {env : Surroundings} {c d : Context} (he : env.grammar = t) (hc : c.Sound t)
    (starts : CanStart t c o.header) {rest : List Symbol} {items : List MatchedValue}
    (run : matchSymbols (matchRule fuel) (.rule o.header :: rest) env c = (.ok items, d))
    (behind : List Token) :
    nextOf (symbolsText (matchRule fuel) (ruleText fuel) (.rule o.header :: rest) env c ++ behind) =
      c.tokens.peek := by
  -- the header can start with the token, so it reads something
  obtain ⟨item, e, first, -⟩ := exists_of_run_bind run
  obtain ⟨v, given, -⟩ := exists_of_run_map first
  have takes : TakesNext (matchRule fuel o.header) env c :=
    takesNext_matchRule (Action.wellBehaved env) (he ▸ starts) fuel
  have strict := takes.of_ok given
  obtain ⟨reads, -⟩ := replays_matchRule ht ho fuel o.header ho.header.1 env c v e he hc given
  rw [symbolsText, List.append_assoc]
  exact reads.nextOf_append strict _

/-- A project, from its header to the end of the text. -/
theorem flattens_project (ht : t.Typed ofRule) (ho : t.Fits o) (fuel : Nat) :
    Flattens t Meets (fun _ _ => True) (matchRule fuel o.project) (matchRule fuel o.project)
      (ruleText fuel o.project) := by
  refine flattens_matchRule (fun fuel => ?_) fuel
  intro env c v c' he hc run
  have once : (t.rule o.project).repeatable = false := by rw [ho.projectRule]
  have required : (t.rule o.project).optional = false := by rw [ho.projectRule]
  have closed : t.isClosed o.project = true := ho.closed o.project (by simp [Outline.isFree])
  rw [run_matchAlternatives_of_single (he ▸ once)] at run
  unfold alternativesText
  rw [he, once, if_neg Bool.false_ne_true]
  obtain ⟨chosen, journal, choice, one⟩ := exists_of_choose ht.extensible he hc o.project
  rw [choice] at run ⊢
  cases chosen with
  | none =>
    dsimp only at run
    rw [he, required, if_neg Bool.false_ne_true] at run
    cases run
  | some p =>
    obtain ⟨mem, accepts⟩ := one p rfl
    rw [GrammarTable.patterns_of_isClosed hc closed, ho.projectRule, List.mem_singleton] at mem
    subst mem
    have sound : ({ c with journal } : Context).Sound t := ⟨hc.extensions, hc.target⟩
    obtain ⟨pastes, again⟩ :=
      (flattens_projectSymbols ht ho fuel).matchPattern env _ v c' he sound run
    refine ⟨pastes, fun behind meets => ⟨trivial, fun env' d he' states ahead => ?_⟩⟩
    obtain ⟨-, goOn⟩ := again behind meets
    have pattern : ((fun _ => none) <$> matchSymbols (matchRule fuel)
        [.rule o.header, .rule o.body, .rule o.properties]) env { c with journal } =
        (.ok v, c') := run
    obtain ⟨items, symbols, -⟩ := exists_of_run_map pattern
    -- a plan starts with its header, in which nothing is included
    have next : d.tokens.peek = c.tokens.peek :=
      ahead.peek.trans (nextOf_projectText ht ho he sound accepts symbols behind)
    obtain ⟨journal', choice'⟩ := run_choose_alike ht.extensible he he' hc states next choice
    rw [run_matchAlternatives_of_single (he' ▸ once), choice']
    exact goOn env' { d with journal := journal' } he'
      ((states.changed c.tokens journal c.stop).of_changed d.tokens journal' d.stop) ahead

end

/-- Including files is pasting them: where a plan makes a project, the text in which all include
statements that are performed have given way to the tokens of their files, down to those included by
files, makes the same project, but for the places of expressions. The files are those that the plan is found
to include, and the tokens of each are those that the grammar reads of the text that is read under its name. -/
theorem plan_pasted {env : Surroundings} (grammar : Language.grammar = .ok env.grammar)
    {main : TokenStream} {file : String} {path : Option String} {journal : Log.Journal}
    {p : Plan.Project} {after : Context}
    (run : plan env (.ofStream main file path journal) = (.ok p, after)) :
    let text := planText env (.ofStream main file path journal)
    Pastes env.preferences env.files (.ofStream main file path) text after.tokens ∧
      (∃ files, Pasted env.preferences env.files main.rest files text ∧
        after.tokens.included = files.map (·.metadata.path)) ∧
      ∀ env' single file' path' journal', env'.grammar = env.grammar →
        single.ahead.map (·.token) = text ++ [.eof] →
        ∃ q after', plan env' (.ofStream single file' path' journal') = (.ok q, after') ∧
          q.forget = p.forget := by
  intro text
  obtain ⟨table, made, typed, id, known⟩ := Language.exists_typed
  obtain ⟨o, ho⟩ := Language.exists_fits made
  obtain rfl : table = env.grammar := Except.ok.inj (made.symm.trans grammar)
  obtain rfl : id = o.project := Option.some.inj (known.symm.trans ho.project)
  obtain ⟨v, e, parsed, eof, there, rfl⟩ := exists_of_run_plan known run
  have sound : (Context.ofStream main file path journal).Sound env.grammar :=
    Context.sound_initial env.grammar _ journal
  -- the text of the plan is that of its project
  have whole : text = ruleText ampleFuel o.project env (.ofStream main file path journal) := by
    show planText env _ = _
    rw [planText, known]
  obtain ⟨pastes, again⟩ :=
    flattens_project typed ho ampleFuel env _ v e rfl sound parsed
  rw [← whole] at pastes again
  -- behind it there is the end of the text, in the files as well as in the single text
  have atEnd : e.tokens.peek = .eof := by
    cases token : e.tokens.peek with
    | eof => rfl
    | _ =>
      rw [token] at eof
      cases eof
  refine ⟨pastes, ?_, fun env' single file' path' journal' he' ahead => ?_⟩
  · -- the main file has been read to its end
    have all : (TokenSource.ofStream main file path).rest = main.rest := by
      rw [TokenSource.rest, TokenSource.frames, TokenSource.ofStream, List.flatMap_singleton]
    obtain ⟨files, pasted, listed⟩ := pastes.pasted (pastes.rest_eq_nil rfl eof)
    exact ⟨files, all ▸ pasted, listed⟩
  · -- the single text is read to its end
    have meets : Meets e.tokens.peek (nextOf []) := atEnd ▸ ⟨rfl, Token.closes_eof⟩
    obtain ⟨-, goOn⟩ := again [] meets
    rw [List.append_nil] at goOn
    have states : (Context.ofStream main file path journal).Alike
        (.ofStream single file' path' journal') := .intro _ _ _ none .none
    obtain ⟨w, d, parsed', states', ahead'⟩ := goOn env' _ he' states ⟨rfl, ahead⟩
    obtain ⟨q, there', alike⟩ := states'.exists_project there
    have eof' : d.tokens.peek.isEof = true := by rw [ahead'.peek]; rfl
    exact ⟨q, _, run_plan (he' ▸ known) parsed' eof' there', alike.forget⟩

/-- A plan that includes its first task. -/
def spreadPlan : TokenStream :=
  plainStream <| yearHeader ++
    [.id "include", .string "work.tji", .id "task", .id "rest", .string "Rest", .eof]

/-- The file with the task. -/
def workFile : File.System := TokenSource.oneFile "/plans/work.tji" "task work \"Work\""

/-- The plan with the file pasted. -/
def pastedPlan : List Token :=
  yearHeader ++ [.id "task", .id "work", .string "Work", .id "task", .id "rest", .string "Rest"]

/-- The plan makes a project, and its text is the one with the file pasted. -/
theorem text_spreadPlan :
    Language.satisfies (fun table =>
      let env : Surroundings := ⟨table, workFile, TokenSource.anyName⟩
      let start := Context.ofStream spreadPlan "main.tjp" none .silent
      (plan env start).1.isOk && planText env start == pastedPlan) = true := by
  decide +kernel

/-- The plan that includes its first task makes the project of the plan that has it pasted, where what is pasted is
what the file has to give. -/
theorem plan_pasted_spreadPlan :
    ∃ table p after files q after', Language.grammar = .ok table ∧
      plan ⟨table, workFile, TokenSource.anyName⟩ (.ofStream spreadPlan "main.tjp" none .silent) =
        (.ok p, after) ∧
      Pasted TokenSource.anyName workFile spreadPlan.rest files pastedPlan ∧
      plan ⟨table, .empty, TokenSource.anyName⟩
          (.ofStream (plainStream (pastedPlan ++ [.eof])) "pasted.tjp" none .silent) =
        (.ok q, after') ∧
      q.forget = p.forget := by
  obtain ⟨table, made⟩ := Language.exists_grammar
  obtain ⟨ends, text⟩ := Bool.and_eq_true_iff.mp (Language.of_satisfies text_spreadPlan made)
  obtain ⟨p, after, run⟩ := exists_of_isOk ends
  obtain ⟨-, ⟨files, pasted, -⟩, again⟩ := plan_pasted made run
  rw [beq_iff_eq.mp text] at again pasted
  obtain ⟨q, after', run', same⟩ := again ⟨table, .empty, TokenSource.anyName⟩
    (plainStream (pastedPlan ++ [.eof])) "pasted.tjp" none .silent rfl rfl
  exact ⟨table, p, after, files, q, after', made, run, pasted, run', same⟩

end Matcher

end Planfile
