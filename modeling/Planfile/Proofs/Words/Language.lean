import Planfile.Proofs.Matching.Choice
import Planfile.Proofs.Typing.Language
import Planfile.Proofs.Words.Completeness
import Planfile.Proofs.Words.Soundness

/-!
# Planfile — the language is matched whole

Whether one token decides is found out rule by rule, without a plan. In the language it does, so every
word of the rule for projects is matched to its end, unless the plan is objected to for what it says or
its rules nest too deep. The words are those without statements that include a file or add attributes:
behind such a statement, what is read next or what the words are is for the plan to say.

Main results:

* `GrammarTable.separates_of_check` — where the check passes, one token decides.
* `Language.plan_of_word` — no word of the language is refused for its tokens.
-/

namespace Planfile

open LiveGrammar (ofTable)

namespace GrammarTable

/-! ## Checking a grammar -/

section
variable (t : GrammarTable)

/-- The rules that are unfinished at the end of each rule, by number, found by going through the
patterns so many times. -/
def endings : Nat → List (List RuleId)
  | 0 => []
  | rounds + 1 =>
    let known := endings rounds
    (List.range t.rules.size).map fun i =>
      let r := t.rule ⟨i⟩
      let own := if r.optional || r.repeatable then [RuleId.mk i] else []
      let inner := r.patterns.flatMap fun p =>
        t.unfinishedAfter (fun id => (known[id.index]?).getD []) [] p.symbols
      (own ++ inner).eraseDups

variable (keywords : List String) (ends : RuleId → List RuleId) (inside : RuleId → Bool)

/-- Whether one token is found to decide in a pattern of a rule. -/
def checkSeparate (id : RuleId) (p : Pattern) : Bool :=
  let unfinished := t.unfinishedAfter ends [] p.symbols
  p.first?.any (!t.mayBeAbsent ·) && t.isSeparate ends [] p.symbols &&
    unfinished.all (ends id).contains &&
    (!(t.rule id).repeatable || unfinished.all (t.isApart · (.rule id))) &&
    p.isSelfContained && p.symbols.all fun s => if let .rule other := s then inside other else true

/-- Whether one token is found to decide in a rule. -/
def checkRuleSeparate (id : RuleId) : Bool :=
  (!inside id ||
    ((t.without keywords).rule id).patterns.all (t.checkSeparate ends inside id) &&
      (!((t.rule id).optional || (t.rule id).repeatable) || (ends id).contains id)) &&
    t.startsWithin (Limits.firstSetDepth + 1) (.rule id)

variable {t ends inside}

/-- Where the check of a pattern passes, one token decides in it. -/
theorem separatesPattern_of_check {id : RuleId} {p : Pattern}
    (h : t.checkSeparate ends inside id p = true) : t.SeparatesPattern ends inside id p := by
  simp only [checkSeparate, Bool.and_eq_true, List.all_eq_true, Bool.or_eq_true] at h
  obtain ⟨⟨⟨⟨⟨starts, separate⟩, closes⟩, repeats⟩, selfContained⟩, within⟩ := h
  refine ⟨?_, separate, fun other there => by simpa using closes other there, ?_, selfContained,
    fun other there => within _ there⟩
  · rw [Pattern.first?] at starts
    cases symbols : p.symbols with
    | nil => simp [symbols] at starts
    | cons s rest => exact ⟨s, rest, rfl, by simpa [symbols] using starts⟩
  · intro repeatable
    rcases repeats with never | apart
    · simp [repeatable] at never
    · exact apart

variable {keywords}

/-- Where the check of each rule passes, and no token is accepted by two alternatives, one token
decides. -/
theorem separates_of_check
    (h : ∀ i < t.rules.size, t.checkRuleSeparate keywords ends inside ⟨i⟩ = true)
    (exclusive : ∀ id token, Lexer.looksRight token = true → (ofTable t).Exclusive id token) :
    t.Separates keywords ends inside := by
  have rules := rule_eq_default_or_of_all h
  refine ⟨fun id => ?_, exclusive, fun id hid p hp => ?_, fun id hid goesOn => ?_⟩
  · rcases rules id with none | passed
    · rw [startsWithin, none]
      rfl
    · exact (Bool.and_eq_true_iff.mp passed).2
  · rcases rules id with none | passed
    · rw [rule_without, none] at hp
      cases hp
    · simp only [checkRuleSeparate, hid, Bool.and_eq_true, Bool.not_true, Bool.false_or,
        List.all_eq_true] at passed
      exact separatesPattern_of_check (passed.1.1 p hp)
  · rcases rules id with none | passed
    · rw [none] at goesOn
      rcases goesOn with optional | repeatable
      · cases optional
      · cases repeatable
    · simp only [checkRuleSeparate, hid, Bool.and_eq_true, Bool.not_true, Bool.false_or,
        Bool.or_eq_true] at passed
      rcases passed.1.2 with neither | there
      · rcases goesOn with optional | repeatable
        · simp [optional] at neither
        · simp [repeatable] at neither
      · simpa using there

end

/-- Where fewer statements are left out, there are more words. -/
theorem derives_without {t : GrammarTable} {few many : List String} (sub : few ⊆ many)
    {symbols : List Symbol} {text : List Token}
    (h : (ofTable (t.without many)).Derives symbols text) :
    (ofTable (t.without few)).Derives symbols text := by
  refine h.of_fewer (fun id => ?_) (fun id => ?_) (fun id p hp => ?_)
  · show ((t.without many).rule id).optional = ((t.without few).rule id).optional
    rw [rule_without, rule_without]
  · show ((t.without many).rule id).repeatable = ((t.without few).rule id).repeatable
    rw [rule_without, rule_without]
  · rw [LiveGrammar.patterns_ofTable, rule_without] at hp ⊢
    obtain ⟨mem, kept⟩ := List.mem_filter.mp hp
    refine List.mem_filter.mpr ⟨mem, ?_⟩
    cases keyword : p.keyword? with
    | none => rfl
    | some word =>
      rw [keyword] at kept
      have kept : word ∉ many := by simpa using kept
      have free : word ∉ few := fun there => kept (sub there)
      simpa using free

end GrammarTable

namespace Language

/-- The keywords of the statements that are left out of words. -/
def leftOut : List String := ["include", "extend"]

/-- The rules that are unfinished at the end of a rule of the language. -/
def endingsIn (t : GrammarTable) : RuleId → List RuleId :=
  let known := t.endings 6
  fun id => (known[id.index]?).getD []

/-- Whether a rule is one of those that plans have without adding attributes. -/
def addsNothing (t : GrammarTable) (id : RuleId) : Bool :=
  let name := (t.rule id).name
  name != "extendBody" && name != "extendAttributes"

/-- In the language one token is found to decide. -/
theorem check_separate :
    satisfies (fun t =>
      (List.range t.rules.size).all (fun i =>
        t.checkRuleSeparate leftOut (endingsIn t) (addsNothing t) ⟨i⟩) &&
      (t.ruleId? "project").any (addsNothing t)) = true := by
  decide +kernel

/-- In the language one token decides, and projects are written with it. -/
theorem exists_separates {table : GrammarTable} (h : grammar = .ok table) :
    table.Separates leftOut (endingsIn table) (addsNothing table) ∧
      ∃ id, table.ruleId? "project" = some id ∧ addsNothing table id = true := by
  have found := of_satisfies check_separate h
  have checked := Bool.and_eq_true_iff.mp found
  refine ⟨GrammarTable.separates_of_check (fun i known => ?_)
    (fun id token right => LiveGrammar.exclusive_of_looksRight h id right), ?_⟩
  · exact List.all_eq_true.mp checked.1 i (List.mem_range.mpr known)
  · exact (Option.any_eq_true _ _).mp checked.2

open Matcher

/-- The text of a plan is all that is ahead at its start. -/
theorem faces_initial {stream : TokenStream}
    (right : ∀ token ∈ stream.rest, Lexer.looksRight token = true) (file : String)
    (path : Option String) (journal : Log.Journal) :
    (Context.initial (.ofStream stream file path) journal).Faces 0 stream.rest.length
      stream.rest where
  main _ := rfl
  ahead := List.flatMap_singleton ..
  extensions := rfl
  depth := rfl
  short := Nat.le_refl _
  right := right

/-- A text that is a word of the rule for projects, without statements that include files or add
attributes, is refused only for what it says or for nesting too deep. Identifiers look like identifiers,
as in everything that is read from a text (`Lexer.looksRight_of_produces`): one spelt `(` would be taken
for the mark. Fuel runs out only if there are more tokens than any machine can hold. -/
theorem plan_of_word {env : Surroundings} (h : grammar = .ok env.grammar) {id : RuleId}
    (known : env.grammar.ruleId? "project" = some id) {stream : TokenStream}
    (right : ∀ token ∈ stream.rest, Lexer.looksRight token = true)
    (word : (ofTable (env.grammar.without leftOut)).Derives [.rule id] stream.rest)
    (file : String) (path : Option String) (journal : Log.Journal) :
    match (plan env (Context.initial (.ofStream stream file path) journal)).1 with
    | .ok _ => True
    | .error (.error e) =>
      (∃ fault, e.fault = .semantic fault) ∨ e.fault = .maxParseDepth Limits.parseDepth
    | .error .outOfFuel => ampleFuel < Limits.parseDepth + stream.rest.length + 2 := by
  obtain ⟨separates, other, named, inside⟩ := exists_separates h
  obtain rfl : id = other := Option.some.inj (known.symm.trans named)
  obtain ⟨table, made, typed, -⟩ := exists_typed
  obtain rfl : table = env.grammar := Except.ok.inj (made.symm.trans h)
  have sound := Context.sound_initial env.grammar (.ofStream stream file path) journal
  have whole := faces_initial right file path journal
  generalize Context.initial (.ofStream stream file path) journal = c at sound whole ⊢
  have faces : c.Faces 0 stream.rest.length (stream.rest ++ []) := by
    rw [List.append_nil]
    exact whole
  -- behind the word there is the end of the text, which every rule refuses
  have complete : Completes env.grammar leftOut (endingsIn env.grammar) (addsNothing env.grammar)
      (ampleFuel < Limits.parseDepth + stream.rest.length + 2) 0 stream.rest.length
      (matchRule ampleFuel) :=
    passes_matchRule separates fun few => few
  have passes := complete id stream.rest [] env c rfl inside word faces
    (env.grammar.refused_eof _)
  have yields := (matched_matchRule typed ampleFuel).yields id env c rfl sound
  unfold Matcher.Passes at passes
  cases run : matchRule ampleFuel id env c with
  | mk outcome d =>
    rw [run] at passes yields
    cases outcome with
    | error stop =>
      rw [plan, run_bind, run_parseRule known, run]
      cases stop with
      | outOfFuel => exact passes
      | error e =>
        rcases passes with objection | deep
        · -- what is objected to is not the grammar
          cases fault : e.fault with
          | semantic s => exact .inl ⟨s, fault⟩
          | grammar g =>
            have blameless : e.fault.blamesGrammar = false := yields
            rw [fault] at blameless
            cases blameless
          | _ =>
            rw [fault] at objection
            cases objection
        · exact .inr deep
    | ok v =>
      have past : Past 0 stream.rest.length c stream.rest [] d := passes
      have eof : d.tokens.peek.isEof = true := by
        rw [past.faces.peek]
        rfl
      rw [run_plan_of_isEof known run eof]
      cases d.project with
      | none => exact .inl ⟨_, rfl⟩
      | some p => trivial

/-- A plan in which a task is inside another one and has two predecessors. -/
def nestedPlan : TokenStream :=
  plainStream <| yearHeader ++
    [.id "task", .id "work", .string "Work", .mark .leftBrace, .id "task", .id "a", .string "A",
      .mark .leftBrace, .id "depends", .id "b", .mark .comma, .relativeId "!c", .mark .rightBrace,
      .mark .rightBrace, .id "flags", .id "late", .eof]

/-- The plan is read to its end by rules that neither include files nor add attributes. -/
theorem run_nestedPlan :
    satisfies (fun t =>
      (t.without ["include", "extend", "date", "reference", "text"]).isSelfContained &&
        (t.ruleId? "project").any fun id =>
          let r := matchRule 64 id
            ⟨t.without ["include", "extend", "date", "reference", "text"], .empty, .default⟩
            (.initial (.ofStream nestedPlan "main.tjp" none) .silent)
          r.1.isOk && r.2.tokens.rest.isEmpty) = true := by
  decide +kernel

/-- The plan is a word of the language. -/
theorem derives_nestedPlan {t : GrammarTable} (h : grammar = .ok t)
    {id : RuleId} (known : t.ruleId? "project" = some id) :
    (ofTable (t.without leftOut)).Derives [.rule id] nestedPlan.rest := by
  have found := of_satisfies run_nestedPlan h
  rw [known, Option.any_some, Bool.and_eq_true] at found
  obtain ⟨selfContained, read⟩ := found
  obtain ⟨ends, nothing⟩ := Bool.and_eq_true_iff.mp read
  obtain ⟨v, d, run⟩ := exists_of_isOk ends
  rw [run] at nothing
  -- the tokens that have been read are a word, and no token of the plan is left
  obtain ⟨text, derived, went⟩ := parses_matchRule
    (LiveGrammar.isSelfContained_ofTable selfContained) 64 id _ _ v d rfl run
  have ahead : nestedPlan.rest ++ [] = text ++ d.tokens.rest := went.reads.rest
  rw [List.isEmpty_iff.mp nothing, List.append_nil, List.append_nil] at ahead
  rw [ahead]
  have fewer : leftOut ⊆ ["include", "extend", "date", "reference", "text"] := by decide
  exact GrammarTable.derives_without fewer derived

/-- Nothing in the plan is objected to, and its rules do not nest too deep. -/
theorem check_nestedPlan :
    satisfies (fun t =>
      match (plan ⟨t, .empty, .default⟩ (Context.initial (.ofStream nestedPlan "main.tjp" none) .silent)).1 with
      | .error (.error e) => !(e.fault.isObjection || e.fault == .maxParseDepth Limits.parseDepth)
      | _ => true) = true := by
  decide +kernel

/-- The plan with a task inside another one makes a project, since there is nothing else for which it could be
refused. -/
theorem plan_of_word_nestedPlan :
    ∃ table id p c, grammar = .ok table ∧ table.ruleId? "project" = some id ∧
      (∀ token ∈ nestedPlan.rest, Lexer.looksRight token = true) ∧
      (ofTable (table.without leftOut)).Derives [.rule id] nestedPlan.rest ∧
      plan ⟨table, .empty, .default⟩ (Context.initial (.ofStream nestedPlan "main.tjp" none) .silent) =
        (.ok p, c) := by
  obtain ⟨table, made, -, id, known⟩ := exists_typed
  have right : ∀ token ∈ nestedPlan.rest, Lexer.looksRight token = true := by decide
  have word := derives_nestedPlan made known
  have result := @plan_of_word ⟨table, .empty, .default⟩ made id known nestedPlan right word
    "main.tjp" none .silent
  have accepted := of_satisfies check_nestedPlan made
  cases run : plan ⟨table, .empty, .default⟩
      (Context.initial (.ofStream nestedPlan "main.tjp" none) .silent) with
  | mk outcome c =>
    rw [run] at result accepted
    cases outcome with
    | ok p => exact ⟨table, id, p, c, made, known, right, word, run⟩
    | error stop =>
      cases stop with
      | outOfFuel =>
        have enough : ¬ampleFuel < Limits.parseDepth + nestedPlan.rest.length + 2 := by decide
        exact absurd result enough
      | error e =>
        rcases result with ⟨fault, objected⟩ | deep
        · simp [objected, ParseFault.isObjection] at accepted
        · simp [deep] at accepted

end Language

end Planfile
