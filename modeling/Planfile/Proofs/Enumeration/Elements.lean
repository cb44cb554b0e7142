import Planfile.Proofs.Extension.Hosted
import Planfile.Proofs.Grammar.Validation
import Planfile.Proofs.Termination.Lookahead

/-!
# Planfile — the elements of a list

A list of elements is declared as two rules: one for the first element and one that is repeated for the
others. The values of the others come out of the repetition as a list of its own, if there are any, and
are put behind that of the first one. So the list of the whole has to be neither one level too deep nor
one too flat, whether an element has no value or is itself a list.

Nothing is asked of the rest of the grammar. A plan may make it grow while elements are read, but not in
the rule that is repeated: plans add to the rules for attributes only, and none of these has its name.

Main results:

* `Matcher.elements_of_run_matchRepeatedly` — what is repeated are further elements.
* `Matcher.elements_of_list` — the value of a list are those of its elements, in their order.
-/

namespace Planfile

/-! ## Lists in a grammar -/

/-- How the elements of a list are put behind each other. -/
inductive ListForm where
  | plain
  | commas
  deriving DecidableEq

namespace ListForm

/-- The declaration of a list. -/
def declarations : ListForm → String → String → List RuleDeclaration
  | plain, name, element => RuleDeclaration.listOf name element
  | commas, name, element => RuleDeclaration.commaListOf name element

/-- What stands in front of each element but the first. -/
def separator : ListForm → List Symbol
  | plain => []
  | commas => [.literal ","]

/-- The symbol by which a list goes on. -/
def onward : ListForm → Symbol → Symbol
  | plain, element => element
  | commas, _ => .literal ","

end ListForm

open RuleDeclaration (moreName)

/-- The name of the rule that is repeated starts in one way. -/
theorem moreName_eq (name : String) : ∃ rest, (moreName name).toList = 'm' :: rest := by
  unfold moreName
  split
  · exact ⟨"ore".toList, rfl⟩
  · next c rest _ => exact ⟨"ore".toList ++ c.toUpper :: rest, by simp [String.toList_append]⟩

/-- No rule for attributes is one that is repeated for a list. -/
theorem GrammarTable.not_isExtendable_more {t : GrammarTable} {name : String} {more : RuleId}
    (h : (t.rule more).name = moreName name) : ¬t.IsExtendable more := by
  rintro ⟨other, listed, known⟩
  obtain ⟨rest, start⟩ := moreName_eq name
  rw [← h, name_of_ruleId? known] at start
  simp only [extendableNames, List.mem_cons, List.not_mem_nil, or_false] at listed
  rcases listed with rfl | rfl | rfl | rfl <;> simp at start

/-- The rules that a list is declared as. -/
structure GrammarTable.HasList (t : GrammarTable) (form : ListForm) (name : String) (element : Symbol)
    (id more : RuleId) : Prop where
  first : t.rule id = ⟨name, [⟨[element, .rule more], some .collect⟩], false, false⟩
  further : t.rule more =
    ⟨moreName name, [⟨form.separator ++ [element], some (.value form.separator.length)⟩], true, true⟩

namespace GrammarTable

/-- The rule of a declaration with one alternative that has symbols. -/
theorem rule_eq_of_resolve {ds : List RuleDeclaration} {t : GrammarTable} (h : resolve ds = .ok t)
    {name : String} {p : PatternDeclaration} {optional repeatable : Bool}
    (declared : ⟨name, [p], optional, repeatable⟩ ∈ ds) {id : RuleId} (known : t.ruleId? name = some id) :
    ∃ symbols, t.rule id = ⟨name, [⟨symbols, p.action⟩], optional, repeatable⟩ ∧
      List.Forall₂ (fun text s => t.symbol text = .ok s) p.symbols symbols := by
  obtain ⟨id', number, -, resolved⟩ := resolveRule_of_mem h declared
  obtain rfl : id' = id := by
    rw [ruleId?_of_resolve h] at known
    exact Option.some.inj (number.symm.trans known)
  obtain ⟨-, ⟨named, opt, rep⟩, patterns⟩ := resolveRule_eq_ok_iff.mp resolved
  have find : RuleDeclaration.number? ds = t.ruleId? := funext fun n => (ruleId?_of_resolve h n).symm
  -- the patterns are those of the one alternative
  generalize t.rule id' = r at *
  obtain ⟨rname, rpatterns, ropt, rrep⟩ := r
  dsimp only at named opt rep patterns
  subst named opt rep
  obtain ⟨⟨qs, qa⟩, others, one, none, rfl⟩ := List.forall₂_cons_left_iff.mp patterns
  obtain rfl := List.forall₂_nil_left_iff.mp none
  obtain ⟨-, action, symbols⟩ := resolvePattern_eq_ok_iff.mp one
  dsimp only at action symbols
  subst action
  refine ⟨qs, rfl, symbols.imp fun text s resolves => ?_⟩
  obtain ⟨spec, spelt, stands⟩ := resolveSymbol_eq_ok_iff.mp resolves
  exact resolveSymbol_eq_ok_iff.mpr ⟨spec, spelt, find ▸ stands⟩

/-- A list that is declared is in the table. -/
theorem hasList_of_resolve {before behind : List RuleDeclaration} {form : ListForm}
    {name text : String} {t : GrammarTable}
    (h : resolve (before ++ form.declarations name text ++ behind) = .ok t) {id : RuleId}
    (known : t.ruleId? name = some id) :
    ∃ element more, t.symbol text = .ok element ∧ t.HasList form name element id more := by
  -- the rule for the first element refers to the other one by its name
  have first : RuleDeclaration.once name [.acting [text, "!" ++ moreName name] .collect] ∈
      before ++ form.declarations name text ++ behind := by
    cases form <;> simp [ListForm.declarations, RuleDeclaration.listOf, RuleDeclaration.commaListOf,
      RuleDeclaration.elements]
  obtain ⟨symbols, rule, resolved⟩ := rule_eq_of_resolve h first known
  obtain ⟨element, rest, stands, others, rfl⟩ := List.forall₂_cons_left_iff.mp resolved
  obtain ⟨reference, none, refers, nothing, rfl⟩ := List.forall₂_cons_left_iff.mp others
  obtain rfl := List.forall₂_nil_left_iff.mp nothing
  have full : moreName name ≠ "" := fun none => by
    obtain ⟨chars, start⟩ := moreName_eq name
    rw [none] at start
    cases start
  obtain ⟨spec, spelt, referred⟩ := resolveSymbol_eq_ok_iff.mp refers
  rw [SymbolSpec.ofText?_rule full] at spelt
  cases spelt
  obtain ⟨more, named, rfl⟩ := referred
  refine ⟨element, more, stands, rule, ?_⟩
  cases form with
  | plain =>
    have further : RuleDeclaration.anyNumber (moreName name) [.acting [text] (.value 0)] ∈
        before ++ ListForm.plain.declarations name text ++ behind := by
      simp [ListForm.declarations, RuleDeclaration.listOf, RuleDeclaration.elements]
    obtain ⟨symbols, rule, resolved⟩ := rule_eq_of_resolve h further named
    obtain ⟨again, rest, stands', nothing, rfl⟩ := List.forall₂_cons_left_iff.mp resolved
    obtain rfl := List.forall₂_nil_left_iff.mp nothing
    obtain rfl : element = again := Except.ok.inj (stands.symm.trans stands')
    exact rule
  | commas =>
    have further : RuleDeclaration.anyNumber (moreName name) [.acting ["_,", text] (.value 1)] ∈
        before ++ ListForm.commas.declarations name text ++ behind := by
      simp [ListForm.declarations, RuleDeclaration.commaListOf, RuleDeclaration.elements]
    obtain ⟨symbols, rule, resolved⟩ := rule_eq_of_resolve h further named
    obtain ⟨comma, rest, separates, others, rfl⟩ := List.forall₂_cons_left_iff.mp resolved
    obtain ⟨again, rest, stands', nothing, rfl⟩ := List.forall₂_cons_left_iff.mp others
    obtain rfl := List.forall₂_nil_left_iff.mp nothing
    obtain rfl : element = again := Except.ok.inj (stands.symm.trans stands')
    rw [show "_," = "_" ++ "," by decide +kernel, symbol_literal t (by decide)] at separates
    cases separates
    exact rule

end GrammarTable

/-! ## Elements -/

/-- Whether two states differ at most in how deep rules are nested, where a repetition has stopped and
what is in the journal. -/
def Context.Beside (c d : Context) : Prop := ∃ depth stop journal, d = { c with depth, stop, journal }

theorem Context.Beside.refl (c : Context) : c.Beside c := ⟨_, _, _, rfl⟩

theorem Context.Beside.trans {c d e : Context} (h : c.Beside d) (h' : d.Beside e) : c.Beside e := by
  obtain ⟨_, _, _, rfl⟩ := h
  obtain ⟨_, _, _, rfl⟩ := h'
  exact ⟨_, _, _, rfl⟩

namespace Matcher

variable {env : Surroundings} {form : ListForm} {element : Symbol} {name : String} {id more : RuleId}

/-- Whether a list has gone on from one state to another: in front of an element there is nothing, or
there has been a comma. -/
def GoesOn (env : Surroundings) : ListForm → Context → Context → Prop
  | .plain, c, d => c.Beside d
  | .commas, c, d => ∃ x, c.Beside x ∧ x.tokens.peek.matchesLiteral "," = true ∧ d = x.next env

/-- Whether some elements have been matched one after the other, from one state to another. -/
inductive Elements (env : Surroundings) (form : ListForm) (element : Symbol) :
    Context → List MatchedValue → Context → Prop
  | first {c x d : Context} {fuel : Nat} {item : MatchedValue} (start : c.Beside x)
    (matched : matchSymbol (matchRule fuel) element env x = (.ok item, d)) :
    Elements env form element c [item] d
  | further {c x y d : Context} {fuel : Nat} {items : List MatchedValue} {item : MatchedValue}
    (front : Elements env form element c items x) (goesOn : GoesOn env form x y)
    (matched : matchSymbol (matchRule fuel) element env y = (.ok item, d)) :
    Elements env form element c (items ++ [item]) d

/-- The values of some elements; an element without value is left out. -/
def valuesOf (items : List MatchedValue) : List Value := items.filterMap (·.value?)

/-- Whether the next token cannot continue a list. -/
def CannotGoOn (env : Surroundings) (form : ListForm) (element : Symbol) (c : Context) : Prop :=
  (LiveGrammar.mk env.grammar c.extensions).symbolAccepts c.tokens.peek Limits.firstSetDepth
    (form.onward element) = .ok false

/-- A further element is matched behind what stands in front of it, and its value is that of the
match. -/
theorem exists_of_run_further {matchRule : RuleId → Matcher (Option Value)} {c d : Context}
    {v : Option Value} (run : matchPattern matchRule
      ⟨form.separator ++ [element], some (.value form.separator.length)⟩ env c = (.ok v, d)) :
    ∃ x y item, GoesOn env form c x ∧ matchSymbol matchRule element env x = (.ok item, y) ∧
      y.Beside d ∧ v = item.value? := by
  rw [run_matchPattern] at run
  obtain ⟨items, e, matched, done⟩ := exists_of_run_bind run
  obtain ⟨journal, same⟩ := exists_run_performed (p := ⟨form.separator ++ [element],
    some (.value form.separator.length)⟩) matchRule rfl c.tokens.location items env e
  rw [same, Action.perform_value] at done
  cases done
  cases form with
  | plain =>
    obtain ⟨item, x, first, nothing⟩ := exists_of_run_bind matched
    cases nothing
    exact ⟨c, _, item, .refl c, first, ⟨_, _, _, rfl⟩, rfl⟩
  | commas =>
    obtain ⟨comma, x, separates, others⟩ := exists_of_run_bind matched
    obtain ⟨accepts, -, rfl⟩ := eq_of_run_terminal matchRule (a := .literal ",") rfl separates
    obtain ⟨rest, later, rfl⟩ := exists_of_run_map (by rwa [bind_pure_comp] at others)
    obtain ⟨item, y, second, nothing⟩ := exists_of_run_bind later
    cases nothing
    exact ⟨_, _, item, ⟨c, .refl c, accepts, rfl⟩, second, ⟨_, _, _, rfl⟩, rfl⟩

/-- In the rule that is repeated there is one alternative only. -/
theorem patterns_more (list : env.grammar.HasList form name element id more) {c : Context}
    (hosted : c.Hosted env.grammar) : (LiveGrammar.mk env.grammar c.extensions).patterns more =
      [⟨form.separator ++ [element], some (.value form.separator.length)⟩] := by
  have named : (env.grammar.rule more).name = RuleDeclaration.moreName name := by rw [list.further]
  rw [hosted.patterns_eq (GrammarTable.not_isExtendable_more named), list.further]

/-- An element is a further one if it stands where the list has gone on. -/
theorem Elements.onward {start x c y z : Context} {front : List MatchedValue} {item : MatchedValue} {fuel : Nat}
    (before : Elements env form element start front x) (beside : x.Beside c) (goesOn : GoesOn env form c y)
    (matched : matchSymbol (matchRule fuel) element env y = (.ok item, z)) :
    Elements env form element start (front ++ [item]) z := by
  refine .further before ?_ matched
  cases form with
  | plain => exact beside.trans goesOn
  | commas =>
    obtain ⟨w, near, comma, rfl⟩ := goesOn
    exact ⟨w, beside.trans near, comma, rfl⟩

/-- What is repeated are further elements. Their values come last to first in front of those of before,
and the repetition ends where the next token cannot continue the list. -/
theorem elements_of_run_matchRepeatedly (list : env.grammar.HasList form name element id more)
    {start c d : Context} {front : List MatchedValue} {x : Context}
    (before : Elements env form element start front x) (beside : x.Beside c)
    (hosted : c.Hosted env.grammar) {n fuel : Nat} {mayStop : Bool} {values all : List Value}
    (run : matchRepeatedly (matchRule n) more mayStop fuel values env c = (.ok all, d)) :
    ∃ items y, Elements env form element start (front ++ items) y ∧ y.Beside d ∧
      CannotGoOn env form element d ∧ all = (valuesOf items).reverse ++ values := by
  -- by induction on the number of times that the rule may still be repeated
  induction fuel generalizing front x c mayStop values with
  | zero => cases run
  | succ fuel ih =>
    rcases cases_of_run_matchRepeatedly run with
      ⟨e, choice, rfl, rfl, rfl⟩ | ⟨p, e, v, f, choice, matched, -, rest⟩
    · obtain ⟨rfl, refuses⟩ := refused_of_run_choose choice
      rw [patterns_more list hosted] at refuses
      have refused := refuses _ (List.mem_singleton_self _)
      refine ⟨[], x, by rwa [List.append_nil], beside.trans ⟨_, _, _, rfl⟩, ?_, rfl⟩
      cases form <;> exact refused
    · obtain ⟨⟨journal, rfl⟩, among⟩ := exists_of_run_choose choice
      have alternative := among p rfl
      rw [patterns_more list hosted, List.mem_singleton] at alternative
      subst alternative
      obtain ⟨y, z, item, goesOn, element', behind, rfl⟩ := exists_of_run_further matched
      have still : f.Hosted env.grammar :=
        (stepwise_hosted env).of_run_matchPattern
          (stepwise_hosted env).of_run_matchRule matched (hosted.of_eq rfl rfl)
      -- this element belongs to the front of the others, and its value comes behind theirs, as the latest is first
      obtain ⟨items, w, whole, near, ends, rfl⟩ :=
        ih (before.onward (beside.trans ⟨_, _, _, rfl⟩) goesOn element') behind still rest
      refine ⟨item :: items, w, by simpa using whole, near, ends, ?_⟩
      rw [valuesOf, valuesOf, List.filterMap_cons]
      cases item.value? <;> simp

/-- The first alternative of a rule is chosen if it can start with the next token. -/
theorem eq_of_run_choose_of_first {c d : Context} {p : Pattern} {rest : List Pattern}
    {chosen : Option Pattern}
    (patterns : (LiveGrammar.mk env.grammar c.extensions).patterns id = p :: rest)
    (accepts : (LiveGrammar.mk env.grammar c.extensions).patternAccepts c.tokens.peek p = .ok true)
    (choice : choose id env c = (.ok chosen, d)) : chosen = some p := by
  obtain ⟨found, -, answer, rfl, -⟩ := exists_candidates_of_run_choose choice
  rw [LiveGrammar.candidates, patterns, LiveGrammar.accepting, accepts] at answer
  -- the others may have an answer of their own, but they come behind
  cases others : (LiveGrammar.mk env.grammar c.extensions).accepting c.tokens.peek rest with
  | error e =>
    rw [others] at answer
    cases answer
  | ok more =>
    rw [others] at answer
    cases answer
    rfl

/-- Whether a list is matched by its own alternative: a plan has added no other one to its rule, or the
next token can start an element. -/
def OwnStart (env : Surroundings) (id : RuleId) (element : Symbol) (c : Context) : Prop :=
  (∀ e ∈ c.extensions, e.1 ≠ id) ∨
    (LiveGrammar.mk env.grammar c.extensions).symbolAccepts c.tokens.peek Limits.firstSetDepth element =
      .ok true

/-- A list is matched by the alternative that it has been declared with. -/
theorem eq_of_run_choose_list (list : env.grammar.HasList form name element id more) {c d : Context}
    (own : OwnStart env id element c) {p : Pattern} (choice : choose id env c = (.ok (some p), d)) :
    p = ⟨[element, .rule more], some .collect⟩ := by
  have patterns : (LiveGrammar.mk env.grammar c.extensions).patterns id =
      ⟨[element, .rule more], some .collect⟩ ::
        (LiveGrammar.mk env.grammar c.extensions).addedTo id := by
    rw [LiveGrammar.patterns, list.first]
    rfl
  rcases own with none | starts
  · have nothing : (LiveGrammar.mk env.grammar c.extensions).addedTo id = [] := by
      rw [LiveGrammar.addedTo, List.map_eq_nil_iff, List.filter_eq_nil_iff]
      exact fun e he same => none e he (beq_iff_eq.mp same)
    have among := (exists_of_run_choose choice).2 p rfl
    rw [patterns, nothing] at among
    exact List.mem_singleton.mp among
  · exact Option.some.inj (eq_of_run_choose_of_first patterns starts choice)

/-- Behind the first element, the rule that is repeated matches the others. -/
theorem elements_of_run_more (list : env.grammar.HasList form name element id more)
    {start c d : Context} {front : List MatchedValue} (before : Elements env form element start front c)
    (hosted : c.Hosted env.grammar) {fuel : Nat} {v : Option Value}
    (run : matchRule fuel more env c = (.ok v, d)) :
    ∃ items x, Elements env form element start (front ++ items) x ∧ x.Beside d ∧
      CannotGoOn env form element d ∧ (v.map (·.items)).getD [] = valuesOf items := by
  cases fuel with
  | zero => cases run
  | succ fuel =>
    obtain ⟨-, e, alternatives, rfl⟩ := exists_of_run_matchRule run
    have repeatable : (env.grammar.rule more).repeatable = true := by rw [list.further]
    rw [run_matchAlternatives_of_repeatable repeatable] at alternatives
    obtain ⟨all, repeated, rfl⟩ := exists_of_run_map alternatives
    obtain ⟨items, x, elements, near, ends, rfl⟩ := elements_of_run_matchRepeatedly list before
      (c := { c with depth := c.depth + 1 }) ⟨_, _, _, rfl⟩ (hosted.of_eq rfl rfl) repeated
    refine ⟨items, x, elements, near.trans ⟨_, _, _, rfl⟩, ends, ?_⟩
    rw [items_collected, List.append_nil, List.reverse_reverse]

/-- A list is matched by its first element and by the others, and their values are put together. -/
theorem elements_of_run_pattern (list : env.grammar.HasList form name element id more)
    {start c d : Context} (beside : start.Beside c) (hosted : c.Hosted env.grammar) {fuel : Nat}
    {v : Option Value} (run : matchPattern (matchRule fuel) ⟨[element, .rule more], some .collect⟩ env c =
      (.ok v, d)) :
    ∃ items x, items ≠ [] ∧ Elements env form element start items x ∧ x.Beside d ∧
      CannotGoOn env form element d ∧ v = some (.list (valuesOf items)) := by
  rw [run_matchPattern] at run
  obtain ⟨items, e, symbols, done⟩ := exists_of_run_bind run
  obtain ⟨item, x, first, others⟩ := exists_of_run_bind symbols
  obtain ⟨rest, later, rfl⟩ := exists_of_run_map (by rwa [bind_pure_comp] at others)
  obtain ⟨reference, y, repeated, nothing⟩ := exists_of_run_bind later
  cases nothing
  obtain ⟨u, repeats, rfl⟩ := exists_of_run_map (by rwa [matchSymbol, bind_pure_comp] at repeated)
  have kept : x.Hosted env.grammar :=
    (stepwise_hosted env).of_run_matchSymbol (stepwise_hosted env).of_run_matchRule first hosted
  obtain ⟨items, z, elements, near, ends, collects⟩ :=
    elements_of_run_more list (.first beside first) kept repeats
  obtain ⟨journal, same⟩ := exists_run_performed (p := ⟨[element, .rule more], some .collect⟩)
    (matchRule fuel) rfl c.tokens.location [item, .rule u] env e
  rw [same] at done
  cases done
  refine ⟨item :: items, z, List.cons_ne_nil _ _, elements, near.trans ⟨_, _, _, rfl⟩, ends, ?_⟩
  -- the action takes the list of the others apart, but no value inside of it
  have values : valuesOf (item :: items) = item.value?.toList ++ valuesOf items := by
    rw [valuesOf, List.filterMap_cons]
    cases item.value? <;> rfl
  rw [values, ← collects]
  rfl

/-- Where a list has been matched, elements of it have been matched one after the other, in the order of
the text, and its value is the list of their values. Elements without value are left out, and one whose
value is itself a list is one item. The list ends where the next token cannot continue it. -/
theorem elements_of_list {text : String} {before behind : List RuleDeclaration}
    (built : GrammarTable.build (before ++ form.declarations name text ++ behind) = .ok env.grammar)
    (known : env.grammar.ruleId? name = some id) (stands : env.grammar.symbol text = .ok element)
    {c d : Context} (hosted : c.Hosted env.grammar) (own : OwnStart env id element c) {fuel : Nat}
    {v : Option Value} (run : matchRule fuel id env c = (.ok v, d)) :
    ∃ items x, items ≠ [] ∧ Elements env form element c items x ∧ x.Beside d ∧
      CannotGoOn env form element d ∧ v = some (.list (valuesOf items)) := by
  obtain ⟨element', more, stands', list⟩ :=
    GrammarTable.hasList_of_resolve (GrammarTable.build_eq_ok_iff.mp built).1 known
  obtain rfl : element = element' := Except.ok.inj (stands.symm.trans stands')
  cases fuel with
  | zero => cases run
  | succ fuel =>
    obtain ⟨-, e, alternatives, rfl⟩ := exists_of_run_matchRule run
    have single : (env.grammar.rule id).repeatable = false := by rw [list.first]
    have required : (env.grammar.rule id).optional = false := by rw [list.first]
    rcases cases_of_run_matchAlternatives alternatives with
      ⟨repeatable, -⟩ | ⟨-, optional, -⟩ | ⟨-, p, x, choice, matched⟩
    -- the rule for a list is neither repeated nor absent
    · rw [single] at repeatable
      cases repeatable
    · rw [required] at optional
      cases optional
    · obtain rfl := eq_of_run_choose_list list (c := { c with depth := c.depth + 1 }) own choice
      obtain ⟨⟨journal, noted⟩, -⟩ := exists_of_run_choose choice
      have beside : c.Beside x := ⟨_, _, _, noted⟩
      have still : x.Hosted env.grammar := noted ▸ hosted.of_eq rfl rfl
      obtain ⟨items, y, some, elements, near, ends, value⟩ :=
        elements_of_run_pattern list beside still matched
      exact ⟨items, y, some, elements, near.trans ⟨_, _, _, rfl⟩, ends, value⟩

/-- Entries, of which one kind has no value and another one a list of numbers. -/
def entryForms : List RuleDeclaration :=
  .once "entry" [.sequence ["_-"], .acting ["_(", "!numbers", "_)"] (.value 1), .single "$ID"] ::
    RuleDeclaration.listOf "numbers" "$INTEGER"

/-- An entry of each kind, with commas between them, and something else behind. -/
def threeEntries : Context :=
  .initial (.ofStream (plainStream [.id "a", .mark .comma, .mark .minus, .mark .comma, .mark .leftParen,
    .integer 1, .integer 2, .mark .rightParen, .id "behind"]) "entries.tjp" none) .silent

/-- The entries are matched: one has no value, and the list of another one is an item. -/
theorem run_threeEntries :
    (GrammarTable.build (entryForms ++ ListForm.commas.declarations "entries" "!entry" ++ [])).toOption.any
      (fun t => t.ruleId? "entries" == some ⟨4⟩ && (t.symbol "!entry").toOption == some (.rule ⟨0⟩) &&
        match (matchRule 12 ⟨4⟩ ⟨t, .empty, .default⟩ threeEntries).1 with
        | .ok (some (.list [.str "a", .list [.int 1, .int 2]])) => true
        | _ => false) = true := by
  decide +kernel

/-- Each value of the list is that of an entry, in the order of the text. -/
theorem elements_of_list_entries :
    ∃ t items x d, GrammarTable.build (entryForms ++ ListForm.commas.declarations "entries" "!entry" ++ []) =
        .ok t ∧
      matchRule 12 ⟨4⟩ ⟨t, .empty, .default⟩ threeEntries =
        (.ok (some (.list [.str "a", .list [.int 1, .int 2]])), d) ∧
      Elements ⟨t, .empty, .default⟩ .commas (.rule ⟨0⟩) threeEntries items x ∧
      valuesOf items = [.str "a", .list [.int 1, .int 2]] := by
  have found := run_threeEntries
  cases built : GrammarTable.build
      (entryForms ++ ListForm.commas.declarations "entries" "!entry" ++ []) with
  | error e =>
    rw [built] at found
    cases found
  | ok t =>
    rw [built] at found
    simp only [Except.toOption, Option.any_some, Bool.and_eq_true, beq_iff_eq] at found
    obtain ⟨⟨known, stands⟩, ends⟩ := found
    have resolved : t.symbol "!entry" = .ok (.rule ⟨0⟩) := eq_ok_of_toOption stands
    cases run : matchRule 12 ⟨4⟩ ⟨t, .empty, .default⟩ threeEntries with
    | mk outcome d =>
      rw [run] at ends
      dsimp only at ends
      split at ends
      · obtain ⟨items, x, -, elements, -, -, value⟩ := @elements_of_list ⟨t, .empty, .default⟩ _ _ _ _ _ _ _
          built known resolved threeEntries d (Context.hosted_initial t _ _) (.inl fun e he => by cases he) 12 _ run
        exact ⟨t, items, x, d, rfl, run, elements, (Value.list.inj (Option.some.inj value)).symm⟩
      · cases ends

end Matcher

end Planfile
