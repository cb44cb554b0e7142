import Planfile.Proofs.Statement.Spelling

/-!
# Planfile — how allocations are read

A statement about allocations names resources, each with terms in braces: alternatives to it, how one of them
is selected, and whether the choice is persistent and mandatory. What a term says reaches the allocation as a
word, a pair or a list, and a value of another shape would be passed over. Here it is shown what the text of a
statement says, that the values of its terms have the right shapes, and that none of them is lost.

Main results:

* `Plan.AllocationStatement.allocationOf_values` — all terms count, in whatever order they are.
* `spells_resourceAllocation` — a resource with its terms is read as the allocation that it says.
* `Course.of_isAllocate` — a statement adds the allocations that it lists, in their order.
-/

namespace Planfile

open Matcher
open Plan (Allocation SelectionMode)

/-! ## What is said -/

namespace Plan

/-- What is said about an allocated resource. -/
inductive AllocationTerm where
  | alternative (resources : List String)
  | select (mode : SelectionMode)
  | persistent
  | mandatory
  deriving DecidableEq, Repr

namespace AllocationTerm

/-- The resources that a term names. -/
def resources : AllocationTerm → List String
  | .alternative resources => resources
  | _ => []

/-- The mode that a term selects. -/
def mode? : AllocationTerm → Option SelectionMode
  | .select mode => some mode
  | _ => none

/-- The value as which a term is read. -/
def value : AllocationTerm → Value
  | .alternative resources => .pair (.str "alternative") (.list (resources.map .str))
  | .select mode => .pair (.str "select") (.str mode.word)
  | .persistent => .str "persistent"
  | .mandatory => .str "mandatory"

end AllocationTerm

/-- A resource with what is said about it. -/
structure AllocationStatement where
  resource : String
  terms : List AllocationTerm
  deriving DecidableEq, Repr

/-- The allocation that is said: candidates are the resource and all alternatives to it, the last mode counts,
and it is enough that one term makes the choice persistent or mandatory. -/
def AllocationStatement.allocation (s : AllocationStatement) : Allocation where
  candidates := s.resource :: s.terms.flatMap (·.resources)
  mode := (s.terms.filterMap (·.mode?)).getLast?.getD .minLoaded
  persistent := .persistent ∈ s.terms
  mandatory := .mandatory ∈ s.terms

end Plan

open Plan (AllocationTerm AllocationStatement)

/-- How a resource is named. -/
inductive ResourceWritten : String → List Token → Prop
  | id (name : String) : ResourceWritten name [.id name]

namespace Plan

/-- How a term is written. -/
inductive AllocationTerm.Written : AllocationTerm → List Token → Prop
  | alternative {resources : List String} {text : List Token} (listed : Listed ResourceWritten resources text) :
    Written (.alternative resources) (.id "alternative" :: text)
  | select (mode : SelectionMode) : Written (.select mode) [.id "select", .id mode.word]
  | persistent : Written .persistent [.id "persistent"]
  | mandatory : Written .mandatory [.id "mandatory"]

/-- How terms are written: between braces, if there are any. -/
inductive TermsWritten : List AllocationTerm → List Token → Prop
  | absent : TermsWritten [] []
  | braces {terms : List AllocationTerm} {text : List Token} {first last : Token}
    (isFirst : first.matchesLiteral "\x7b" = true) (strung : Strung AllocationTerm.Written terms text)
    (isLast : last.matchesLiteral "\x7d" = true) : TermsWritten terms (first :: (text ++ [last]))

/-- How a resource with its terms is written. -/
inductive AllocationStatement.Written : AllocationStatement → List Token → Prop
  | statement {resource : String} {terms : List AllocationTerm} {first second : List Token}
    (named : ResourceWritten resource first) (said : TermsWritten terms second) :
    Written ⟨resource, terms⟩ (first ++ second)

/-- How a statement about allocations is written. -/
inductive AllocationsWritten : List AllocationStatement → List Token → Prop
  | allocate {statements : List AllocationStatement} {text : List Token}
    (listed : Listed AllocationStatement.Written statements text) :
    AllocationsWritten statements (.id "allocate" :: text)

end Plan

/-! ## What becomes of the values -/

namespace Plan

/-- A mode is found by its word. -/
theorem SelectionMode.ofWord?_word (mode : SelectionMode) : ofWord? mode.word = some mode := by
  cases mode <;> decide

/-- A word that stands for a mode is the one of the mode. -/
theorem SelectionMode.eq_word_of_ofWord? {word : String} {mode : SelectionMode} (h : ofWord? word = some mode) :
    word = mode.word := by
  unfold ofWord? at h
  have found := List.find?_some h
  exact (beq_iff_eq.mp found).symm

end Plan

/-- The strings of a list of strings are all of them. -/
theorem strings_map_str (texts : List String) : strings (texts.map .str) = texts := by
  rw [strings, List.filterMap_map]
  exact List.filterMap_some

/-- Terms add to what has been said before them. -/
theorem foldl_allocationWith (terms : List AllocationTerm) (a : Allocation) :
    (terms.map (·.value)).foldl allocationWith a =
      ⟨a.candidates ++ terms.flatMap (·.resources), (terms.filterMap (·.mode?)).getLast?.getD a.mode,
        a.persistent || decide (.persistent ∈ terms), a.mandatory || decide (.mandatory ∈ terms)⟩ := by
  induction terms generalizing a with
  | nil => simp
  | cons term terms ih =>
    rw [List.map_cons, List.foldl_cons, ih]
    cases term with
    | alternative resources =>
      simp [allocationWith, AllocationTerm.value, AllocationTerm.resources, AllocationTerm.mode?, strings_map_str]
    | select mode =>
      -- a mode behind it counts, and else it does itself
      simp [allocationWith, AllocationTerm.value, AllocationTerm.resources, AllocationTerm.mode?,
        SelectionMode.ofWord?_word, List.getLast?_cons]
    | persistent | mandatory =>
      simp [allocationWith, AllocationTerm.value, AllocationTerm.resources, AllocationTerm.mode?]

/-- No term is passed over: the allocation that is made of their values is the one that is said. -/
theorem Plan.AllocationStatement.allocationOf_values (s : AllocationStatement) :
    allocationOf s.resource (s.terms.map (·.value)) = s.allocation := by
  rw [allocationOf, foldl_allocationWith]
  simp [allocation]

/-! ## Forms of rules -/

open GrammarTable (isForm)

namespace GrammarTable

variable (t : GrammarTable) (id : RuleId)

/-- Whether a rule is for the name of a resource. -/
def isResourceId : Bool :=
  t.isSingle id && (t.rule id).patterns.all (· == ⟨[.tokenClass .id], some (.property .resourceId)⟩)

/-- Whether an alternative is for a term. -/
def isTerm (p : Pattern) : Bool :=
  isForm [.terminal (.literal "alternative"), .rule (t.isCommaList t.isResourceId)] (.property .alternatives) p ||
    p == ⟨[.literal "select", .tokenClass .id], some (.property .selectMode)⟩ ||
    p == ⟨[.literal "persistent"], some (.value 0)⟩ || p == ⟨[.literal "mandatory"], some (.value 0)⟩

/-- Whether a rule is for terms in braces, if there are any. -/
def isTerms : Bool :=
  t.isMaybe (isForm [.terminal (.literal "\x7b"), .rule (t.isRepeated t.isTerm), .terminal (.literal "\x7d")]
    (.value 1)) id

/-- Whether a rule is for a resource with its terms. -/
def isResourceAllocation : Bool :=
  t.isSingle id && (t.rule id).patterns.all
    (isForm [.rule t.isResourceId, .rule t.isTerms] (.property .allocation))

/-- Whether an alternative is for statements about allocations. -/
def isAllocate (p : Pattern) : Bool :=
  isForm [.terminal (.literal "allocate"), .rule (t.isCommaList t.isResourceAllocation)] (.property .allocate) p

end GrammarTable

/-! ## Resources and terms -/

section
variable {ofRule : RuleId → Shape} {effects : Effects} {env : Surroundings} {c d : Context} {id : RuleId}

/-- A resource is read by its name. -/
theorem spells_resourceId (h : env.grammar.isResourceId id = true) :
    Spells ofRule effects env id ResourceWritten fun name => some (.str name) := by
  intro c v d course
  obtain ⟨p, noted, x, form, rfl, mem, inner⟩ := course.of_single h
  obtain rfl := beq_iff_eq.mp form
  have terminals : [Symbol.tokenClass .id].map (·.terminal?) = [Terminal.tokenClass .id].map some := rfl
  obtain ⟨text, tokens, journal, matchRule, fits, reads, -, acted⟩ := inner.of_terminalPattern rfl terminals
  have word (added : List (RuleId × Pattern)) : LiveGrammar.Derives ⟨env.grammar, added⟩ [.rule id] text :=
    .alternative (mem added) (.of_terminals terminals fits)
  rcases fits with _ | ⟨isName, ⟨⟩⟩
  obtain ⟨name, rfl⟩ := Token.exists_of_class?_id (by simpa [Terminal.accepts] using isName)
  have ends : Ends (fun o d => o = some (.str name) ∧
      d = { c with tokens, journal, depth := c.depth + 1 })
      (PropertyAction.resourceId.perform ⟨[.token (.id name)], c.tokens.location⟩) env
      { c with tokens, journal, depth := c.depth + 1 } := by
    simp [PropertyAction.perform, Values.string, Values.typed, Values.value?, Values.get?, MatchedValue.value?,
      Value.ofToken?, Value.str?]
  obtain ⟨rfl, rfl⟩ := ends.of_ok acted
  exact ⟨name, _, .id name, rfl, ⟨reads, _, _, _, _, rfl⟩, word⟩

/-- An alternative that is one word is read as this word. -/
theorem Pattern.spells_literal {α : Type} {word : String} (isWord : Terminal.isWord word = true) {x : α}
    {writes : α → List Token → Prop} (written : writes x [.id word]) {value : α → Option Value}
    (said : value x = some (.str word)) :
    Pattern.Spells ofRule effects env ⟨[.literal word], some (.value 0)⟩ writes value := by
  intro c v d course
  have terminals : [Symbol.literal word].map (·.terminal?) = [Terminal.literal word].map some := rfl
  obtain ⟨text, tokens, journal, matchRule, fits, reads, -, acted⟩ := course.of_terminalPattern rfl terminals
  have derives (added : List (RuleId × Pattern)) : LiveGrammar.Derives ⟨env.grammar, added⟩
      [.literal word] text := .of_terminals terminals fits
  rcases fits with _ | ⟨isKeyword, ⟨⟩⟩
  obtain rfl := Token.eq_of_matchesLiteral isKeyword isWord
  cases acted
  exact ⟨x, _, written, said.symm, ⟨reads, _, _, c.depth, c.stop, rfl⟩, derives⟩

/-- A term is read as what it says. -/
theorem spells_term {p : Pattern} (h : env.grammar.isTerm p = true) :
    p.Spells ofRule effects env AllocationTerm.Written fun term => some term.value := by
  intro c v d course
  simp only [GrammarTable.isTerm, Bool.or_eq_true, beq_iff_eq, or_assoc] at h
  rcases h with alternative | rfl | rfl | rfl
  · obtain ⟨_, rfl, fits⟩ := GrammarTable.exists_of_isForm alternative
    rcases fits with _ | ⟨keyword, _ | ⟨list, ⟨⟩⟩⟩
    obtain rfl := Piece.eq_of_fits keyword
    obtain ⟨other, rfl, isList⟩ := Piece.exists_of_fits list
    obtain ⟨items, y, journal, matchRule, symbols, -, acted⟩ := course.of_acting rfl
    cases symbols with
    | terminal hs isKeyword rest =>
      cases hs
      cases rest with
      | terminal hs => cases hs
      | reference course rest =>
        cases rest
        obtain ⟨resources, text, listed, rfl, reads, word⟩ :=
          Spells.commaList (fun _ => spells_resourceId) (fun _ => rfl) isList course
        have all := (Context.Reads.next isKeyword env).append reads
        have words (added : List (RuleId × Pattern)) : LiveGrammar.Derives ⟨env.grammar, added⟩
            [.literal "alternative", .rule other] (_ :: text) := .terminal rfl isKeyword (word added)
        rw [Token.eq_of_matchesLiteral isKeyword (by decide)] at all words
        cases acted
        exact ⟨.alternative resources, _, .alternative listed, rfl, all.noise journal _ _, words⟩
  · have terminals : [Symbol.literal "select", .tokenClass .id].map (·.terminal?) =
        [Terminal.literal "select", .tokenClass .id].map some := rfl
    obtain ⟨text, tokens, journal, matchRule, fits, reads, -, acted⟩ := course.of_terminalPattern rfl terminals
    have word (added : List (RuleId × Pattern)) : LiveGrammar.Derives ⟨env.grammar, added⟩
        [.literal "select", .tokenClass .id] text := .of_terminals terminals fits
    rcases fits with _ | ⟨isKeyword, _ | ⟨isName, ⟨⟩⟩⟩
    obtain rfl := Token.eq_of_matchesLiteral isKeyword (by decide)
    obtain ⟨name, rfl⟩ := Token.exists_of_class?_id (by simpa [Terminal.accepts] using isName)
    -- a name that is no mode is refused, so the one that has been read is one
    have ends : Ends (fun o d => ∃ mode, name = SelectionMode.word mode ∧
        o = some (AllocationTerm.select mode).value ∧ d = { c with tokens, journal })
        (PropertyAction.selectMode.perform ⟨[.literal "select", .token (.id name)], c.tokens.location⟩) env
        { c with tokens, journal } := by
      simp only [PropertyAction.perform, ends_bind, ends_take]
      rintro _ ⟨⟩
      split
      · next mode known =>
        obtain rfl := SelectionMode.eq_word_of_ofWord? known
        exact ⟨mode, rfl, rfl, rfl⟩
      · trivial
    obtain ⟨mode, rfl, rfl, rfl⟩ := ends.of_ok acted
    exact ⟨.select mode, _, .select mode, rfl, ⟨reads, _, _, c.depth, c.stop, rfl⟩, word⟩
  · exact Pattern.spells_literal (by decide) AllocationTerm.Written.persistent rfl course
  · exact Pattern.spells_literal (by decide) AllocationTerm.Written.mandatory rfl course

/-- The values of terms are those that they say, if there are any. -/
theorem Course.terms_of_rule (h : env.grammar.isTerms id = true) {v : Option Value}
    (course : Course ofRule effects env (.rule id) c v d) :
    ∃ terms text, (v.map (·.items)).getD [] = terms.map AllocationTerm.value ∧ Plan.TermsWritten terms text ∧
      c.Reads text d ∧ ∀ added, LiveGrammar.Derives ⟨env.grammar, added⟩ [.rule id] text := by
  rcases course.of_isMaybe h with ⟨rfl, reads, word⟩ | ⟨p, noted, x, form, rfl, mem, inner⟩
  · exact ⟨[], [], rfl, .absent, reads, word⟩
  · obtain ⟨_, rfl, fits⟩ := GrammarTable.exists_of_isForm form
    rcases fits with _ | ⟨opens, _ | ⟨within, _ | ⟨closes, ⟨⟩⟩⟩⟩
    obtain rfl := Piece.eq_of_fits opens
    obtain ⟨other, rfl, isStrung⟩ := Piece.exists_of_fits within
    obtain rfl := Piece.eq_of_fits closes
    obtain ⟨items, y, journal, matchRule, symbols, -, acted⟩ := inner.of_acting rfl
    cases symbols with
    | terminal hs isFirst rest =>
      cases hs
      cases rest with
      | terminal hs => cases hs
      | reference course rest =>
        -- the terms stand one behind the other between the braces
        obtain ⟨terms, text, values, strung, reads, word⟩ :=
          course.strung_of_rule (fun _ => spells_term) (fun term => by cases term <;> rfl) isStrung
        cases rest with
        | terminal hs isLast rest =>
          cases hs
          cases rest
          cases acted
          have all := (Context.Reads.next isFirst env).append (reads.append (.next isLast env))
          exact ⟨terms, _, values, .braces isFirst strung isLast, all.noise (c := c) _ _ _,
            fun added => .alternative (mem added)
              (.terminal rfl isFirst ((word added).append (.single rfl isLast)))⟩

/-! ## Allocations -/

/-- A resource with its terms is read as the allocation that it says. -/
theorem spells_resourceAllocation (h : env.grammar.isResourceAllocation id = true) :
    Spells ofRule effects env id AllocationStatement.Written fun s => some (.allocation s.allocation) := by
  intro c v d course
  obtain ⟨p, noted, x, form, rfl, mem, inner⟩ := course.of_single h
  obtain ⟨_, rfl, fits⟩ := GrammarTable.exists_of_isForm form
  rcases fits with _ | ⟨first, _ | ⟨second, ⟨⟩⟩⟩
  obtain ⟨one, rfl, isName⟩ := Piece.exists_of_fits first
  obtain ⟨other, rfl, isTerms⟩ := Piece.exists_of_fits second
  obtain ⟨items, y, journal, matchRule, symbols, -, acted⟩ := inner.of_acting rfl
  cases symbols with
  | terminal hs => cases hs
  | reference head rest =>
    obtain ⟨resource, text, named, rfl, reads, word⟩ := spells_resourceId isName head
    cases rest with
    | terminal hs => cases hs
    | reference others rest =>
      cases rest
      obtain ⟨terms, behind, values, said, others, words⟩ := others.terms_of_rule isTerms
      cases acted
      have allocation := AllocationStatement.allocationOf_values ⟨resource, terms⟩
      rw [← values] at allocation
      exact ⟨⟨resource, terms⟩, text ++ behind, .statement named said,
        congrArg (fun a => some (Value.allocation a)) allocation, (reads.append others).noise (c := c) _ _ _,
        fun added => .alternative (mem added) ((word added).append (words added))⟩

/-- A statement adds the allocations that it lists, in their order, once all of it has been read. -/
theorem Course.of_isAllocate {p : Pattern} (form : env.grammar.isAllocate p = true) {v : Option Value}
    (course : Course ofRule effects env (.pattern p) c v d) :
    ∃ statements text x, Plan.AllocationsWritten statements text ∧ c.Reads text x ∧
      (∀ added, LiveGrammar.Derives ⟨env.grammar, added⟩ p.symbols text) ∧
      x.Allows (.property .allocate) ∧ addAllocations (statements.map (·.allocation)) env x = (.ok (), d) := by
  obtain ⟨_, rfl, fits⟩ := GrammarTable.exists_of_isForm form
  rcases fits with _ | ⟨keyword, _ | ⟨list, ⟨⟩⟩⟩
  obtain rfl := Piece.eq_of_fits keyword
  obtain ⟨other, rfl, isList⟩ := Piece.exists_of_fits list
  obtain ⟨items, y, journal, matchRule, symbols, prepared, acted⟩ := course.of_acting rfl
  cases symbols with
  | terminal hs isKeyword rest =>
    cases hs
    cases rest with
    | terminal hs => cases hs
    | reference course rest =>
      cases rest
      obtain ⟨statements, text, listed, rfl, reads, word⟩ :=
        Spells.commaList (fun _ => spells_resourceAllocation) (fun _ => rfl) isList course
      have all := (Context.Reads.next isKeyword env).append reads
      have words (added : List (RuleId × Pattern)) : LiveGrammar.Derives ⟨env.grammar, added⟩
          [.literal "allocate", .rule other] (_ :: text) := .terminal rfl isKeyword (word added)
      rw [Token.eq_of_matchesLiteral isKeyword (by decide)] at all words
      -- what the action finds are the allocations
      have values : (statements.map fun s => Value.allocation s.allocation).filterMap (·.allocation?) =
          statements.map (·.allocation) := by
        rw [List.filterMap_map]
        exact congrFun List.filterMap_eq_map statements
      obtain ⟨_, z, adds, last⟩ := exists_of_run_bind acted
      cases last
      refine ⟨statements, _, _, .allocate listed, all.noise journal y.depth y.stop, words,
        prepared.allows _ rfl, ?_⟩
      rw [← values]
      exact adds

end

end Planfile
