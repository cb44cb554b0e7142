import Planfile.Proofs.Grammar.Evaluation
import Planfile.Proofs.Grammar.FirstChain
import Planfile.Proofs.Token.Word

/-!
# Planfile — one alternative at most

An alternative is chosen by the next token alone and there is no way back, so a table is only good
if no token leaves a choice, and if looking ahead gives an answer at all. Both are looked at when a
table is built. The first is ensured for every token of a text. The second is ensured only as far as
every chain of first references is followed: a rule that is reached over several chains is followed
along the first of them, and a longer one goes unnoticed.

Main results:

* `LiveGrammar.overlaps_of_accepts` — terminals that accept a common token of a text overlap.
* `LiveGrammar.exclusive_of_build` — no token is accepted by two alternatives of a rule.
* `LiveGrammar.refused_of_shared` — a table is refused for every token that two first terminals share, and the
  report names two alternatives that clash.
* `LiveGrammar.build_selects_iff` — choosing among them gives an answer exactly if all chains of
  first references are short enough.
* `LiveGrammar.forkedChain_leftRecursion` — a table that is built although they are not.
-/

namespace Planfile.LiveGrammar

/-- No two alternatives of a rule can start with the token. -/
def Exclusive (g : LiveGrammar) (id : RuleId) (token : Token) : Prop :=
  (g.patterns id).Pairwise fun p q =>
    ¬(g.patternAccepts token p = .ok true ∧ g.patternAccepts token q = .ok true)

/-! ## Overlaps -/

/-- An identifier that a literal asks for is the literal, so the literal looks like one. -/
theorem isWord_of_accepts {token : Token} (ht : Lexer.looksRight token = true) {text : String}
    (hc : token.class? = some .id) (hl : token.matchesLiteral text = true) :
    Terminal.isWord text = true := by
  cases token with
  | id name =>
    have same : name = text := by
      simpa [Token.matchesLiteral, Token.literalText?] using hl
    exact same ▸ ht
  | _ => cases hc

/-- Among the tokens with a literal text, only identifiers have a class. -/
theorem class?_of_matchesLiteral {token : Token} {text : String} {c : TokenClass}
    (hl : token.matchesLiteral text = true) (hc : token.class? = some c) : c = .id := by
  cases token with
  | id name =>
    cases hc
    rfl
  | mark m => cases hc
  | _ => cases hl

/-- Terminals that accept a common token overlap, if it looks like one of a text. -/
theorem overlaps_of_accepts {token : Token} (ht : Lexer.looksRight token = true) {a b : Terminal}
    (ha : a.accepts token = true) (hb : b.accepts token = true) : a.overlaps b = true := by
  -- a literal and a class can only have identifiers in common
  have mixed {text : String} {c : TokenClass} (hl : token.matchesLiteral text = true)
      (hc : (token.class? == some c) = true) :
      (c == .id && Terminal.isWord text) = true := by
    have hc : token.class? = some c := by simpa using hc
    obtain rfl := class?_of_matchesLiteral hl hc
    simpa using isWord_of_accepts ht hc hl
  cases a with
  | literal x =>
    cases b with
    | literal y =>
      simp only [Terminal.accepts, Token.matchesLiteral, beq_iff_eq] at ha hb
      simpa [Terminal.overlaps, ha] using hb
    | tokenClass d => exact mixed ha hb
  | tokenClass c =>
    cases b with
    | literal y => exact mixed hb ha
    | tokenClass d =>
      simp only [Terminal.accepts, beq_iff_eq] at ha hb
      simpa [Terminal.overlaps, ha] using hb

/-- Lists of terminals have no common one if no two of them overlap. -/
theorem commonTerminal?_eq_none_iff {as bs : List Terminal} :
    GrammarTable.commonTerminal? as bs = none ↔ ∀ a ∈ as, ∀ b ∈ bs, a.overlaps b = false := by
  rw [GrammarTable.commonTerminal?, List.find?_eq_none]
  refine forall₂_congr fun a _ => ?_
  simp only [List.any_eq_true, not_exists, not_and, Bool.not_eq_true]

/-- Nothing is ambiguous if no two alternatives have a first terminal in common. -/
theorem ambiguity?_eq_none_iff {firsts : List (Nat × List Terminal)} :
    GrammarTable.ambiguity? firsts = none ↔
      firsts.Pairwise fun x y => GrammarTable.commonTerminal? x.2 y.2 = none := by
  induction firsts with
  | nil => simp [GrammarTable.ambiguity?]
  | cons x rest ih =>
    obtain ⟨i, a⟩ := x
    rw [GrammarTable.ambiguity?, List.pairwise_cons, ← ih]
    dsimp only
    split
    · next found clash =>
      -- the first alternative clashes with one behind it
      obtain ⟨y, hy, common⟩ := List.exists_of_findSome?_eq_some clash
      refine ⟨fun wrong => (nomatch wrong), fun none => ?_⟩
      rw [none.1 y hy] at common
      cases common
    · next clash =>
      have apart : ∀ y ∈ rest, GrammarTable.commonTerminal? a y.2 = none := fun y hy => by
        simpa using List.findSome?_eq_none_iff.mp clash y hy
      exact ⟨fun none => ⟨apart, none⟩, fun none => none.2⟩

/-! ## One alternative -/

/-- What an alternative of a table accepts, one of its first terminals accepts. -/
theorem exists_mem_firstTerminals {t : GrammarTable} {token : Token} {p : Pattern}
    (h : (ofTable t).patternAccepts token p = .ok true) :
    ∃ a ∈ t.firstTerminals p, a.accepts token = true := by
  rw [patternAccepts] at h
  rw [GrammarTable.firstTerminals]
  cases hf : p.first? with
  | none => simp [hf] at h
  | some s => exact exists_mem_firstOfSymbol (by simpa [hf] using h)

/-- A rule passes if no two of its alternatives have a first terminal in common. -/
theorem checkRuleAmbiguity_eq_ok_iff {t : GrammarTable} {r : Rule} :
    t.checkRuleAmbiguity r = .ok () ↔ r.patterns.Pairwise fun p q =>
      ∀ a ∈ t.firstTerminals p, ∀ b ∈ t.firstTerminals q, a.overlaps b = false := by
  have unambiguous : t.checkRuleAmbiguity r = .ok () ↔ GrammarTable.ambiguity?
      (r.patterns.zipIdx.map fun x => (x.2, t.firstTerminals x.1)) = none := by
    rw [GrammarTable.checkRuleAmbiguity]
    dsimp only
    split
    · next clash => simp [clash]
    · next none => simp [none]
  rw [unambiguous, ambiguity?_eq_none_iff, List.pairwise_map]
  -- the places of the alternatives do not matter, so they are left out again
  have patterns := List.pairwise_map (l := r.patterns.zipIdx) (f := Prod.fst) (R := fun p q =>
    GrammarTable.commonTerminal? (t.firstTerminals p) (t.firstTerminals q) = none)
  rw [List.zipIdx_map_fst] at patterns
  rw [← patterns]
  simp only [commonTerminal?_eq_none_iff]

/-- A rule that is not ambiguous leaves no choice at any token that looks like one of a text. -/
theorem pairwise_of_checkRuleAmbiguity {t : GrammarTable} {r : Rule}
    (h : t.checkRuleAmbiguity r = .ok ()) {token : Token} (ht : Lexer.looksRight token = true) :
    r.patterns.Pairwise fun p q =>
      ¬((ofTable t).patternAccepts token p = .ok true ∧
        (ofTable t).patternAccepts token q = .ok true) := by
  refine (checkRuleAmbiguity_eq_ok_iff.mp h).imp fun disjoint => ?_
  rintro ⟨hp, hq⟩
  obtain ⟨a, ha, haccepts⟩ := exists_mem_firstTerminals hp
  obtain ⟨b, hb, hbccepts⟩ := exists_mem_firstTerminals hq
  have apart := disjoint a ha b hb
  rw [overlaps_of_accepts ht haccepts hbccepts] at apart
  cases apart

/-- No token that looks like one of a text is accepted by two alternatives of a rule. -/
theorem exclusive_of_looksRight {declarations : List RuleDeclaration} {t : GrammarTable}
    (h : GrammarTable.build declarations = .ok t) (id : RuleId) {token : Token}
    (ht : Lexer.looksRight token = true) : (ofTable t).Exclusive id token := by
  rw [Exclusive, patterns_ofTable]
  by_cases known : id.index < t.rules.size
  · rw [t.rule_eq_getElem known]
    have rule := GrammarTable.forM_eq_ok_iff.mp (GrammarTable.build_eq_ok_iff.mp h).2.2 t.rules[id.index]
      (by simp)
    exact pairwise_of_checkRuleAmbiguity rule ht
  · rw [GrammarTable.rule_eq_default (Nat.le_of_not_lt known)]
    exact .nil

/-- No token of a text is accepted by two alternatives of a rule. -/
theorem exclusive_of_build {declarations : List RuleDeclaration} {t : GrammarTable}
    (h : GrammarTable.build declarations = .ok t) (id : RuleId) {token : Token}
    (ht : Lexer.Produces token) : (ofTable t).Exclusive id token :=
  exclusive_of_looksRight h id (Lexer.looksRight_of_produces ht)

/-! ## What is refused -/

/-- Whether two alternatives of a rule, by their places, have first terminals that overlap, of which the first one
is `terminal`. -/
structure Clash (t : GrammarTable) (r : Rule) (i j : Nat) (terminal : Terminal) : Prop where
  inOrder : i < j
  overlap : ∃ p q, r.patterns[i]? = some p ∧ r.patterns[j]? = some q ∧ terminal ∈ t.firstTerminals p ∧
    ∃ other ∈ t.firstTerminals q, terminal.overlaps other = true

/-- What is found of two lists that have a terminal in common. -/
theorem exists_of_commonTerminal? {as bs : List Terminal} {a : Terminal}
    (h : GrammarTable.commonTerminal? as bs = some a) : a ∈ as ∧ ∃ b ∈ bs, a.overlaps b = true := by
  rw [GrammarTable.commonTerminal?] at h
  have common := List.find?_some h
  exact ⟨List.mem_of_find?_eq_some h, List.any_eq_true.mp common⟩

/-- What is found is one list and another one behind it. -/
theorem exists_of_ambiguity? {firsts : List (Nat × List Terminal)} {i j : Nat} {a : Terminal}
    (h : GrammarTable.ambiguity? firsts = some (i, j, a)) :
    ∃ as bs, [(i, as), (j, bs)].Sublist firsts ∧ a ∈ as ∧ ∃ b ∈ bs, a.overlaps b = true := by
  induction firsts with
  | nil => cases h
  | cons x rest ih =>
    obtain ⟨k, as⟩ := x
    rw [GrammarTable.ambiguity?] at h
    dsimp only at h
    split at h
    · -- the first list overlaps with one behind it
      next found clash =>
      obtain ⟨⟨l, bs⟩, mem, same⟩ := List.exists_of_findSome?_eq_some clash
      obtain ⟨b, common, rfl⟩ := Option.map_eq_some_iff.mp same
      cases h
      exact ⟨as, bs, (List.singleton_sublist.mpr mem).cons_cons _, exists_of_commonTerminal? common⟩
    · obtain ⟨as, bs, sub, overlap⟩ := ih h
      exact ⟨as, bs, sub.cons _, overlap⟩

/-- A rule is refused for two alternatives that clash. -/
theorem exists_clash_of_error {t : GrammarTable} {r : Rule} {e : GrammarError}
    (h : t.checkRuleAmbiguity r = .error e) :
    ∃ i j a, Clash t r i j a ∧ e = .ambiguousAlternatives r.name i j a.text := by
  rw [GrammarTable.checkRuleAmbiguity] at h
  dsimp only at h
  split at h
  · next i j a found =>
    cases h
    obtain ⟨as, bs, sub, memA, b, memB, overlap⟩ := exists_of_ambiguity? found
    -- the lists are those of two alternatives, in their order
    obtain ⟨pairs, places, same⟩ := List.sublist_map_iff.mp sub
    obtain ⟨⟨p, m⟩, others, rfl, first, rest⟩ := List.map_eq_cons_iff.mp same.symm
    obtain ⟨⟨q, n⟩, none, rfl, second, nil⟩ := List.map_eq_cons_iff.mp rest
    obtain rfl := List.map_eq_nil_iff.mp nil
    cases first
    cases second
    have numbers := places.map Prod.snd
    rw [List.zipIdx_map_snd] at numbers
    have inOrder := (List.pairwise_lt_range' 1).sublist numbers
    refine ⟨m, n, a, ⟨?_, p, q, ?_, ?_, memA, b, memB, overlap⟩, rfl⟩
    · exact List.rel_of_pairwise_cons inOrder List.mem_cons_self
    · exact List.mem_zipIdx_iff_getElem?.mp (places.subset List.mem_cons_self)
    · exact List.mem_zipIdx_iff_getElem?.mp (places.subset (List.mem_cons_of_mem _ List.mem_cons_self))
  · cases h

/-- Where a check of several things fails, it fails for one of them. -/
theorem exists_of_forM_eq_error {f : α → Except ε Unit} {xs : List α} {e : ε} (h : xs.forM f = .error e) :
    ∃ x ∈ xs, f x = .error e := by
  induction xs with
  | nil => cases h
  | cons x xs ih =>
    simp only [List.forM, bind, Except.bind] at h
    cases first : f x with
    | error e' =>
      rw [first] at h
      cases h
      exact ⟨x, List.mem_cons_self, first⟩
    | ok u =>
      rw [first] at h
      obtain ⟨y, mem, fails⟩ := ih h
      exact ⟨y, List.mem_cons_of_mem _ mem, fails⟩

/-- Whether two alternatives have first terminals that accept a token both. -/
def SharesFirst (t : GrammarTable) (token : Token) (p q : Pattern) : Prop :=
  ∃ a ∈ t.firstTerminals p, ∃ b ∈ t.firstTerminals q, a.accepts token = true ∧ b.accepts token = true

/-- A rule does not pass if two of its alternatives share a token that looks like one of a text. -/
theorem checkRuleAmbiguity_ne_ok {t : GrammarTable} {r : Rule} {token : Token}
    (looksRight : Lexer.looksRight token = true) {i j : Nat} {p q : Pattern} (inOrder : i < j)
    (hp : r.patterns[i]? = some p) (hq : r.patterns[j]? = some q) (shares : SharesFirst t token p q) :
    t.checkRuleAmbiguity r ≠ .ok () := by
  intro passes
  obtain ⟨a, memA, b, memB, acceptsA, acceptsB⟩ := shares
  obtain ⟨withinI, rfl⟩ := List.getElem?_eq_some_iff.mp hp
  obtain ⟨withinJ, rfl⟩ := List.getElem?_eq_some_iff.mp hq
  have apart := List.pairwise_iff_getElem.mp (checkRuleAmbiguity_eq_ok_iff.mp passes) i j withinI withinJ inOrder
    a memA b memB
  rw [overlaps_of_accepts looksRight acceptsA acceptsB] at apart
  cases apart

/-- Terminals that accept a token of a text overlap, either way round. So no table is built in which two
alternatives of a rule have first terminals that accept the same token of a text: the rule is refused for two
alternatives that clash, and so is the table, for this rule or one in front of it. -/
theorem refused_of_shared {token : Token} (read : Lexer.Produces token) :
    (∀ a b : Terminal, a.accepts token = true → b.accepts token = true →
      a.overlaps b = true ∧ b.overlaps a = true) ∧
    ∀ (t : GrammarTable) (r : Rule) (i j : Nat) (p q : Pattern), i < j → r.patterns[i]? = some p →
      r.patterns[j]? = some q → SharesFirst t token p q →
        (∃ m n a, Clash t r m n a ∧
          t.checkRuleAmbiguity r = .error (.ambiguousAlternatives r.name m n a.text)) ∧
        (r ∈ t.rules.toList →
          (∃ s ∈ t.rules.toList, ∃ m n a, Clash t s m n a ∧
            t.checkAmbiguity = .error (.ambiguousAlternatives s.name m n a.text)) ∧
          ∀ declarations, GrammarTable.build declarations ≠ .ok t) := by
  have looksRight := Lexer.looksRight_of_produces read
  refine ⟨fun a b acceptsA acceptsB => ?_, fun t r i j p q inOrder hp hq shares => ?_⟩
  · exact ⟨overlaps_of_accepts looksRight acceptsA acceptsB, overlaps_of_accepts looksRight acceptsB acceptsA⟩
  · have notOk := checkRuleAmbiguity_ne_ok looksRight inOrder hp hq shares
    refine ⟨?_, fun mem => ?_⟩
    · cases outcome : t.checkRuleAmbiguity r with
      | ok u => exact absurd outcome notOk
      | error e =>
        obtain ⟨m, n, a, clash, rfl⟩ := exists_clash_of_error outcome
        exact ⟨m, n, a, clash, rfl⟩
    · have fails : t.checkAmbiguity ≠ .ok () := fun passes => notOk (GrammarTable.forM_eq_ok_iff.mp passes r mem)
      refine ⟨?_, fun declarations built => fails (GrammarTable.build_eq_ok_iff.mp built).2.2⟩
      cases outcome : t.checkAmbiguity with
      | ok u => exact absurd outcome fails
      | error e =>
        obtain ⟨s, memS, failsS⟩ := exists_of_forM_eq_error outcome
        obtain ⟨m, n, a, clash, rfl⟩ := exists_clash_of_error failsS
        exact ⟨s, memS, m, n, a, clash, rfl⟩

/-- A table with one rule, which starts with a keyword or with a name. -/
def keywordOrName : GrammarTable where
  rules := #[⟨"statement", [⟨[.literal "task"], none⟩, ⟨[.tokenClass .id], none⟩], false, false⟩]

/-- The keyword is a name as well, so that the table is refused. -/
theorem refused_of_shared_keyword :
    Lexer.Produces (.id "task") ∧
      (Terminal.literal "task").overlaps (.tokenClass .id) = true ∧
      (Terminal.tokenClass .id).overlaps (.literal "task") = true ∧
      SharesFirst keywordOrName (.id "task") ⟨[.literal "task"], none⟩ ⟨[.tokenClass .id], none⟩ ∧
      ∃ s ∈ keywordOrName.rules.toList, ∃ m n a, Clash keywordOrName s m n a ∧
        keywordOrName.checkAmbiguity = .error (.ambiguousAlternatives s.name m n a.text) := by
  have read : Lexer.Produces (.id "task") :=
    Lexer.produces_of_found ['t', 'a', 's', 'k'] (by decide +kernel) _ (List.mem_singleton_self _)
  have shares : SharesFirst keywordOrName (.id "task") ⟨[.literal "task"], none⟩ ⟨[.tokenClass .id], none⟩ :=
    ⟨.literal "task", by decide, .tokenClass .id, by decide, by decide, by decide⟩
  obtain ⟨overlap, refused⟩ := refused_of_shared read
  obtain ⟨first, second⟩ := overlap (.literal "task") (.tokenClass .id) (by decide) (by decide)
  obtain ⟨-, table⟩ := refused keywordOrName (keywordOrName.rule ⟨0⟩) 0 1 _ _ Nat.zero_lt_one rfl rfl shares
  exact ⟨read, first, second, shares, (table List.mem_cons_self).1⟩

/-! ## Choosing gives an answer -/

/-- Choosing fails only as looking ahead does. -/
theorem leftRecursion_of_accepting {g : LiveGrammar} {token : Token} {ps : List Pattern}
    {e : GrammarError} (h : g.accepting token ps = .error e) : ∃ name, e = .leftRecursion name := by
  induction ps with
  | nil => cases h
  | cons p rest ih =>
    rw [accepting] at h
    cases hp : g.patternAccepts token p with
    | error e' =>
      simp only [hp, bind, Except.bind, Except.error.injEq] at h
      subst h
      rw [patternAccepts] at hp
      split at hp
      · exact leftRecursion_of_symbolAccepts hp
      · cases hp
    | ok b =>
      cases hr : g.accepting token rest with
      | error e' =>
        simp only [hp, hr, bind, Except.bind, Except.error.injEq] at h
        subst h
        exact ih hr
      | ok found => simp [hp, hr, bind, Except.bind, pure, Except.pure] at h

/-- Where no two alternatives accept the token, there is one candidate at most. -/
theorem length_candidates_le_one {g : LiveGrammar} {id : RuleId} {token : Token}
    {found : List Pattern} (he : g.Exclusive id token) (h : g.candidates id token = .ok found) :
    found.length ≤ 1 := by
  obtain ⟨sub, all⟩ := sublist_of_accepting h
  have apart := he.sublist sub
  match found with
  | [] => simp
  | [p] => simp
  | p :: q :: rest =>
    have two := (List.pairwise_cons.mp apart).1 q (by simp)
    exact absurd ⟨all p (by simp), all q (by simp)⟩ two

/-- At the end of the text choosing gives an answer only if all chains are short enough. -/
theorem startsWithin_of_candidates {t : GrammarTable} {id : RuleId}
    (h : ∃ found, (ofTable t).candidates id .eof = .ok found) :
    t.startsWithin (Limits.firstSetDepth + 1) (.rule id) = true := by
  have each := accepting_ok_iff.mp h
  rw [GrammarTable.startsWithin, List.all_eq_true]
  intro p hp
  have answer := each p (by simpa using hp)
  rw [patternAccepts] at answer
  split
  · next s hs => exact (symbolAccepts_eof_iff t _ s).mp (by simpa [hs] using answer)
  · rfl

/-- In a table that is built no token of a text is accepted by two alternatives of a rule, and
choosing among them never fails with a left recursion exactly if no chain of first references from
the rule is longer than is followed. -/
theorem build_selects_iff {declarations : List RuleDeclaration} {t : GrammarTable}
    (h : GrammarTable.build declarations = .ok t) (id : RuleId) :
    (∀ token, Lexer.Produces token → (ofTable t).Exclusive id token) ∧
      ((∀ token, Lexer.Produces token → ∀ name,
          (ofTable t).candidates id token ≠ .error (.leftRecursion name)) ↔
        t.startsWithin (Limits.firstSetDepth + 1) (.rule id) = true) := by
  refine ⟨fun token ht => exclusive_of_build h id ht, ?_, ?_⟩
  · intro never
    refine startsWithin_of_candidates ?_
    cases hc : (ofTable t).candidates id .eof with
    | ok found => exact ⟨found, rfl⟩
    | error e =>
      obtain ⟨name, rfl⟩ := leftRecursion_of_accepting hc
      exact absurd hc (never .eof Lexer.produces_eof name)
  · intro chains token _ name
    obtain ⟨found, hc⟩ := candidates_of_startsWithin (addsKeywords_ofTable t) chains token
    rw [hc]
    simp

/-- A rule with two alternatives, one of which starts with another rule. -/
def shortChain : List RuleDeclaration := [
  .once "statement" [.sequence ["_task", "!name"], .sequence ["!name"]],
  .once "name" [.sequence ["$STRING"]]]

/-- The table of `shortChain`. -/
def shortChainTable : GrammarTable where
  rules := #[
    ⟨"statement",
      [⟨[.literal "task", .rule ⟨1⟩], none⟩, ⟨[.rule ⟨1⟩], none⟩], false, false⟩,
    ⟨"name", [⟨[.tokenClass .string], none⟩], false, false⟩]

/-- Where the chains are short no token is left without an answer. -/
theorem build_selects_shortChain :
    GrammarTable.build shortChain = .ok shortChainTable ∧
      ∀ token, Lexer.Produces token → ∀ name,
        (ofTable shortChainTable).candidates ⟨0⟩ token ≠ .error (.leftRecursion name) := by
  have built : GrammarTable.build shortChain = .ok shortChainTable :=
    eq_ok_of_toOption (by decide +kernel)
  exact ⟨built, (build_selects_iff built ⟨0⟩).2.mpr (by decide +kernel)⟩

/-- The name of a link of the chain in `forkedChain`. -/
def linkName (n : Nat) : String := String.singleton (Char.ofNat ('A'.toNat + n))

/-- A chain of first references that a rule reaches directly and, one reference longer, over a
detour. -/
def forkedChain : List RuleDeclaration :=
  [.once "statement" [.sequence ["!detour"], .sequence ["!" ++ linkName 0]],
    .once "detour" [.sequence ["!" ++ linkName 0]]] ++
  (List.range Limits.firstSetDepth).map fun n =>
    .once (linkName n)
      [.sequence [if n + 1 = Limits.firstSetDepth then "_task" else "!" ++ linkName (n + 1)]]

/-- The links are first reached directly, which is near enough, so the table is built. Over the
detour the last one is too far away. -/
theorem startsWithin_forkedChain :
    (GrammarTable.build forkedChain).toOption.any (fun t =>
      !t.startsWithin (Limits.firstSetDepth + 1) (.rule ⟨0⟩)) = true := by
  rw [GrammarTable.build, GrammarTable.resolve_eq_resolveQuickly]
  decide +kernel

/-- A table that is built, and a rule of it that gives no answer for a token of a text. -/
theorem forkedChain_leftRecursion :
    ∃ t, GrammarTable.build forkedChain = .ok t ∧
      ∃ token name, Lexer.Produces token ∧
        (ofTable t).candidates ⟨0⟩ token = .error (.leftRecursion name) := by
  have tooLong := startsWithin_forkedChain
  generalize GrammarTable.build forkedChain = built at tooLong ⊢
  cases built with
  | error e => cases tooLong
  | ok t =>
    refine ⟨t, rfl, .eof, ?_⟩
    cases hc : (ofTable t).candidates ⟨0⟩ .eof with
    | ok found => simp [Except.toOption, startsWithin_of_candidates ⟨found, hc⟩] at tooLong
    | error e =>
      obtain ⟨name, rfl⟩ := leftRecursion_of_accepting hc
      exact ⟨name, Lexer.produces_eof, rfl⟩

end Planfile.LiveGrammar
