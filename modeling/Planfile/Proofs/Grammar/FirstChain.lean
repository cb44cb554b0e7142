import Planfile.Grammar.Declaration
import Planfile.Grammar.Live

/-!
# Planfile — chains of first references

To find out whether a rule can start with a token, the references by which its alternatives start
are followed, each in turn to the alternatives of the rule it names. Only so many are followed, and
a chain that is longer is taken for a left recursion. `GrammarTable.startsWithin` says of a symbol
that all chains from it are short enough.

Main results:

* `LiveGrammar.symbolAccepts_of_startsWithin` — where all chains are short enough, looking ahead
  gives an answer, also when alternatives with a keyword have been added.
* `LiveGrammar.symbolAccepts_eof_iff` — looking ahead at the end of the text tells whether they are.
* `LiveGrammar.exists_mem_firstOfSymbol` — what is accepted, some first terminal accepts.
-/

namespace Planfile

/-- Whether every chain of first references from a symbol comes to an end within `room` of them. -/
def GrammarTable.startsWithin (t : GrammarTable) : Nat → Symbol → Bool
  | _, .literal _ => true
  | _, .tokenClass _ => true
  | 0, .rule _ => false
  | room + 1, .rule id =>
    (t.rule id).patterns.all fun p =>
      match p.first? with
      | some s => startsWithin t room s
      | none => true

namespace LiveGrammar

/-- The grammar of a table to which nothing has been added. -/
def ofTable (t : GrammarTable) : LiveGrammar := ⟨t, []⟩

/-- Nothing is added to the alternatives of a table. -/
@[simp] theorem patterns_ofTable (t : GrammarTable) (id : RuleId) :
    (ofTable t).patterns id = (t.rule id).patterns := by
  simp [ofTable, patterns, addedTo]

/-- Whether every alternative that was added starts with a literal. -/
def AddsKeywords (g : LiveGrammar) : Prop := ∀ e ∈ g.added, e.2.keyword?.isSome

/-- A table alone adds nothing that would have to start with a literal. -/
theorem addsKeywords_ofTable (t : GrammarTable) : (ofTable t).AddsKeywords := by
  intro e he
  cases he

/-! ## Searching with a test that may fail -/

section
variable {f : α → Except ε Bool}

/-- The search gives an answer if the test gives one for each. -/
theorem anyM_ok {xs : List α} (h : ∀ x ∈ xs, ∃ b, f x = .ok b) : ∃ b, xs.anyM f = .ok b := by
  induction xs with
  | nil => exact ⟨false, rfl⟩
  | cons x xs ih =>
    obtain ⟨b, hb⟩ := h x List.mem_cons_self
    cases b with
    | true => exact ⟨true, by simp [List.anyM, hb, bind, Except.bind, pure, Except.pure]⟩
    | false =>
      obtain ⟨b, hxs⟩ := ih fun y hy => h y (List.mem_cons_of_mem _ hy)
      exact ⟨b, by simpa [List.anyM, hb, bind, Except.bind] using hxs⟩

/-- What is found passes the test. -/
theorem exists_of_anyM_true {xs : List α} (h : xs.anyM f = .ok true) :
    ∃ x ∈ xs, f x = .ok true := by
  induction xs with
  | nil => cases h
  | cons x xs ih =>
    rw [List.anyM] at h
    cases hx : f x with
    | error e => simp [hx, bind, Except.bind] at h
    | ok b =>
      cases b with
      | true => exact ⟨x, List.mem_cons_self, hx⟩
      | false =>
        simp only [hx, bind, Except.bind] at h
        obtain ⟨y, hy, hfy⟩ := ih h
        exact ⟨y, List.mem_cons_of_mem _ hy, hfy⟩

/-- Where nothing is found, everything has failed the test. -/
theorem anyM_false_iff {xs : List α} : xs.anyM f = .ok false ↔ ∀ x ∈ xs, f x = .ok false := by
  induction xs with
  | nil => simp [List.anyM, pure, Except.pure]
  | cons x xs ih =>
    rw [List.forall_mem_cons, List.anyM]
    cases hx : f x with
    | error e => simp [bind, Except.bind]
    | ok b =>
      cases b with
      | true => simp [bind, Except.bind, pure, Except.pure]
      | false => simpa [bind, Except.bind] using ih

/-- A search fails only as one of its tests does. -/
theorem exists_of_anyM_error {xs : List α} {e : ε} (h : xs.anyM f = .error e) :
    ∃ x ∈ xs, f x = .error e := by
  induction xs with
  | nil => cases h
  | cons x xs ih =>
    rw [List.anyM] at h
    cases hx : f x with
    | error e' =>
      simp only [hx, bind, Except.bind, Except.error.injEq] at h
      exact ⟨x, List.mem_cons_self, h ▸ hx⟩
    | ok b =>
      cases b with
      | true => simp [hx, bind, Except.bind, pure, Except.pure] at h
      | false =>
        simp only [hx, bind, Except.bind] at h
        obtain ⟨y, hy, hfy⟩ := ih h
        exact ⟨y, List.mem_cons_of_mem _ hy, hfy⟩

end

/-! ## Looking ahead gives an answer -/

/-- A literal accepts what its terminal accepts, at any depth. -/
@[simp] theorem symbolAccepts_literal (g : LiveGrammar) (token : Token) (room : Nat)
    (text : String) :
    g.symbolAccepts token room (.literal text) = .ok ((Terminal.literal text).accepts token) := by
  cases room <;> rfl

/-- A class accepts what its terminal accepts, at any depth. -/
@[simp] theorem symbolAccepts_tokenClass (g : LiveGrammar) (token : Token) (room : Nat)
    (c : TokenClass) :
    g.symbolAccepts token room (.tokenClass c) =
      .ok ((Terminal.tokenClass c).accepts token) := by
  cases room <;> rfl

/-- A literal starts no chain at all. -/
@[simp] theorem startsWithin_literal (t : GrammarTable) (room : Nat) (text : String) :
    t.startsWithin room (.literal text) = true := by
  cases room <;> rfl

/-- Behind the first reference of a chain there is one less to follow. -/
theorem startsWithin_first {g : LiveGrammar} (hg : g.AddsKeywords) {room : Nat} {id : RuleId}
    (h : g.table.startsWithin (room + 1) (.rule id) = true) {p : Pattern}
    (hp : p ∈ g.patterns id) {s : Symbol} (hs : p.first? = some s) :
    g.table.startsWithin room s = true := by
  rw [patterns, List.mem_append] at hp
  rcases hp with hp | hp
  · have chain := List.all_eq_true.mp h p hp
    simpa [hs] using chain
  · -- an added alternative starts with a literal
    obtain ⟨e, he, rfl⟩ := List.mem_map.mp hp
    have keyword := hg e (List.mem_filter.mp he).1
    rw [Pattern.keyword?, hs] at keyword
    cases s with
    | literal text => exact startsWithin_literal g.table room text
    | _ => cases keyword

/-- Where all chains are short enough, looking ahead gives an answer. -/
theorem symbolAccepts_of_startsWithin {g : LiveGrammar} (hg : g.AddsKeywords) (token : Token)
    {room : Nat} {s : Symbol} (h : g.table.startsWithin room s = true) :
    ∃ b, g.symbolAccepts token room s = .ok b := by
  fun_induction symbolAccepts g token room s with
  | case1 room text => exact ⟨_, rfl⟩
  | case2 room c => exact ⟨_, rfl⟩
  | case3 id => cases h
  | case4 room id ih =>
    refine anyM_ok fun p hp => ?_
    split
    · next s hs => exact ih s (startsWithin_first hg h hp hs)
    · exact ⟨false, rfl⟩

/-- Looking ahead fails in one way only: the chains are too long. -/
theorem leftRecursion_of_symbolAccepts {g : LiveGrammar} {token : Token} {room : Nat} {s : Symbol}
    {e : GrammarError} (h : g.symbolAccepts token room s = .error e) :
    ∃ name, e = .leftRecursion name := by
  fun_induction symbolAccepts g token room s with
  | case1 room text => cases h
  | case2 room c => cases h
  | case3 id =>
    cases h
    exact ⟨_, rfl⟩
  | case4 room id ih =>
    obtain ⟨p, _, hp⟩ := exists_of_anyM_error h
    split at hp
    · exact ih _ hp
    · cases hp

/-- No symbol can start with the end of the text. -/
theorem symbolAccepts_eof_ne_true (g : LiveGrammar) (room : Nat) (s : Symbol) :
    g.symbolAccepts .eof room s ≠ .ok true := by
  fun_induction symbolAccepts g .eof room s with
  | case1 room text => simp [Terminal.accepts, Token.matchesLiteral, Token.literalText?]
  | case2 room c => simp [Terminal.accepts, Token.class?]
  | case3 id => simp
  | case4 room id ih =>
    intro h
    obtain ⟨p, _, hp⟩ := exists_of_anyM_true h
    split at hp
    · exact ih _ hp
    · cases hp

/-- Looking ahead at the end of the text follows every chain, so it gives an answer exactly if all
are short enough. -/
theorem symbolAccepts_eof_iff (t : GrammarTable) (room : Nat) (s : Symbol) :
    (∃ b, (ofTable t).symbolAccepts .eof room s = .ok b) ↔ t.startsWithin room s = true := by
  refine ⟨?_, symbolAccepts_of_startsWithin (addsKeywords_ofTable t) .eof⟩
  rintro ⟨b, h⟩
  -- the end of the text is never accepted, so no alternative cuts the search short
  obtain rfl : b = false := by
    cases b with
    | false => rfl
    | true => exact absurd h (symbolAccepts_eof_ne_true _ _ _)
  fun_induction GrammarTable.startsWithin t room s with
  | case1 room text => rfl
  | case2 room c => rfl
  | case3 id => simp [symbolAccepts] at h
  | case4 room id ih =>
    rw [symbolAccepts, anyM_false_iff, patterns_ofTable] at h
    rw [List.all_eq_true]
    intro p hp
    have chain := h p hp
    cases hf : p.first? with
    | none => rfl
    | some s => exact ih s (by simpa [hf] using chain)

/-! ## First terminals -/

/-- What a symbol of a table accepts, one of its first terminals accepts. -/
theorem exists_mem_firstOfSymbol {t : GrammarTable} {token : Token} {room : Nat} {s : Symbol}
    (h : (ofTable t).symbolAccepts token room s = .ok true) :
    ∃ a ∈ t.firstOfSymbol room s, a.accepts token = true := by
  fun_induction GrammarTable.firstOfSymbol t room s with
  | case1 room text => exact ⟨_, List.mem_singleton_self _, by simpa using h⟩
  | case2 room c => exact ⟨_, List.mem_singleton_self _, by simpa using h⟩
  | case3 id => simp [symbolAccepts] at h
  | case4 room id ih =>
    rw [symbolAccepts, patterns_ofTable] at h
    obtain ⟨p, hp, hs⟩ := exists_of_anyM_true h
    cases hf : p.first? with
    | none => simp [hf] at hs
    | some s =>
      obtain ⟨a, ha, hacc⟩ := ih s (by simpa [hf] using hs)
      exact ⟨a, List.mem_flatMap.mpr ⟨p, hp, by simpa [hf] using ha⟩, hacc⟩

/-! ## Choosing -/

/-- Choosing gives an answer exactly if looking ahead does for every alternative. -/
theorem accepting_ok_iff {g : LiveGrammar} {token : Token} {ps : List Pattern} :
    (∃ found, g.accepting token ps = .ok found) ↔
      ∀ p ∈ ps, ∃ b, g.patternAccepts token p = .ok b := by
  induction ps with
  | nil => simp [accepting]
  | cons p rest ih =>
    rw [List.forall_mem_cons, ← ih, accepting]
    cases hp : g.patternAccepts token p with
    | error e => simp [bind, Except.bind]
    | ok b =>
      cases hr : g.accepting token rest with
      | error e => simp [bind, Except.bind]
      | ok found => simp [bind, Except.bind, pure, Except.pure]

/-- Candidates are among the alternatives in their order, and each accepts the token. -/
theorem sublist_of_accepting {g : LiveGrammar} {token : Token} {ps found : List Pattern}
    (h : g.accepting token ps = .ok found) :
    found.Sublist ps ∧ ∀ p ∈ found, g.patternAccepts token p = .ok true := by
  induction ps generalizing found with
  | nil =>
    cases h
    exact ⟨.slnil, by simp⟩
  | cons p rest ih =>
    rw [accepting] at h
    cases hp : g.patternAccepts token p with
    | error e => simp [hp, bind, Except.bind] at h
    | ok b =>
      cases hr : g.accepting token rest with
      | error e => simp [hp, hr, bind, Except.bind] at h
      | ok others =>
        obtain ⟨sub, all⟩ := ih hr
        simp only [hp, hr, bind, Except.bind, pure, Except.pure, Except.ok.injEq] at h
        subst h
        cases b with
        | true => exact ⟨sub.cons_cons p, List.forall_mem_cons.mpr ⟨hp, all⟩⟩
        | false => exact ⟨sub.cons p, all⟩

/-- Looking ahead gives an answer for the alternatives of a rule if its chains are short enough. -/
theorem patternAccepts_of_startsWithin {g : LiveGrammar} (hg : g.AddsKeywords) {id : RuleId}
    (h : g.table.startsWithin (Limits.firstSetDepth + 1) (.rule id) = true) (token : Token)
    {p : Pattern} (hp : p ∈ g.patterns id) : ∃ b, g.patternAccepts token p = .ok b := by
  rw [patternAccepts]
  cases hs : p.first? with
  | none => exact ⟨false, rfl⟩
  | some s => exact symbolAccepts_of_startsWithin hg token (startsWithin_first hg h hp hs)

/-- Then choosing among them gives an answer. -/
theorem candidates_of_startsWithin {g : LiveGrammar} (hg : g.AddsKeywords) {id : RuleId}
    (h : g.table.startsWithin (Limits.firstSetDepth + 1) (.rule id) = true) (token : Token) :
    ∃ found, g.candidates id token = .ok found :=
  accepting_ok_iff.mpr fun _ hp => patternAccepts_of_startsWithin hg h token hp

/-- And so does asking whether there is one to choose. -/
theorem ruleAccepts_of_startsWithin {g : LiveGrammar} (hg : g.AddsKeywords) {id : RuleId}
    (h : g.table.startsWithin (Limits.firstSetDepth + 1) (.rule id) = true) (token : Token) :
    ∃ b, g.ruleAccepts id token = .ok b :=
  anyM_ok fun _ hp => patternAccepts_of_startsWithin hg h token hp

end LiveGrammar

end Planfile
