import Planfile.Proofs.Grammar.Determinism
import Planfile.Proofs.Grammar.Resolution

/-!
# Planfile — which declarations make a table

A table is built of declarations if each of them is in order, and if no two alternatives of a rule can start with
the same token. What a rule can start with is said here of the declarations alone, by names and with no limit on
how many references are followed. The limit that building has makes no difference as long as no chain of first
references is longer. Where references lead in a cycle no table is built at all.

Main results:

* `RuleDeclaration.exists_resolve_iff` — symbols can be resolved exactly if the declarations are in order.
* `GrammarTable.mem_firstTerminals_iff` — within the limit the first terminals are those that are declared.
* `GrammarTable.validates` — building a table is exact within the limit.
-/

namespace Planfile

/-! ## Declarations -/

/-- The declared symbol that an alternative starts with. -/
def PatternDeclaration.first? (p : PatternDeclaration) : Option SymbolSpec :=
  p.symbols.head?.bind SymbolSpec.ofText?

/-- Which terminals a declared symbol can start with: a reference starts with what an alternative of the rule
starts with. -/
inductive SymbolSpec.StartsWith (ds : List RuleDeclaration) : SymbolSpec → Terminal → Prop
  | literal (text : String) : StartsWith ds (.literal text) (.literal text)
  | tokenClass (k : TokenClass) : StartsWith ds (.tokenClass k) (.tokenClass k)
  | rule {d : RuleDeclaration} {p : PatternDeclaration} {spec : SymbolSpec} {a : Terminal} (declared : d ∈ ds)
    (offered : p ∈ d.patterns) (first : p.first? = some spec) (starts : StartsWith ds spec a) :
    StartsWith ds (.rule d.name) a

/-- Whether an alternative can start with a terminal. -/
def PatternDeclaration.Starts (ds : List RuleDeclaration) (p : PatternDeclaration) (a : Terminal) : Prop :=
  ∃ spec, p.first? = some spec ∧ spec.StartsWith ds a

namespace RuleDeclaration

variable {ds : List RuleDeclaration}

/-- Whether a rule is declared with an alternative that starts with another rule that is declared. -/
def FirstReference (ds : List RuleDeclaration) (name next : String) : Prop :=
  (∃ d ∈ ds, d.name = name ∧ ∃ p ∈ d.patterns, p.first? = some (.rule next)) ∧ ∃ d ∈ ds, d.name = next

/-- Whether no chain of first references has more of them than are followed. -/
def ShortChains (ds : List RuleDeclaration) : Prop :=
  ∀ n name next, Leads (FirstReference ds) n name next → n ≤ Limits.firstSetDepth

/-- Whether declarations are in order, each in itself: no name is declared twice, nothing is empty, every symbol
can be read, and every rule that is referred to is declared. -/
structure InOrder (ds : List RuleDeclaration) : Prop where
  names : (ds.map (·.name)).Nodup
  patterns : ∀ d ∈ ds, d.patterns ≠ []
  symbols : ∀ d ∈ ds, ∀ p ∈ d.patterns, p.symbols ≠ []
  specs : ∀ d ∈ ds, ∀ p ∈ d.patterns, ∀ text ∈ p.symbols, ∃ spec, SymbolSpec.ofText? text = some spec
  references : ∀ d ∈ ds, ∀ p ∈ d.patterns, ∀ text ∈ p.symbols, ∀ name,
    SymbolSpec.ofText? text = some (.rule name) → ∃ e ∈ ds, e.name = name

/-- Whether no two alternatives of a rule can start with terminals that overlap. -/
def Unambiguous (ds : List RuleDeclaration) : Prop :=
  ∀ d ∈ ds, d.patterns.Pairwise fun p q => ∀ a b,
    p.Starts ds a → q.Starts ds b → a.overlaps b = false

/-- The symbols that alternatives start with, each with the name of its rule. -/
def firsts (ds : List RuleDeclaration) : List (String × SymbolSpec) :=
  ds.flatMap fun d => d.patterns.filterMap fun p => p.first?.map fun spec => (d.name, spec)

theorem mem_firsts {d : RuleDeclaration} (hd : d ∈ ds) {p : PatternDeclaration} (hp : p ∈ d.patterns)
    {spec : SymbolSpec} (first : p.first? = some spec) : (d.name, spec) ∈ firsts ds :=
  List.mem_flatMap.mpr ⟨d, hd, List.mem_filterMap.mpr ⟨p, hp, by rw [first]; rfl⟩⟩

/-- Chains are short where every first reference leads to a rule of a lower rank. -/
theorem shortChains_of_rank (rank : String → Nat)
    (lower : ∀ x ∈ firsts ds, ∀ next, x.2 = .rule next → rank next < rank x.1)
    (bound : ∀ name, rank name ≤ Limits.firstSetDepth) : ShortChains ds := by
  intro n name next chain
  have falls : rank next + n ≤ rank name := by
    induction chain with
    | refl name => exact Nat.le_refl _
    | step chain reference ih =>
      obtain ⟨⟨d, hd, rfl, p, hp, first⟩, -⟩ := reference
      have less := lower _ (mem_firsts hd hp first) _ rfl
      dsimp only at less
      omega
  have most := bound name
  omega

/-- Symbols can be resolved exactly if the declarations are in order. -/
theorem exists_resolve_iff : (∃ t, GrammarTable.resolve ds = .ok t) ↔ InOrder ds := by
  rw [GrammarTable.exists_resolve_iff_forall]
  simp only [GrammarTable.exists_resolveRule_iff, GrammarTable.exists_resolvePattern_iff,
    GrammarTable.exists_resolveSymbol_iff, exists_number?_iff]
  constructor
  · rintro ⟨names, rules⟩
    exact {
      names
      patterns := fun d hd => (rules d hd).1
      symbols := fun d hd p hp => ((rules d hd).2 p hp).1
      specs := fun d hd p hp text ht => (((rules d hd).2 p hp).2 text ht).1
      references := fun d hd p hp text ht => (((rules d hd).2 p hp).2 text ht).2 }
  · intro order
    exact ⟨order.names, fun d hd => ⟨order.patterns d hd, fun p hp => ⟨order.symbols d hd p hp,
      fun text ht => ⟨order.specs d hd p hp text ht, order.references d hd p hp text ht⟩⟩⟩⟩

end RuleDeclaration

open RuleDeclaration

/-! ## Tables -/

namespace GrammarTable

/-- A rule starts with the rules that its alternatives start with. -/
theorem mem_firstRules_iff {r : Rule} {id : RuleId} :
    id ∈ firstRules r ↔ ∃ p ∈ r.patterns, p.first? = some (.rule id) := by
  rw [firstRules, List.mem_filterMap]
  refine exists_congr fun p => and_congr_right fun _ => ?_
  split <;> simp_all

/-- A rule with an alternative is one of the table. -/
theorem lt_of_mem_patterns {t : GrammarTable} {id : RuleId} {q : Pattern} (h : q ∈ (t.rule id).patterns) :
    id.index < t.rules.size := by
  refine Nat.lt_of_not_le fun beyond => ?_
  rw [rule_eq_default beyond] at h
  cases h

/-- The first symbol of an alternative is what the declared one stands for. -/
theorem first?_of_resolvePattern {find : String → Option RuleId} {rule : String} {p : PatternDeclaration}
    {q : Pattern} (h : resolvePattern find rule p = .ok q) :
    ∃ spec s, p.first? = some spec ∧ q.first? = some s ∧ spec.Stands find s := by
  obtain ⟨full, -, symbols⟩ := resolvePattern_eq_ok_iff.mp h
  rw [PatternDeclaration.first?, Pattern.first?]
  generalize p.symbols = texts at full symbols
  generalize q.symbols = resolved at symbols
  cases symbols with
  | nil => exact absurd rfl full
  | cons first _ =>
    obtain ⟨spec, read, stands⟩ := resolveSymbol_eq_ok_iff.mp first
    exact ⟨spec, _, read, rfl, stands⟩

section
variable {ds : List RuleDeclaration} {t : GrammarTable} (h : resolve ds = .ok t)
include h

/-- A declaration is resolved to the rule that is found by its name. -/
theorem resolveRule_of_mem {d : RuleDeclaration} (hd : d ∈ ds) : ∃ id, number? ds d.name = some id ∧
    id.index < t.rules.size ∧ resolveRule (number? ds) d = .ok (t.rule id) := by
  obtain ⟨i, there⟩ := List.getElem?_of_mem hd
  have number : number? ds d.name = some ⟨i⟩ :=
    (number?_eq_some_iff (resolve_eq_ok_iff.mp h).1).mpr ⟨d, there, rfl⟩
  exact ⟨⟨i⟩, number, resolveRule_of_resolve h there⟩

/-- The rule of a number is what a declaration of this name is resolved to. -/
theorem exists_declaration {name : String} {id : RuleId} (number : number? ds name = some id) :
    ∃ d ∈ ds, d.name = name ∧ id.index < t.rules.size ∧ resolveRule (number? ds) d = .ok (t.rule id) := by
  obtain ⟨d, there, named⟩ := (number?_eq_some_iff (resolve_eq_ok_iff.mp h).1).mp number
  exact ⟨d, List.mem_of_getElem? there, named, resolveRule_of_resolve h there⟩

/-- Every rule of the table is found by the name of a declaration. -/
theorem exists_number {id : RuleId} (known : id.index < t.rules.size) :
    ∃ name, number? ds name = some id ∧ (t.rule id).name = name := by
  rw [size_of_resolve h] at known
  have there : ds[id.index]? = some ds[id.index] := by simp [known]
  have resolved := (resolveRule_of_resolve h there).2
  refine ⟨ds[id.index].name, ?_, (resolveRule_eq_ok_iff.mp resolved).2.1.1⟩
  exact (number?_eq_some_iff (resolve_eq_ok_iff.mp h).1).mpr ⟨_, there, rfl⟩

/-! ### Chains of first references -/

/-- A first reference that is declared is one of the table. -/
theorem references_of_firstReference {name next : String} (declared : FirstReference ds name next) :
    ∃ id id', number? ds name = some id ∧ number? ds next = some id' ∧ t.References id id' := by
  obtain ⟨⟨d, hd, rfl, p, hp, starts⟩, known⟩ := declared
  obtain ⟨id, number, -, rule⟩ := resolveRule_of_mem h hd
  obtain ⟨q, hq, pattern⟩ := exists_of_forall₂_left (resolveRule_eq_ok_iff.mp rule).2.2 hp
  obtain ⟨spec, s, first, head, stands⟩ := first?_of_resolvePattern pattern
  obtain rfl : spec = .rule next := Option.some.inj (first.symm.trans starts)
  obtain ⟨id', number', rfl⟩ := stands
  exact ⟨id, id', number, number', mem_firstRules_iff.mpr ⟨q, hq, head⟩⟩

/-- A first reference of the table is declared. -/
theorem firstReference_of_references {id id' : RuleId} (reference : t.References id id') :
    FirstReference ds (t.rule id).name (t.rule id').name := by
  obtain ⟨q, hq, head⟩ := mem_firstRules_iff.mp reference
  have known := lt_of_mem_patterns hq
  obtain ⟨name, number, named⟩ := exists_number h known
  obtain ⟨d, hd, rfl, -, rule⟩ := exists_declaration h number
  obtain ⟨p, hp, pattern⟩ := exists_of_forall₂_right (resolveRule_eq_ok_iff.mp rule).2.2 hq
  obtain ⟨spec, s, first, head', stands⟩ := first?_of_resolvePattern pattern
  obtain rfl : s = .rule id' := Option.some.inj (head'.symm.trans head)
  cases spec with
  | rule next =>
    obtain ⟨_, number', same⟩ := stands
    cases same
    obtain ⟨e, he, rfl, -, rule'⟩ := exists_declaration h number'
    rw [named, (resolveRule_eq_ok_iff.mp rule').2.1.1]
    exact ⟨⟨d, hd, rfl, p, hp, first⟩, e, he, rfl⟩
  | _ => cases stands

/-- A chain of first references of the table is one of the declarations. -/
theorem leads_of_references {n : Nat} {id id' : RuleId} (chain : Leads t.References n id id') :
    Leads (FirstReference ds) n (t.rule id).name (t.rule id').name := by
  induction chain with
  | refl id => exact .refl _
  | step chain next ih => exact .step ih (firstReference_of_references h next)

/-- A chain of first references that are declared is one of the table. -/
theorem leads_of_firstReferences {n : Nat} {name next : String} (chain : Leads (FirstReference ds) n name next)
    {id : RuleId} (start : number? ds name = some id) :
    ∃ id', number? ds next = some id' ∧ Leads t.References n id id' := by
  induction chain with
  | refl name => exact ⟨id, start, .refl id⟩
  | step chain next ih =>
    obtain ⟨id', there, chain'⟩ := ih start
    obtain ⟨x, y, number, number', reference⟩ := references_of_firstReference h next
    obtain rfl : id' = x := Option.some.inj (there.symm.trans number)
    exact ⟨y, number', chain'.step reference⟩

/-- Where references lead in a cycle, the table has a rule that is left-recursive. -/
theorem checkLeftRecursion_of_cycle {n : Nat} {name : String}
    (cycle : Leads (FirstReference ds) (n + 1) name name) : t.checkLeftRecursion ≠ .ok () := by
  obtain ⟨next, first, -⟩ := cycle.exists_first
  obtain ⟨id, -, number, -, reference⟩ := references_of_firstReference h first
  obtain ⟨id', number', chain⟩ := leads_of_firstReferences h cycle number
  obtain rfl : id = id' := Option.some.inj (number.symm.trans number')
  obtain ⟨-, -, -, known, -⟩ := exists_declaration h number
  intro passes
  have unfound := (checkLeftRecursion_eq_ok_iff t).mp passes id.index known
  rw [isLeftRecursive_of_cycle chain] at unfound
  cases unfound

/-- Where all chains are short, none of its rules is found to be left-recursive. -/
theorem checkLeftRecursion_of_shortChains (short : ShortChains ds) : t.checkLeftRecursion = .ok () := by
  rw [checkLeftRecursion_eq_ok_iff]
  intro i _
  rw [← Bool.not_eq_true]
  intro recursive
  obtain ⟨n, next, pos, chain, found⟩ := exists_of_isLeftRecursive recursive
  rcases found with rfl | long
  · -- a cycle is as long as one wants it to be
    obtain ⟨k, rfl⟩ := Nat.exists_eq_add_of_lt pos
    rw [Nat.zero_add] at chain
    obtain ⟨m, long, around⟩ := chain.exists_long Limits.firstSetDepth
    exact absurd (short _ _ _ (leads_of_references h around)) (Nat.not_le_of_lt long)
  · exact absurd (short _ _ _ (leads_of_references h chain)) (Nat.not_le_of_lt long)

/-! ### First terminals -/

/-- A first terminal that is found is one that the declared symbol can start with. -/
theorem startsWith_of_mem_firstOfSymbol {room : Nat} {s : Symbol} {spec : SymbolSpec} {a : Terminal}
    (stands : spec.Stands (number? ds) s) (found : a ∈ t.firstOfSymbol room s) : spec.StartsWith ds a := by
  fun_induction firstOfSymbol t room s generalizing spec with
  | case1 room text =>
    obtain rfl := List.mem_singleton.mp found
    cases spec with
    | literal text' =>
      cases stands
      exact .literal text
    | tokenClass k => cases stands
    | rule name =>
      obtain ⟨_, -, wrong⟩ := stands
      cases wrong
  | case2 room k =>
    obtain rfl := List.mem_singleton.mp found
    cases spec with
    | literal text => cases stands
    | tokenClass k' =>
      cases stands
      exact .tokenClass k
    | rule name =>
      obtain ⟨_, -, wrong⟩ := stands
      cases wrong
  | case3 id => cases found
  | case4 room id ih =>
    obtain ⟨q, hq, found⟩ := List.mem_flatMap.mp found
    cases spec with
    | rule name =>
      obtain ⟨_, number, same⟩ := stands
      cases same
      -- one of the alternatives of the rule starts with it
      obtain ⟨d, hd, rfl, -, rule⟩ := exists_declaration h number
      obtain ⟨p, hp, pattern⟩ := exists_of_forall₂_right (resolveRule_eq_ok_iff.mp rule).2.2 hq
      obtain ⟨spec, s, first, head, stands⟩ := first?_of_resolvePattern pattern
      rw [head] at found
      exact .rule hd hp first (ih s stands found)
    | _ => cases stands

/-- A terminal that a declared symbol can start with is found, if no chain is too long. -/
theorem mem_firstOfSymbol_of_startsWith {room : Nat} {s : Symbol} {spec : SymbolSpec} {a : Terminal}
    (stands : spec.Stands (number? ds) s) (starts : spec.StartsWith ds a)
    (near : ∀ id, s = .rule id → ∀ n id', Leads t.References n id id' → n < room) :
    a ∈ t.firstOfSymbol room s := by
  induction starts generalizing room s with
  | literal text =>
    cases stands
    cases room <;> exact List.mem_singleton_self _
  | tokenClass k =>
    cases stands
    cases room <;> exact List.mem_singleton_self _
  | @rule d p spec a hd hp first _ ih =>
    obtain ⟨id, number, rfl⟩ := stands
    obtain ⟨id', number', -, rule⟩ := resolveRule_of_mem h hd
    obtain rfl : id = id' := Option.some.inj (number.symm.trans number')
    obtain ⟨q, hq, pattern⟩ := exists_of_forall₂_left (resolveRule_eq_ok_iff.mp rule).2.2 hp
    obtain ⟨spec', s, first', head, stands⟩ := first?_of_resolvePattern pattern
    obtain rfl : spec' = spec := Option.some.inj (first'.symm.trans first)
    cases room with
    | zero => exact absurd (near id rfl 0 id (.refl id)) (Nat.not_lt_zero 0)
    | succ room =>
      refine List.mem_flatMap.mpr ⟨q, hq, ?_⟩
      rw [head]
      -- behind the reference the chains are shorter by one
      refine ih stands fun next same n id' chain => ?_
      have reference : t.References id next := mem_firstRules_iff.mpr ⟨q, hq, same ▸ head⟩
      exact Nat.lt_of_succ_lt_succ (near id rfl (n + 1) id' (chain.cons reference))

/-- Within the limit the first terminals of an alternative are those that it is declared to start with. -/
theorem mem_firstTerminals_iff (short : ShortChains ds) {id : RuleId} {rule : String} {p : PatternDeclaration}
    {q : Pattern} (hq : q ∈ (t.rule id).patterns) (pattern : resolvePattern (number? ds) rule p = .ok q)
    (a : Terminal) : a ∈ t.firstTerminals q ↔ p.Starts ds a := by
  obtain ⟨spec, s, first, head, stands⟩ := first?_of_resolvePattern pattern
  rw [firstTerminals, head]
  constructor
  · exact fun found => ⟨spec, first, startsWith_of_mem_firstOfSymbol h stands found⟩
  · rintro ⟨spec', first', starts⟩
    obtain rfl : spec' = spec := Option.some.inj (first'.symm.trans first)
    refine mem_firstOfSymbol_of_startsWith h stands starts fun next same n id' chain => ?_
    -- the reference from the rule itself counts, too
    have reference : t.References id next := mem_firstRules_iff.mpr ⟨q, hq, same ▸ head⟩
    exact short _ _ _ (leads_of_references h (chain.cons reference))

/-- Within the limit a table is found to be ambiguous if it is declared so. -/
theorem checkAmbiguity_iff_unambiguous (short : ShortChains ds) :
    t.checkAmbiguity = .ok () ↔ Unambiguous ds := by
  have rule {d : RuleDeclaration} {id : RuleId} (resolved : resolveRule (number? ds) d = .ok (t.rule id)) :
      t.checkRuleAmbiguity (t.rule id) = .ok () ↔ d.patterns.Pairwise fun p q => ∀ a b,
        p.Starts ds a → q.Starts ds b → a.overlaps b = false := by
    rw [LiveGrammar.checkRuleAmbiguity_eq_ok_iff]
    refine (pairwise_iff_of_forall₂ (resolveRule_eq_ok_iff.mp resolved).2.2
      fun p p' q hq q' hq' pattern pattern' => ?_).symm
    simp only [mem_firstTerminals_iff h short hq pattern, mem_firstTerminals_iff h short hq' pattern']
    exact ⟨fun apart a ha b hb => apart a b ha hb, fun apart a b ha hb => apart a ha b hb⟩
  -- each rule of the table has its declaration, and the other way round
  rw [checkAmbiguity, forM_eq_ok_iff]
  constructor
  · intro passes d hd
    obtain ⟨id, -, known, resolved⟩ := resolveRule_of_mem h hd
    refine (rule resolved).mp (passes _ ?_)
    rw [rule_eq_getElem t known]
    simp
  · intro apart r hr
    obtain ⟨i, known, rfl⟩ := List.getElem_of_mem hr
    have known : RuleId.index ⟨i⟩ < t.rules.size := by simpa using known
    obtain ⟨name, number, -⟩ := exists_number h known
    obtain ⟨d, hd, -, -, resolved⟩ := exists_declaration h number
    have passes := (rule resolved).mpr (apart d hd)
    rw [rule_eq_getElem t known] at passes
    simpa using passes

end

/-! ## Building -/

/-- A table that is built is indexed by its names: a name is found at the one place where it is declared, and
every reference is to a rule of the table. -/
structure Indexed (ds : List RuleDeclaration) (t : GrammarTable) : Prop where
  names : t.rules.toList.map (·.name) = ds.map (·.name)
  ruleId?_iff : ∀ name id, t.ruleId? name = some id ↔ id.index < t.rules.size ∧ (t.rule id).name = name
  valid : ∀ id, ∀ p ∈ (t.rule id).patterns, ∀ next, Symbol.rule next ∈ p.symbols → next.index < t.rules.size

theorem indexed_of_resolve {ds : List RuleDeclaration} {t : GrammarTable} (h : resolve ds = .ok t) :
    Indexed ds t where
  names := names_of_resolve h
  ruleId?_iff name id := by
    rw [ruleId?_of_resolve h]
    constructor
    · intro number
      obtain ⟨d, -, rfl, known, rule⟩ := exists_declaration h number
      exact ⟨known, (resolveRule_eq_ok_iff.mp rule).2.1.1⟩
    · rintro ⟨known, rfl⟩
      obtain ⟨name, number, named⟩ := exists_number h known
      rwa [named]
  valid id q hq next mem := by
    have known : id.index < t.rules.size := lt_of_mem_patterns hq
    obtain ⟨name, number, -⟩ := exists_number h known
    obtain ⟨d, -, -, -, rule⟩ := exists_declaration h number
    obtain ⟨p, -, pattern⟩ := exists_of_forall₂_right (resolveRule_eq_ok_iff.mp rule).2.2 hq
    obtain ⟨text, -, symbol⟩ := exists_of_forall₂_right (resolvePattern_eq_ok_iff.mp pattern).2.2 mem
    obtain ⟨spec, -, stands⟩ := resolveSymbol_eq_ok_iff.mp symbol
    cases spec with
    | rule name =>
      obtain ⟨_, number, same⟩ := stands
      cases same
      obtain ⟨-, -, -, known, -⟩ := exists_declaration h number
      exact known
    | _ => cases stands

/-- Building a table is exact as far as references are followed. -/
theorem validates (ds : List RuleDeclaration) :
    ((∃ n name, Leads (FirstReference ds) (n + 1) name name) → ∀ t, build ds ≠ .ok t) ∧
      (ShortChains ds → ((∃ t, build ds = .ok t) ↔ InOrder ds ∧ Unambiguous ds)) ∧
      ∀ t, build ds = .ok t → Indexed ds t := by
  simp only [ne_eq, build_eq_ok_iff]
  refine ⟨?_, fun short => ⟨?_, ?_⟩, fun t built => indexed_of_resolve built.1⟩
  · rintro ⟨n, name, cycle⟩ t ⟨resolved, passes, -⟩
    exact checkLeftRecursion_of_cycle resolved cycle passes
  · rintro ⟨t, resolved, -, passes⟩
    exact ⟨exists_resolve_iff.mp ⟨t, resolved⟩, (checkAmbiguity_iff_unambiguous resolved short).mp passes⟩
  · rintro ⟨order, apart⟩
    obtain ⟨t, resolved⟩ := exists_resolve_iff.mpr order
    exact ⟨t, resolved, checkLeftRecursion_of_shortChains resolved short,
      (checkAmbiguity_iff_unambiguous resolved short).mpr apart⟩

/-- Rules that are declared in every form there is. -/
def mixedForms : List RuleDeclaration :=
  .once "statement" [.sequence ["_flags", "!flagList"], .sequence ["!operand", "!operandTail"]] ::
    .choice "operand" ["$INTEGER", "$STRING"] :: .operandChain "operandTail" ["|", "&"] "!operand" ::
      (RuleDeclaration.commaListOf "flagList" "$ID" ++ RuleDeclaration.listOf "numbers" "$INTEGER")

/-- Rules that start with each other. -/
def mutualForms : List RuleDeclaration := [
  .once "expression" [.sequence ["!term", "_+", "$INTEGER"]],
  .once "term" [.sequence ["!expression"], .sequence ["$ID"]]]

/-- A table is built of declarations in every form, and they are in order. No table is built of rules that start
with each other. -/
theorem validates_forms :
    (ShortChains mixedForms ∧ (InOrder mixedForms ∧ Unambiguous mixedForms) ∧
      ∃ t, build mixedForms = .ok t ∧ Indexed mixedForms t) ∧
    (∃ n name, Leads (FirstReference mutualForms) (n + 1) name name) ∧ ∀ t, build mutualForms ≠ .ok t := by
  have short : ShortChains mixedForms := by
    have firsts : firsts mixedForms = [("statement", .literal "flags"), ("statement", .rule "operand"),
        ("operand", .tokenClass .integer), ("operand", .tokenClass .string), ("operandTail", .literal "|"),
        ("operandTail", .literal "&"), ("moreFlagList", .literal ","), ("flagList", .tokenClass .id),
        ("moreNumbers", .tokenClass .integer), ("numbers", .tokenClass .integer)] := by decide +kernel
    refine shortChains_of_rank (fun name => if name = "statement" then 1 else 0) ?_ fun name => ?_
    · rw [firsts]
      simp
    · split <;> decide
  have built : ∃ t, build mixedForms = .ok t := by
    have made : (build mixedForms).toOption.isSome = true := by decide +kernel
    obtain ⟨t, ht⟩ := Option.isSome_iff_exists.mp made
    exact ⟨t, eq_ok_of_toOption ht⟩
  have around : Leads (FirstReference mutualForms) 2 "expression" "expression" := by
    have there : FirstReference mutualForms "expression" "term" :=
      ⟨⟨_, List.mem_cons_self, rfl, _, List.mem_cons_self, by decide +kernel⟩, _,
        List.mem_cons_of_mem _ List.mem_cons_self, rfl⟩
    have back : FirstReference mutualForms "term" "expression" :=
      ⟨⟨_, List.mem_cons_of_mem _ List.mem_cons_self, rfl, _, List.mem_cons_self, by decide +kernel⟩, _,
        List.mem_cons_self, rfl⟩
    exact .step (.step (.refl _) there) back
  obtain ⟨-, exactly, indexed⟩ := validates mixedForms
  obtain ⟨t, ht⟩ := built
  exact ⟨⟨short, (exactly short).mp ⟨t, ht⟩, t, ht, indexed t ht⟩, ⟨1, _, around⟩,
    (validates mutualForms).1 ⟨1, _, around⟩⟩

end GrammarTable

end Planfile
