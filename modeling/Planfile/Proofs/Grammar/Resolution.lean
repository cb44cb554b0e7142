import Mathlib.Data.List.Forall2
import Planfile.Grammar.Declaration
import Planfile.Grammar.Table

/-!
# Planfile — what declarations are resolved to

The table of some declarations has the rules in the order in which they are declared, and a name stands for the
place of its declaration. What can go wrong while symbols are resolved can be told from each declaration, and
where nothing does, the rules of the table are those that are declared, symbol by symbol.

Main results:

* `GrammarTable.isLeftRecursive_of_cycle` — a rule that leads back to itself is found.
* `GrammarTable.exists_of_isLeftRecursive` — what is found is a cycle, or a chain that is too long.
* `GrammarTable.resolve_eq_ok_iff` — which table is that of some declarations.
* `RuleDeclaration.number?_eq_some_iff` — a name stands for its place, where no name is declared twice.
-/

/-!
## Left recursion is found

Whether a rule can start with itself is found by following first references from it, each rule once. What is
pending is one reference after another away from the rule, as many as are noted with it, so whatever is found is
a cycle or a chain that is too long. And where nothing is found, what has been seen in the end is closed under
references and the rule is not in it. So no cycle is missed, however the references are followed.

The search has a bound on its steps. Each step takes one reference from what is pending, and a rule that is
seen for the first time adds its own: with the references of the rules not seen yet, what is pending gets less
in each step, and at first these are all there are.
-/

namespace Planfile

/-! ## Chains -/

/-- How one thing leads to another over so many steps of a relation. -/
inductive Leads (r : α → α → Prop) : Nat → α → α → Prop
  | refl (a : α) : Leads r 0 a a
  | step {n : Nat} {a b c : α} (chain : Leads r n a b) (next : r b c) : Leads r (n + 1) a c

namespace Leads

variable {r : α → α → Prop} {n : Nat} {a b c : α}

/-- A chain can be made longer at its start. -/
theorem cons (first : r a b) (chain : Leads r n b c) : Leads r (n + 1) a c := by
  induction chain with
  | refl b => exact .step (.refl a) first
  | step chain next ih => exact .step (ih first) next

/-- A chain of some length has a first step. -/
theorem exists_first (chain : Leads r (n + 1) a c) : ∃ b, r a b ∧ Leads r n b c := by
  induction n generalizing c with
  | zero =>
    cases chain with
    | step chain next =>
      cases chain
      exact ⟨c, next, .refl c⟩
  | succ n ih =>
    cases chain with
    | step chain next =>
      obtain ⟨b, first, rest⟩ := ih chain
      exact ⟨b, first, .step rest next⟩

/-- Two chains, one after the other. -/
theorem trans {m : Nat} (chain : Leads r n a b) (rest : Leads r m b c) : Leads r (n + m) a c := by
  induction rest with
  | refl b => exact chain
  | step rest next ih => exact .step (ih chain) next

/-- What is closed under a relation is not left along a chain of it. -/
theorem mem_of_closed {p : α → Prop} (chain : Leads r n a b) (closed : ∀ x, p x → ∀ y, r x y → p y)
    (start : p a) : p b := by
  induction chain with
  | refl a => exact start
  | step chain next ih => exact closed _ (ih start) _ next

/-- A cycle can be gone round as often as wanted. -/
theorem exists_long (cycle : Leads r (n + 1) a a) (k : Nat) : ∃ m, k < m ∧ Leads r m a a := by
  induction k with
  | zero => exact ⟨n + 1, Nat.succ_pos n, cycle⟩
  | succ k ih =>
    obtain ⟨m, long, chain⟩ := ih
    exact ⟨m + (n + 1), by omega, chain.trans cycle⟩

end Leads

namespace GrammarTable

/-- Whether a rule has an alternative that starts with another rule. -/
def References (t : GrammarTable) (id next : RuleId) : Prop := next ∈ firstRules (t.rule id)

section
variable {t : GrammarTable} {target id : RuleId} {steps : Nat} {pending : List (RuleId × Nat)}
  {seen : List RuleId}

/-! ## What is found -/

/-- What is found while references are followed is a cycle, or a chain that is too long. -/
theorem exists_of_reachesItself (h : t.reachesItself target steps pending seen = true)
    (chains : ∀ e ∈ pending, 0 < e.2 ∧ Leads t.References e.2 target e.1) :
    ∃ n id, 0 < n ∧ Leads t.References n target id ∧ (id = target ∨ Limits.firstSetDepth < n) := by
  fun_induction reachesItself t target steps pending seen with
  | case1 steps id depth pending seen found =>
    obtain ⟨pos, chain⟩ := chains _ List.mem_cons_self
    exact ⟨depth, id, pos, chain, found⟩
  | case2 steps id depth pending seen _ known ih =>
    exact ih h fun e he => chains e (List.mem_cons_of_mem _ he)
  | case3 steps id depth pending seen _ new next ih =>
    refine ih h fun e he => ?_
    rcases List.mem_append.mp he with he | he
    · -- one reference further than the rule that has been taken from what is pending
      obtain ⟨id', mem, rfl⟩ := List.mem_map.mp he
      obtain ⟨-, chain⟩ := chains _ List.mem_cons_self
      exact ⟨Nat.succ_pos depth, chain.step (List.mem_reverse.mp mem)⟩
    · exact chains e (List.mem_cons_of_mem _ he)
  | case4 => cases h

theorem exists_of_isLeftRecursive (h : t.isLeftRecursive id = true) :
    ∃ n next, 0 < n ∧ Leads t.References n id next ∧ (next = id ∨ Limits.firstSetDepth < n) := by
  refine exists_of_reachesItself h fun e he => ?_
  obtain ⟨next, mem, rfl⟩ := List.mem_map.mp he
  exact ⟨Nat.one_pos, .step (.refl id) (List.mem_reverse.mp mem)⟩

/-! ## Nothing is missed -/

/-- The references of some rules. -/
def outgoing (t : GrammarTable) (ids : List RuleId) : Nat :=
  (ids.flatMap fun id => firstRules (t.rule id)).length

/-- A rule that is taken from some takes its references with it. -/
theorem outgoing_erase {ids : List RuleId} (h : id ∈ ids) :
    t.outgoing ids = (firstRules (t.rule id)).length + t.outgoing (ids.erase id) := by
  have same := ((List.perm_cons_erase h).flatMap_right fun id => firstRules (t.rule id)).length_eq
  rwa [List.flatMap_cons, List.length_append] at same

/-- The rules of a table. -/
def ids (t : GrammarTable) : List RuleId := (List.range t.rules.size).map RuleId.mk

/-- All references together are those of all rules. -/
theorem outgoing_ids (t : GrammarTable) : t.outgoing t.ids = t.referenceCount := by
  have rules : (List.range t.rules.size).map (fun i => t.rule ⟨i⟩) = t.rules.toList := by
    refine List.ext_getElem (by simp) fun i hi _ => ?_
    simp at hi
    simp [rule_eq_getElem t hi]
  have count : t.rules.toList.foldl (fun n r => n + (firstRules r).length) 0 =
      (t.rules.toList.flatMap firstRules).length := by
    rw [List.length_flatMap, List.sum_eq_foldl, List.foldl_map]
  rw [referenceCount, ← Array.foldl_toList, count, ← rules, outgoing, ids, List.flatMap_map,
    List.flatMap_map]

/-- Where nothing is found, what has been seen in the end is closed under references. -/
theorem exists_closed_of_reachesItself (rest : List RuleId)
    (h : t.reachesItself target steps pending seen = false)
    (room : pending.length + t.outgoing rest < steps)
    (covers : ∀ id, id.index < t.rules.size → id ∉ seen → id ∈ rest)
    (kept : ∀ id ∈ seen, ∀ next, t.References id next → next ∈ seen ∨ next ∈ pending.map Prod.fst)
    (absent : target ∉ seen) :
    ∃ closed : List RuleId, (∀ id ∈ closed, ∀ next, t.References id next → next ∈ closed) ∧
      (∀ id ∈ seen, id ∈ closed) ∧ (∀ id ∈ pending.map Prod.fst, id ∈ closed) ∧ target ∉ closed := by
  fun_induction reachesItself t target steps pending seen generalizing rest with
  | case1 => cases h
  | case2 steps id depth pending seen _ known ih =>
    have known : id ∈ seen := by simpa using known
    have room : pending.length + t.outgoing rest < steps := by
      simp only [List.length_cons] at room
      omega
    obtain ⟨closed, steady, all, more, none⟩ := ih rest h room covers (fun x hx next hn => by
      rcases kept x hx next hn with old | old
      · exact .inl old
      · rcases List.mem_cons.mp old with rfl | old
        · exact .inl known
        · exact .inr old) absent
    exact ⟨closed, steady, all, List.forall_mem_cons.mpr ⟨all id known, more⟩, none⟩
  | case3 steps id depth pending seen unfound new next =>
    rename_i ih
    have new : id ∉ seen := by simpa using new
    have other : id ≠ target := fun same => unfound (.inl same)
    -- the rule is not seen again, so that its references are taken from those that are left
    have left : ∃ rest', (∀ x, x.index < t.rules.size → x ∉ id :: seen → x ∈ rest') ∧
        t.outgoing rest = (firstRules (t.rule id)).length + t.outgoing rest' := by
      by_cases known : id.index < t.rules.size
      · refine ⟨rest.erase id, fun x hx fresh => ?_, outgoing_erase (covers id known new)⟩
        rw [List.mem_cons, not_or] at fresh
        exact (List.mem_erase_of_ne fresh.1).mpr (covers x hx fresh.2)
      · refine ⟨rest, fun x hx fresh => covers x hx fun old => fresh (List.mem_cons_of_mem _ old), ?_⟩
        rw [rule_eq_default (Nat.le_of_not_lt known)]
        exact (Nat.zero_add _).symm
    obtain ⟨rest', covers', less⟩ := left
    have room' : (next ++ pending).length + t.outgoing rest' < steps := by
      simp only [next, List.length_append, List.length_map, List.length_reverse, List.length_cons] at room ⊢
      omega
    obtain ⟨closed, steady, all, more, none⟩ := ih rest' h room' covers' (fun x hx y hy => by
      rw [List.map_append, List.mem_append, List.mem_cons]
      rcases List.mem_cons.mp hx with rfl | hx
      · -- what it refers to is pending now
        exact .inr (.inl (by simpa [next, References] using hy))
      · rcases kept x hx y hy with old | old
        · exact .inl (.inr old)
        · rcases List.mem_cons.mp old with rfl | old
          · exact .inl (.inl rfl)
          · exact .inr (.inr old)) (by simp [absent, other.symm])
    refine ⟨closed, steady, fun x hx => all x (List.mem_cons_of_mem _ hx), fun x hx => ?_, none⟩
    rcases List.mem_cons.mp hx with rfl | hx
    · exact all _ List.mem_cons_self
    · exact more x (by simp [hx])
  | case4 steps pending seen ended =>
    cases pending with
    | nil =>
      refine ⟨seen, fun x hx y hy => ?_, fun _ hx => hx, fun _ hx => (nomatch hx), absent⟩
      exact (kept x hx y hy).resolve_right (fun wrong => nomatch wrong)
    | cons e pending =>
      -- there are steps left
      cases steps with
      | zero => exact absurd room (Nat.not_lt_zero _)
      | succ steps => exact absurd rfl (ended steps e.1 e.2 pending rfl)

/-- A rule that leads back to itself is found. -/
theorem isLeftRecursive_of_cycle {n : Nat} (cycle : Leads t.References (n + 1) id id) :
    t.isLeftRecursive id = true := by
  rw [← Bool.not_eq_false]
  intro unfound
  obtain ⟨closed, steady, -, first, absent⟩ := exists_closed_of_reachesItself t.ids unfound
    (by rw [outgoing_ids]; exact Nat.lt_succ_self _)
    (fun x hx _ => List.mem_map.mpr ⟨x.index, List.mem_range.mpr hx, rfl⟩)
    (fun x hx => (nomatch hx)) (fun hx => nomatch hx)
  obtain ⟨next, reference, rest⟩ := cycle.exists_first
  have start : next ∈ closed := first next (by simpa [References] using reference)
  exact absent (rest.mem_of_closed steady start)

/-- The check passes where no rule of the table is found to be left-recursive. -/
theorem checkLeftRecursion_eq_ok_iff (t : GrammarTable) :
    t.checkLeftRecursion = .ok () ↔ ∀ i < t.rules.size, t.isLeftRecursive ⟨i⟩ = false := by
  unfold checkLeftRecursion
  split
  · next i found =>
    have known : i < t.rules.size := List.mem_range.mp (List.mem_of_find?_eq_some found)
    have recursive : t.isLeftRecursive ⟨i⟩ = true := by simpa using List.find?_some found
    simp only [reduceCtorEq, false_iff]
    intro all
    rw [all i known] at recursive
    cases recursive
  · next none =>
    rw [List.find?_eq_none] at none
    simpa using none

end

end GrammarTable

end Planfile

namespace Planfile

/-! ## Lists -/

section
variable {f : α → Except ε β} {xs : List α} {ys : List β}

/-- A list is mapped by a function that may fail if each of its elements is. -/
theorem mapM_eq_ok_iff : xs.mapM f = .ok ys ↔ List.Forall₂ (fun x y => f x = .ok y) xs ys := by
  induction xs generalizing ys with
  | nil => cases ys <;> simp [pure, Except.pure]
  | cons x xs ih =>
    rw [List.mapM_cons]
    cases first : f x with
    | error e => cases ys <;> simp [bind, Except.bind, first]
    | ok y =>
      cases others : xs.mapM f with
      | error e =>
        cases ys with
        | nil => simp [bind, Except.bind]
        | cons z zs => simp [bind, Except.bind, ← ih, others]
      | ok more =>
        cases ys with
        | nil => simp [bind, Except.bind, pure, Except.pure]
        | cons z zs => simp [bind, Except.bind, pure, Except.pure, ← ih, others, first]

/-- There is such a list if the function fails for none. -/
theorem exists_mapM_iff : (∃ ys, xs.mapM f = .ok ys) ↔ ∀ x ∈ xs, ∃ y, f x = .ok y := by
  induction xs with
  | nil => simp [pure, Except.pure]
  | cons x xs ih =>
    rw [List.forall_mem_cons, ← ih, List.mapM_cons]
    cases first : f x with
    | error e => simp [bind, Except.bind]
    | ok y => cases others : xs.mapM f <;> simp [bind, Except.bind, pure, Except.pure]

/-- Where elements go together, one of the first list has one of the second that goes with it. -/
theorem exists_of_forall₂_left {s : α → β → Prop} (h : List.Forall₂ s xs ys) {x : α} (hx : x ∈ xs) :
    ∃ y ∈ ys, s x y := by
  induction h with
  | nil => cases hx
  | @cons _ y _ ys first _ ih =>
    rcases List.mem_cons.mp hx with rfl | hx
    · exact ⟨y, List.mem_cons_self, first⟩
    · obtain ⟨z, hz, both⟩ := ih hx
      exact ⟨z, List.mem_cons_of_mem _ hz, both⟩

/-- And the other way round. -/
theorem exists_of_forall₂_right {s : α → β → Prop} (h : List.Forall₂ s xs ys) {y : β} (hy : y ∈ ys) :
    ∃ x ∈ xs, s x y :=
  exists_of_forall₂_left h.flip hy

/-- Lists whose elements go together are alike in their pairs. -/
theorem pairwise_iff_of_forall₂ {s : α → β → Prop} {r : α → α → Prop} {r' : β → β → Prop}
    (h : List.Forall₂ s xs ys)
    (same : ∀ x x', ∀ y ∈ ys, ∀ y' ∈ ys, s x y → s x' y' → (r x x' ↔ r' y y')) :
    xs.Pairwise r ↔ ys.Pairwise r' := by
  induction h with
  | nil => simp
  | @cons x y xs ys hx rest ih =>
    have firsts : (∀ x' ∈ xs, r x x') ↔ ∀ y' ∈ ys, r' y y' := by
      refine ⟨fun all y' hy' => ?_, fun all x' hx' => ?_⟩
      · obtain ⟨x', hx', both⟩ := exists_of_forall₂_right rest hy'
        exact (same x x' y List.mem_cons_self y' (List.mem_cons_of_mem _ hy') hx both).mp (all x' hx')
      · obtain ⟨y', hy', both⟩ := exists_of_forall₂_left rest hx'
        exact (same x x' y List.mem_cons_self y' (List.mem_cons_of_mem _ hy') hx both).mpr (all y' hy')
    have later := ih fun x x' y hy y' hy' =>
      same x x' y (List.mem_cons_of_mem _ hy) y' (List.mem_cons_of_mem _ hy')
    rw [List.pairwise_cons, List.pairwise_cons, later, firsts]

end

/-! ## Names -/

namespace RuleDeclaration

/-- The number of the rule of a name. -/
def number? (ds : List RuleDeclaration) (name : String) : Option RuleId :=
  (ds.findIdx? (·.name == name)).map RuleId.mk

/-- A name stands for the place of its declaration, where no name is declared twice. -/
theorem number?_eq_some_iff {ds : List RuleDeclaration} (unique : (ds.map (·.name)).Nodup) {name : String}
    {id : RuleId} : number? ds name = some id ↔ ∃ d, ds[id.index]? = some d ∧ d.name = name := by
  have place (i : Nat) : ds.findIdx? (·.name == name) = some i ↔ ∃ d, ds[i]? = some d ∧ d.name = name := by
    rw [List.findIdx?_eq_some_iff_getElem]
    constructor
    · rintro ⟨known, same, -⟩
      exact ⟨ds[i], by simp [known], by simpa using same⟩
    · rintro ⟨d, there, rfl⟩
      obtain ⟨known, rfl⟩ := List.getElem?_eq_some_iff.mp there
      refine ⟨known, by simp, fun j before same => ?_⟩
      -- an earlier declaration of this name would be a second one
      have apart := List.pairwise_iff_getElem.mp unique j i (by simp; omega) (by simpa using known) before
      simp only [List.getElem_map] at apart
      exact apart (by simpa using same)
  cases id with
  | mk i => simp [number?, place]

/-- A name has a number if it is declared. -/
theorem exists_number?_iff {ds : List RuleDeclaration} {name : String} :
    (∃ id, number? ds name = some id) ↔ ∃ d ∈ ds, d.name = name := by
  rw [← Option.isSome_iff_exists, number?, Option.isSome_map, List.findIdx?_isSome]
  simp

end RuleDeclaration

open RuleDeclaration (number?)

/-! ## Symbols, alternatives and rules -/

/-- What a declared symbol stands for, by the numbers of names. -/
def SymbolSpec.Stands (find : String → Option RuleId) : SymbolSpec → Symbol → Prop
  | .literal text, s => s = .literal text
  | .tokenClass k, s => s = .tokenClass k
  | .rule name, s => ∃ id, find name = some id ∧ s = .rule id

namespace GrammarTable

variable {find : String → Option RuleId} {ds : List RuleDeclaration} {t : GrammarTable}

theorem resolveSymbol_eq_ok_iff {rule text : String} {s : Symbol} :
    resolveSymbol find rule text = .ok s ↔ ∃ spec, SymbolSpec.ofText? text = some spec ∧ spec.Stands find s := by
  unfold resolveSymbol
  cases SymbolSpec.ofText? text with
  | none => simp
  | some spec =>
    cases spec with
    | rule name =>
      simp only [SymbolSpec.Stands, Option.some.injEq, exists_eq_left']
      cases find name <;> simp [eq_comm]
    | _ => simp [SymbolSpec.Stands, eq_comm]

theorem resolvePattern_eq_ok_iff {rule : String} {p : PatternDeclaration} {q : Pattern} :
    resolvePattern find rule p = .ok q ↔ p.symbols ≠ [] ∧ q.action = p.action ∧
      List.Forall₂ (fun text s => resolveSymbol find rule text = .ok s) p.symbols q.symbols := by
  unfold resolvePattern
  rw [← mapM_eq_ok_iff]
  cases q with
  | mk symbols action =>
    cases empty : p.symbols with
    | nil => simp
    | cons text rest =>
      cases (text :: rest).mapM (resolveSymbol find rule) <;>
        simp [bind, Except.bind, pure, Except.pure, eq_comm, and_comm]

theorem resolveRule_eq_ok_iff {d : RuleDeclaration} {r : Rule} :
    resolveRule find d = .ok r ↔ d.patterns ≠ [] ∧
      (r.name = d.name ∧ r.optional = d.optional ∧ r.repeatable = d.repeatable) ∧
      List.Forall₂ (fun p q => resolvePattern find d.name p = .ok q) d.patterns r.patterns := by
  unfold resolveRule
  rw [← mapM_eq_ok_iff]
  cases r with
  | mk name patterns optional repeatable =>
    cases empty : d.patterns with
    | nil => simp
    | cons p rest =>
      cases (p :: rest).mapM (resolvePattern find d.name) <;>
        simp [bind, Except.bind, pure, Except.pure, eq_comm, and_comm, and_assoc, and_left_comm]

/-! ## What can be resolved -/

/-- A symbol can be resolved if it can be read, and if the rule that it refers to has a number. -/
theorem exists_resolveSymbol_iff {rule text : String} :
    (∃ s, resolveSymbol find rule text = .ok s) ↔ (∃ spec, SymbolSpec.ofText? text = some spec) ∧
      ∀ name, SymbolSpec.ofText? text = some (.rule name) → ∃ id, find name = some id := by
  simp only [resolveSymbol_eq_ok_iff]
  cases SymbolSpec.ofText? text with
  | none => simp
  | some spec => cases spec <;> simp [SymbolSpec.Stands]

/-- An alternative can be resolved if it is not empty and all of its symbols can. -/
theorem exists_resolvePattern_iff {rule : String} {p : PatternDeclaration} :
    (∃ q, resolvePattern find rule p = .ok q) ↔ p.symbols ≠ [] ∧
      ∀ text ∈ p.symbols, ∃ s, resolveSymbol find rule text = .ok s := by
  simp only [resolvePattern_eq_ok_iff, ← mapM_eq_ok_iff, ← exists_mapM_iff]
  constructor
  · rintro ⟨q, full, -, symbols⟩
    exact ⟨full, q.symbols, symbols⟩
  · rintro ⟨full, symbols, resolved⟩
    exact ⟨⟨symbols, p.action⟩, full, rfl, resolved⟩

/-- A rule can be resolved if it is not empty and all of its alternatives can. -/
theorem exists_resolveRule_iff {d : RuleDeclaration} :
    (∃ r, resolveRule find d = .ok r) ↔ d.patterns ≠ [] ∧
      ∀ p ∈ d.patterns, ∃ q, resolvePattern find d.name p = .ok q := by
  simp only [resolveRule_eq_ok_iff, ← mapM_eq_ok_iff, ← exists_mapM_iff]
  constructor
  · rintro ⟨r, full, -, patterns⟩
    exact ⟨full, r.patterns, patterns⟩
  · rintro ⟨full, patterns, resolved⟩
    exact ⟨⟨d.name, patterns, d.optional, d.repeatable⟩, full, ⟨rfl, rfl, rfl⟩, resolved⟩

/-! ## Tables -/

/-- No name is found to be declared a second time if there is none. -/
theorem duplicate?_eq_none_iff {seen : List String} :
    duplicate? seen ds = none ↔ (ds.map (·.name)).Nodup ∧ ∀ d ∈ ds, d.name ∉ seen := by
  induction ds generalizing seen with
  | nil => simp [duplicate?]
  | cons d rest ih =>
    rw [duplicate?]
    rw [List.map_cons, List.nodup_cons, List.forall_mem_cons]
    split
    · next again =>
      have old : d.name ∈ seen := by simpa using again
      simp [old]
    · next new =>
      have fresh : d.name ∉ seen := by simpa using new
      rw [ih]
      -- the name must not be one of those behind it either
      have apart : (∀ e ∈ rest, e.name ∉ d.name :: seen) ↔
          d.name ∉ rest.map (·.name) ∧ ∀ e ∈ rest, e.name ∉ seen := by
        simp only [List.mem_cons, not_or, List.mem_map, not_exists, not_and]
        exact ⟨fun all => ⟨fun e he => (all e he).1, fun e he => (all e he).2⟩,
          fun both e he => ⟨both.1 e he, both.2 e he⟩⟩
      rw [apart]
      simp only [fresh, not_false_eq_true, true_and]
      exact and_left_comm.trans and_assoc.symm

/-- Which table is that of some declarations: no name is declared twice, and each rule is the one that is
declared at its place. -/
theorem resolve_eq_ok_iff : resolve ds = .ok t ↔ (ds.map (·.name)).Nodup ∧
    List.Forall₂ (fun d r => resolveRule (number? ds) d = .ok r) ds t.rules.toList := by
  unfold resolve
  cases twice : duplicate? [] ds with
  | some name =>
    have repeated : ¬(ds.map (·.name)).Nodup := fun unique => by
      rw [duplicate?_eq_none_iff.mpr ⟨unique, by simp⟩] at twice
      cases twice
    simp [repeated]
  | none =>
    have unique := (duplicate?_eq_none_iff.mp twice).1
    rw [← mapM_eq_ok_iff]
    obtain ⟨⟨rules⟩⟩ := t
    change (do let rules ← ds.mapM (resolveRule (number? ds)); return (⟨rules.toArray⟩ : GrammarTable)) = _ ↔ _
    cases ds.mapM (resolveRule (number? ds)) <;> simp [bind, Except.bind, pure, Except.pure, unique]

/-- Declarations can be resolved if no name is declared twice and each of them can. -/
theorem exists_resolve_iff_forall : (∃ t, resolve ds = .ok t) ↔ (ds.map (·.name)).Nodup ∧
    ∀ d ∈ ds, ∃ r, resolveRule (number? ds) d = .ok r := by
  simp only [resolve_eq_ok_iff, ← mapM_eq_ok_iff, ← exists_mapM_iff]
  constructor
  · rintro ⟨t, unique, rules⟩
    exact ⟨unique, t.rules.toList, rules⟩
  · rintro ⟨unique, rules, resolved⟩
    exact ⟨⟨rules.toArray⟩, unique, resolved⟩

section
variable (h : resolve ds = .ok t)
include h

/-- The rules of a table have the names that are declared, in this order. -/
theorem names_of_resolve : t.rules.toList.map (·.name) = ds.map (·.name) := by
  have all {find : String → Option RuleId} {ds : List RuleDeclaration} {rules : List Rule}
      (resolved : List.Forall₂ (fun d r => resolveRule find d = .ok r) ds rules) :
      rules.map (·.name) = ds.map (·.name) := by
    induction resolved with
    | nil => rfl
    | cons rule _ ih => rw [List.map_cons, List.map_cons, ih, (resolveRule_eq_ok_iff.mp rule).2.1.1]
  exact all (resolve_eq_ok_iff.mp h).2

/-- The number of a name in the table is its number among the declarations. -/
theorem ruleId?_of_resolve (name : String) : t.ruleId? name = number? ds name := by
  have names := names_of_resolve h
  have place : t.rules.toList.findIdx? (·.name == name) = ds.findIdx? (·.name == name) := by
    have same := congrArg (List.findIdx? (· == name)) names
    simpa [List.findIdx?_map, Function.comp_def] using same
  obtain ⟨⟨rules⟩⟩ := t
  rw [ruleId?, number?, ← place, List.findIdx?_toArray]

/-- There are as many rules as declarations. -/
theorem size_of_resolve : t.rules.size = ds.length := by
  have same := congrArg List.length (names_of_resolve h)
  simpa using same

/-- At the place of a declaration is the rule that it is resolved to. -/
theorem resolveRule_of_resolve {i : Nat} {d : RuleDeclaration} (there : ds[i]? = some d) :
    i < t.rules.size ∧ resolveRule (number? ds) d = .ok (t.rule ⟨i⟩) := by
  have rules := (resolve_eq_ok_iff.mp h).2
  obtain ⟨known, rfl⟩ := List.getElem?_eq_some_iff.mp there
  have known' : i < t.rules.size := by rwa [size_of_resolve h]
  refine ⟨known', ?_⟩
  rw [rule_eq_getElem t known']
  simpa using rules.get known (by simpa using known')

end

end GrammarTable

end Planfile
