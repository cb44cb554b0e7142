import Planfile.Proofs.Course.Tree

/-!
# Planfile — what is kept while a part of the language is read

Some rules of a grammar refer to none but themselves, and what they do is of some kinds only. Whatever
such actions keep is kept while one of these rules is matched, no matter what the other rules do.

Main results:

* `Course.of_isSingle` — where such a rule has been matched, one of its alternatives has.
* `GrammarTable.encloses_of_check` — where the check passes, some rules refer to none but themselves.
* `Course.keeps` — what the actions of such rules keep, a part that has been matched keeps.
-/

/-!
## Rules that stand for one of their alternatives

A rule that is neither optional nor repeatable, and to which no plan can add attributes, stands for exactly
one of the alternatives that it is declared with.
-/

namespace Planfile

open Matcher

namespace GrammarTable

/-- Whether a rule stands for exactly one of its alternatives, to which no plan can add others. -/
def isSingle (t : GrammarTable) (id : RuleId) : Bool :=
  !(t.rule id).optional && !(t.rule id).repeatable && !extendableNames.contains (t.rule id).name

/-- Whether it is one alternative that a rule always stands for. -/
def isOnly (t : GrammarTable) (p : Pattern) (id : RuleId) : Bool :=
  t.isSingle id && (t.rule id).patterns == [p]

variable {t : GrammarTable} {id : RuleId}

theorem optional_of_isSingle (h : t.isSingle id = true) : (t.rule id).optional = false := by
  simp only [isSingle, Bool.and_eq_true, Bool.not_eq_true'] at h
  exact h.1.1

theorem repeatable_of_isSingle (h : t.isSingle id = true) : (t.rule id).repeatable = false := by
  simp only [isSingle, Bool.and_eq_true, Bool.not_eq_true'] at h
  exact h.1.2

/-- To a rule that is not for attributes no plan can add an alternative. -/
theorem not_isExtendable_of_name (h : extendableNames.contains (t.rule id).name = false) :
    ¬ t.IsExtendable id := by
  rintro ⟨name, listed, found⟩
  rw [name_of_ruleId? found, List.contains_iff_mem.mpr listed] at h
  cases h

theorem not_isExtendable_of_isSingle (h : t.isSingle id = true) : ¬ t.IsExtendable id := by
  simp only [isSingle, Bool.and_eq_true, Bool.not_eq_true'] at h
  exact not_isExtendable_of_name h.2

theorem Offers.mem_of_isSingle (h : t.isSingle id = true) {p : Pattern} (offered : t.Offers id p) :
    p ∈ (t.rule id).patterns := by
  rcases offered with declared | ⟨extendable, -⟩
  · exact declared
  · exact absurd extendable (not_isExtendable_of_isSingle h)

end GrammarTable

/-- Where a rule stands for one of its alternatives, this one has been matched. -/
theorem Course.of_isSingle {ofRule : RuleId → Shape} {effects : Effects} {env : Surroundings}
    {c d : Context} {id : RuleId} (single : env.grammar.isSingle id = true) {v : Option Value}
    (course : Course ofRule effects env (.rule id) c v d) :
    ∃ p journal x, p ∈ (env.grammar.rule id).patterns ∧ d = { x with depth := x.depth - 1 } ∧
      Course ofRule effects env (.pattern p) { c with depth := c.depth + 1, journal } v x := by
  cases course with
  | repeated repeatable _ =>
    rw [GrammarTable.repeatable_of_isSingle single] at repeatable
    cases repeatable
  | absent optional _ =>
    rw [GrammarTable.optional_of_isSingle single] at optional
    cases optional
  | once choice offered course =>
    obtain ⟨⟨journal, rfl⟩, -⟩ := exists_of_run_choose choice
    exact ⟨_, journal, _, offered.mem_of_isSingle single, rfl, course⟩

end Planfile

/-! ## Rules that refer to none but themselves -/

namespace Planfile

open Matcher

section
variable (inside : RuleId → Bool) (acts : Action → Bool)

/-- Whether a symbol refers to none but some rules. -/
def Symbol.isWithin : Symbol → Bool
  | .rule id => inside id
  | _ => true

/-- Whether an alternative refers to none but some rules, and its action is one of some. -/
def Pattern.isWithin (p : Pattern) : Bool := p.symbols.all (·.isWithin inside) && p.action.all acts

/-- Whether a part is one of some rules, and its actions are among some. -/
def Part.isWithin : Part → Bool
  | .rule id | .repetition id _ => inside id
  | .pattern p => p.isWithin inside acts
  | .symbols ss => ss.all (·.isWithin inside)

namespace GrammarTable

variable (t : GrammarTable)

/-- Whether some rules, with all that a plan can add to them, refer to none but themselves, and their
actions are among some. -/
def Encloses : Prop :=
  ∀ id, inside id = true → ∀ p, t.Offers id p → p.isWithin inside acts = true

/-- Whether rules are found to refer to none but themselves, with actions among some. -/
def checkWithin : Bool :=
  (List.range t.rules.size).all (fun i =>
      !inside ⟨i⟩ || (t.rule ⟨i⟩).patterns.all (·.isWithin inside acts)) &&
    (t.ruleId? "referenceBody").any inside

variable {inside acts t}

/-- Where the check passes, the rules refer to none but themselves, if storing an added attribute is among
the actions. -/
theorem encloses_of_check (stores : ∀ id kind specific, acts (.extend (.store id kind specific)) = true)
    (h : t.checkWithin inside acts = true) : t.Encloses inside acts := by
  obtain ⟨rules, reference⟩ := Bool.and_eq_true_iff.mp h
  obtain ⟨body, known, within⟩ := (Option.any_eq_true _ _).mp reference
  have checked := @rule_eq_default_or_of_all t
    (fun id => !inside id || (t.rule id).patterns.all (·.isWithin inside acts))
    fun i known => List.all_eq_true.mp rules i (List.mem_range.mpr known)
  rintro id mem p (declared | ⟨-, e, full, resolved, action⟩)
  · rcases checked id with absent | passed
    · rw [absent] at declared
      cases declared
    · rw [mem] at passed
      exact List.all_eq_true.mp passed p declared
  · -- of the symbols of an added attribute only the body of a reference is a rule
    rw [e.mapM_symbols full known] at resolved
    rw [Pattern.isWithin, action, ← Except.ok.inj resolved, Option.all_some]
    refine Bool.and_eq_true_iff.mpr ⟨?_, stores _ _ _⟩
    unfold AttributeExtension.tailSymbols
    cases e.kind <;> simp [Symbol.isWithin, within]

end GrammarTable

end

/-- All rules together refer to none but themselves. -/
theorem Symbol.isWithin_true (s : Symbol) : s.isWithin (fun _ => true) = true := by
  cases s <;> rfl

theorem Pattern.isWithin_true (p : Pattern) : p.isWithin (fun _ => true) (fun _ => true) = true := by
  refine Bool.and_eq_true_iff.mpr ⟨List.all_eq_true.mpr fun s _ => s.isWithin_true, ?_⟩
  cases p.action <;> rfl

theorem Part.isWithin_true (part : Part) : part.isWithin (fun _ => true) (fun _ => true) = true := by
  cases part with
  | rule id | repetition id mayStop => rfl
  | pattern p => exact p.isWithin_true
  | symbols ss => exact List.all_eq_true.mpr fun s _ => s.isWithin_true

/-- A part of the rules that has been matched keeps what reading a token and their actions keep. -/
theorem Course.keeps {ofRule : RuleId → Shape} {effects : Effects} {env : Surroundings}
    {inside : RuleId → Bool} {acts : Action → Bool} (ht : env.grammar.Encloses inside acts)
    {ask : Context → Prop}
    (noise : ∀ c journal depth stop, ask c → ask { c with journal, depth, stop })
    (next : ∀ c, c.tokens.peek.isEof = false → ask c → ask (c.next env))
    (acted : ∀ matchRule p v o c d, Prepared env.grammar ofRule effects p v c →
      p.isWithin inside acts = true → ask c →
      performed matchRule p v.location v.items env c = (.ok o, d) → ask d)
    {part : Part} {c d : Context} {o : part.Outcome} (course : Course ofRule effects env part c o d)
    (within : part.isWithin inside acts = true) (h : ask c) : ask d := by
  have chosen {id : RuleId} {p : Option Pattern} {c d : Context}
      (choice : choose id env c = (.ok p, d)) (h : ask c) : ask d := by
    obtain ⟨⟨journal, rfl⟩, -⟩ := exists_of_run_choose choice
    exact noise c journal c.depth c.stop h
  induction course with
  | repeated _ _ ih => exact noise _ _ _ _ (ih within (noise _ _ _ _ h))
  | absent _ choice => exact noise _ _ _ _ (chosen choice (noise _ _ _ _ h))
  | once choice offered _ ih =>
    exact noise _ _ _ _ (ih (ht _ within _ offered) (chosen choice (noise _ _ _ _ h)))
  | stop choice => exact noise _ _ _ _ (chosen choice h)
  | next choice offered _ _ ih ih' => exact ih' within (ih (ht _ within _ offered) (chosen choice h))
  | @pattern p c x d items v matchRule _ prepared run ih =>
    have symbols := (Bool.and_eq_true_iff.mp within).1
    exact acted matchRule p ⟨items, c.tokens.location⟩ v x d prepared within (ih symbols h) run
  | nil => exact h
  | terminal _ fits _ ih =>
    exact ih (Bool.and_eq_true_iff.mp within).2 (next _ (Terminal.isEof_of_accepts fits) h)
  | reference _ _ ih ih' =>
    obtain ⟨first, others⟩ := Bool.and_eq_true_iff.mp within
    exact ih' others (ih first h)

end Planfile
