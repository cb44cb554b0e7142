import Planfile.Proofs.Course.Region
import Planfile.Proofs.Course.Visit

/-!
# Planfile — invariants of matching

Some of what holds at the end of a plan is passed on by values: one action looks at what is said and
gives a value, and another one, in a rule above, stores it. So what is kept on the way has to be said
together with what the values are good for. Here the induction on the tree is made once. What is left for
each invariant is what reading a token and performing an action do to it.

Main results:

* `StateInvariant.of_course` — a part that has been matched keeps it.
* `StateInvariant.of_passes`, `StateInvariant.of_run` — it holds in every state that is passed, and at the
  end.
* `ValueInvariant.of_course` — a part that has been matched keeps what is asked, and what comes of it is good.
* `ValueInvariant.of_visits` — wherever matching comes, what is asked holds.
* `ValueInvariant.of_acts`, `Visits.holds` — so does what is kept by every action that comes to its end.
-/

/-!
## What is kept while a plan is read

Only actions change what a plan has made, and they do so where they can be performed. So what each of
them keeps, error or not, holds in every state that is passed while a plan is read, and in the one that
is left, if it holds at the start. If it is about the tokens ahead, reading one has to keep it, too.
-/

namespace Planfile

open Matcher

/-- Whether something that is asked of a state is kept by reading a token, and by every action where it
can be performed, error or not. -/
structure StateInvariant (ofRule : RuleId → Shape) (effects : Effects) (env : Surroundings)
    (ask : Context → Prop) : Prop where
  noise : ∀ c journal depth stop, ask c → ask { c with journal, depth, stop }
  next : ∀ c, c.tokens.peek.isEof = false → ask c → ask (c.next env)
  performed : ∀ matchRule p v c, Prepared env.grammar ofRule effects p v c → ask c →
    ask (performed matchRule p v.location v.items env c).2

namespace StateInvariant

/-- If it is not about the tokens ahead, it is enough that it is kept by the actions themselves, since
before them only the journal changes. -/
theorem of_actions {ofRule : RuleId → Shape} {effects : Effects} {env : Surroundings}
    {ask : Context → Prop}
    (noise : ∀ c tokens journal depth stop, ask c → ask { c with tokens, journal, depth, stop })
    (acts : ∀ matchRule p v a c, Prepared env.grammar ofRule effects p v c → p.action = some a → ask c →
      ask (a.perform matchRule v env c).2) : StateInvariant ofRule effects env ask where
  noise c := noise c c.tokens
  next c _ := noise c _ _ c.depth c.stop
  performed matchRule p v c prepared h := by
    cases action : p.action with
    | none =>
      rw [Matcher.performed, action]
      exact h
    | some a =>
      obtain ⟨journal, run⟩ := exists_run_performed matchRule action v.location v.items env c
      rw [run]
      exact acts matchRule p v a _ (prepared.of_journal journal) action
        (noise c c.tokens journal c.depth c.stop h)

variable {ofRule : RuleId → Shape} {effects : Effects} {env : Surroundings} {ask : Context → Prop}
  (hk : StateInvariant ofRule effects env ask)

include hk

theorem of_choose {id : RuleId} {c d : Context} {chosen : Option Pattern}
    (choice : choose id env c = (.ok chosen, d)) (h : ask c) : ask d := by
  obtain ⟨⟨journal, rfl⟩, -⟩ := exists_of_run_choose choice
  exact hk.noise c journal c.depth c.stop h

/-- A part that has been matched keeps what its actions keep. -/
theorem of_course {part : Part} {c d : Context} {o : part.Outcome}
    (course : Course ofRule effects env part c o d) (h : ask c) : ask d := by
  refine course.keeps (fun _ _ p _ => p.isWithin_true) hk.noise hk.next ?_ part.isWithin_true h
  intro matchRule p v o c d prepared _ there run
  have behind := hk.performed matchRule p v c prepared there
  rwa [run] at behind

variable (ht : env.grammar.Charted ofRule effects) {n : Nat} {s : Stage} {c : Context}
  (hc : c.Grounded env.grammar effects)

include ht hc

/-- Wherever matching comes, it holds. -/
theorem of_visits (hs : s.Stands env.grammar ofRule effects c) {m : Nat} {s' : Stage} {x : Context}
    (visit : Visits env n s c m s' x) (h : ask c) : ask x := by
  refine visit.keeps ht (fun c => hk.noise c c.journal (c.depth + 1) c.stop) (fun choice there => ?_)
    (fun course => hk.of_course course) hc hs h
  have chosen := hk.of_choose choice there
  exact ⟨chosen, fun v e course => hk.of_course course chosen⟩

/-- It holds in every state that is passed. -/
theorem of_passes (hs : s.Stands env.grammar ofRule effects c) {x : Context}
    (passes : Passes env n s c x) (h : ask c) : ask x := by
  cases passes with
  | taken visit => exact hk.of_visits ht hc hs visit h
  | @left m p v x visit =>
    obtain ⟨-, prepared⟩ := visit.stands ht hc hs
    exact hk.performed _ p v x prepared (hk.of_visits ht hc hs visit h)

/-- It holds in the state that a rule leaves, error or not. -/
theorem of_run {id : RuleId} {e : Effect} (he : effects id c.place = some e) (ready : e.Ready c)
    {r : Except Stop (Option Value)} {d : Context} (run : matchRule n id env c = (r, d)) (h : ask c) :
    ask d := by
  obtain ⟨x, passes, journal, depth, stop, rfl⟩ := Nears.of_run run
  have stands : (Stage.rule id).Stands env.grammar ofRule effects c := ⟨e, he, ready⟩
  exact hk.noise _ _ _ _ (hk.of_passes ht hc stands passes h)

end StateInvariant

end Planfile

/-! ## Invariants about values -/

namespace Planfile

open Matcher

/-- What is asserted along a tree, of states and of the values that are matched. -/
structure Assertions where
  /-- What is asked of a state. -/
  ask : Context → Prop
  /-- What makes a state one that can come behind another. -/
  follows : Context → Context → Prop
  /-- What is known of an alternative that has been chosen. -/
  fits : Pattern → Prop
  /-- What the value of a symbol is good for in a state. -/
  serves : Context → Symbol → Option Value → Prop

/-- Whether each step keeps what is asserted: tokens that are read, rules that are absent or repeated, and
actions where they can be performed. -/
structure ValueInvariant (ofRule : RuleId → Shape) (effects : Effects) (env : Surroundings) (k : Assertions) :
    Prop where
  refl : ∀ c, k.follows c c
  trans : ∀ {c d e}, k.follows c d → k.follows d e → k.follows c e
  mono : ∀ {c d s v}, k.follows c d → k.serves c s v → k.serves d s v
  noise : ∀ {c}, k.ask c → ∀ journal depth stop,
    k.ask { c with journal, depth, stop } ∧ k.follows c { c with journal, depth, stop }
  next : ∀ {c}, k.ask c → c.tokens.peek.isEof = false → k.ask (c.next env) ∧ k.follows c (c.next env)
  chosen : ∀ {c id p}, k.ask c → p ∈ (LiveGrammar.mk env.grammar c.extensions).patterns id → k.fits p
  terminal : ∀ {c s a}, k.ask c → s.terminal? = some a → a.accepts c.tokens.peek = true →
    k.serves (c.next env) s (a.matched c.tokens.peek).value?
  absent : ∀ c id, (env.grammar.rule id).optional = true → k.serves c (.rule id) none
  collected : ∀ {c id values}, (env.grammar.rule id).repeatable = true →
    (∀ x ∈ values, k.serves c (.rule id) (some x)) → k.serves c (.rule id) (collected values)
  performed : ∀ {matchRule p v x c d}, Prepared env.grammar ofRule effects p v c → k.fits p → k.ask c →
    List.Forall₂ (fun s item => k.serves c s item.value?) p.symbols v.items →
    performed matchRule p v.location v.items env c = (.ok x, d) →
    (k.ask d ∧ k.follows c d) ∧ ∀ id, env.grammar.Offers id p → k.serves d (.rule id) x

/-- The values of symbols, where something is known of each. -/
theorem Values.cases_value {about : Symbol → Option Value → Prop} {symbols : List Symbol} {v : Values}
    (h : List.Forall₂ (fun s item => about s item.value?) symbols v.items) (i : Nat) :
    (∃ s, symbols[i]? = some s ∧ about s (v.value? i)) ∨ symbols[i]? = none ∧ v.value? i = none := by
  obtain ⟨items, location⟩ := v
  dsimp only at h
  -- by induction on the symbols, which go along with the values
  induction h generalizing i with
  | nil => exact .inr ⟨rfl, rfl⟩
  | cons first _ ih =>
    cases i with
    | zero => exact .inl ⟨_, rfl, first⟩
    | succ i => exact ih i

namespace Part

/-- Whether a part that is an alternative is fit. -/
def IsFit (k : Assertions) : Part → Prop
  | .pattern p => k.fits p
  | _ => True

/-- Whether what comes of a part is good for what the part says. -/
def Serves (t : GrammarTable) (k : Assertions) (c : Context) : (part : Part) → part.Outcome → Prop
  | .rule id, v => k.serves c (.rule id) v
  | .repetition id _, values => ∀ x ∈ values, k.serves c (.rule id) (some x)
  | .pattern p, v => ∀ id, t.Offers id p → k.serves c (.rule id) v
  | .symbols ss, items => List.Forall₂ (fun s item => k.serves c s item.value?) ss items

end Part

namespace ValueInvariant

variable {ofRule : RuleId → Shape} {effects : Effects} {env : Surroundings} {k : Assertions}
  (h : ValueInvariant ofRule effects env k)

include h

/-- Choosing an alternative changes nothing, and what is chosen is fit. -/
theorem of_choose {c d : Context} {id : RuleId} {chosen : Option Pattern} (hc : k.ask c)
    (choice : choose id env c = (.ok chosen, d)) :
    (k.ask d ∧ k.follows c d) ∧ ∀ p, chosen = some p → k.fits p := by
  obtain ⟨⟨journal, rfl⟩, among⟩ := exists_of_run_choose choice
  exact ⟨h.noise hc journal c.depth c.stop, fun p same => h.chosen hc (among p same)⟩

/-- A part that has been matched keeps what is asked, and what comes of it is good for what the part
says. -/
theorem of_course {part : Part} {c d : Context} {o : part.Outcome}
    (course : Course ofRule effects env part c o d) (hc : k.ask c) (fit : part.IsFit k) :
    (k.ask d ∧ k.follows c d) ∧ part.Serves env.grammar k d o := by
  -- by induction on the tree, where values serve in all states that come behind
  induction course with
  | @repeated id c d values repeatable _ ih =>
    obtain ⟨deeper, into⟩ := h.noise hc c.journal (c.depth + 1) c.stop
    obtain ⟨⟨there, along⟩, serves⟩ := ih deeper trivial
    obtain ⟨back, out⟩ := h.noise there d.journal (d.depth - 1) d.stop
    refine ⟨⟨back, h.trans into (h.trans along out)⟩, h.mono out (h.collected repeatable fun x hx => ?_)⟩
    exact serves x (List.mem_reverse.mp hx)
  | @absent id c d optional choice =>
    obtain ⟨deeper, into⟩ := h.noise hc c.journal (c.depth + 1) c.stop
    obtain ⟨⟨there, along⟩, -⟩ := h.of_choose deeper choice
    obtain ⟨back, out⟩ := h.noise there d.journal (d.depth - 1) d.stop
    exact ⟨⟨back, h.trans into (h.trans along out)⟩, h.absent _ _ optional⟩
  | @once id c x d p v choice offered _ ih =>
    obtain ⟨deeper, into⟩ := h.noise hc c.journal (c.depth + 1) c.stop
    obtain ⟨⟨there, along⟩, fit⟩ := h.of_choose deeper choice
    obtain ⟨⟨behind, onward⟩, serves⟩ := ih there (fit p rfl)
    obtain ⟨back, out⟩ := h.noise behind d.journal (d.depth - 1) d.stop
    exact ⟨⟨back, h.trans into (h.trans along (h.trans onward out))⟩, h.mono out (serves id offered)⟩
  | @stop id c d choice =>
    obtain ⟨⟨there, along⟩, -⟩ := h.of_choose hc choice
    obtain ⟨marked, out⟩ := h.noise there d.journal d.depth (some ⟨d.tokens.consumed, id⟩)
    exact ⟨⟨marked, h.trans along out⟩, fun x hx => absurd hx List.not_mem_nil⟩
  | @next id mayStop c x y d p v values choice offered _ _ ih ih' =>
    obtain ⟨⟨there, along⟩, fit⟩ := h.of_choose hc choice
    obtain ⟨⟨first, onward⟩, serves⟩ := ih there (fit p rfl)
    obtain ⟨⟨last, rest⟩, others⟩ := ih' first trivial
    refine ⟨⟨last, h.trans along (h.trans onward rest)⟩, fun z hz => ?_⟩
    rcases List.mem_append.mp hz with own | other
    · have own : v = some z := Option.mem_toList.mp own
      exact own ▸ h.mono rest (serves id offered)
    · exact others z other
  | pattern _ prepared acted ih =>
    obtain ⟨⟨there, along⟩, serves⟩ := ih hc trivial
    obtain ⟨⟨behind, onward⟩, gives⟩ := h.performed prepared fit there serves acted
    exact ⟨⟨behind, h.trans along onward⟩, gives⟩
  | nil => exact ⟨⟨hc, h.refl _⟩, .nil⟩
  | terminal hs fits _ ih =>
    obtain ⟨read, along⟩ := h.next hc (Terminal.isEof_of_accepts fits)
    obtain ⟨⟨there, onward⟩, others⟩ := ih read trivial
    exact ⟨⟨there, h.trans along onward⟩, .cons (h.mono onward (h.terminal hc hs fits)) others⟩
  | reference _ _ ih ih' =>
    obtain ⟨⟨first, along⟩, serves⟩ := ih hc trivial
    obtain ⟨⟨last, rest⟩, others⟩ := ih' first trivial
    exact ⟨⟨last, h.trans along rest⟩, .cons (h.mono rest serves) others⟩

/-- Wherever matching comes, what is asked holds. -/
theorem of_visits (ht : env.grammar.Charted ofRule effects) {n m : Nat} {s s' : Stage} {c x : Context}
    (visit : Visits env n s c m s' x) (grounded : c.Grounded env.grammar effects)
    (hs : s.Stands env.grammar ofRule effects c) (hc : k.ask c) : k.ask x := by
  refine visit.keeps ht (fun c there => (h.noise there c.journal (c.depth + 1) c.stop).1)
    (fun choice there => ?_) (fun course there => (h.of_course course there trivial).1.1) grounded hs hc
  obtain ⟨⟨chosen, -⟩, fit⟩ := h.of_choose there choice
  exact ⟨chosen, fun v e course => (h.of_course course chosen (fit _ rfl)).1.1⟩

end ValueInvariant

/-- Assertions that are about states alone. -/
def Assertions.ofStates (ask : Context → Prop) : Assertions :=
  ⟨ask, fun _ _ => True, fun _ => True, fun _ _ _ => True⟩

/-- What is not about the tokens ahead and is kept by every action that has come to its end is an
invariant. -/
theorem ValueInvariant.of_acts {ofRule : RuleId → Shape} {effects : Effects} {env : Surroundings}
    {ask : Context → Prop}
    (noise : ∀ c tokens journal depth stop, ask c → ask { c with tokens, journal, depth, stop })
    (acts : ∀ matchRule p v a x c d, Prepared env.grammar ofRule effects p v c → p.action = some a → ask c →
      a.perform matchRule v env c = (.ok x, d) → ask d) :
    ValueInvariant ofRule effects env (.ofStates ask) where
  refl _ := trivial
  trans _ _ := trivial
  mono _ _ := trivial
  noise h journal depth stop := ⟨noise _ _ journal depth stop h, trivial⟩
  next h _ := ⟨noise _ _ _ _ _ h, trivial⟩
  chosen _ _ := trivial
  terminal _ _ _ := trivial
  absent _ _ _ := trivial
  collected _ _ := trivial
  performed {matchRule p v o c d} prepared _ h _ run := by
    refine ⟨⟨?_, trivial⟩, fun _ _ => trivial⟩
    rcases cases_of_run_performed run with ⟨-, ⟨⟩, rfl⟩ | ⟨a, journal, action, run⟩
    · exact h
    · exact acts matchRule p v a o _ d (prepared.of_journal journal) action
        (noise c c.tokens journal c.depth c.stop h) run

/-- Matching comes on only behind actions that have come to their ends. So what is not about the tokens ahead
and is kept by every action that has come to its end holds wherever matching comes. -/
theorem Visits.holds {ofRule : RuleId → Shape} {effects : Effects} {env : Surroundings}
    (ht : env.grammar.Charted ofRule effects) (ask : Context → Prop)
    (noise : ∀ c tokens journal depth stop, ask c → ask { c with tokens, journal, depth, stop })
    (acts : ∀ matchRule p v a x c d, Prepared env.grammar ofRule effects p v c → p.action = some a → ask c →
      a.perform matchRule v env c = (.ok x, d) → ask d)
    {n m : Nat} {s s' : Stage} {c x : Context} (visit : Visits env n s c m s' x)
    (grounded : c.Grounded env.grammar effects) (hs : s.Stands env.grammar ofRule effects c) (hc : ask c) :
    ask x :=
  (ValueInvariant.of_acts noise acts).of_visits ht visit grounded hs hc

end Planfile
