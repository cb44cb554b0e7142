import Planfile.Proofs.Body.Layout
import Planfile.Proofs.Course.Visit

/-!
# Planfile — the bodies on the way through a plan

On the way through a plan bodies are opened and closed. `Trail` follows the matcher as `Visits` does, and
keeps a record of its own of the bodies that it is in: one is added where a rule that opens it has been
matched, and it is gone where the alternative with this rule has come to its end. Where the rules agree with a
layout, the registers show these bodies at each point.

Main results:

* `Course.shows` — the registers show the same bodies behind a part that has been matched, and what it has
  opened.
* `Trail.shows` — at each point of a trail the registers show the bodies that the trail is in.
-/

namespace Planfile

open Matcher

/-- The bodies around what comes next, where something has been opened in some bodies. -/
def Context.behind (c : Context) (opened : Option Scope) (bodies : List Body) : List Body :=
  match opened with
  | none => bodies
  | some s => ⟨s, c.openScopes.newest s⟩ :: bodies

/-- What is open next around what comes next. -/
theorem Context.zone_behind (c : Context) (opened : Option Scope) (bodies : List Body) :
    zone (c.behind opened bodies) = opened.or (zone bodies) := by
  cases opened <;> rfl

section
variable {l : Layout} {ofRule : RuleId → Shape} {effects : Effects} {env : Surroundings}
  {bodies : List Body}

/-! ## Parts that have been matched -/

/-- Choosing an alternative opens nothing. -/
theorem shows_choice {id : RuleId} {chosen : Option Pattern} {c d : Context}
    (choice : choose id env c = (.ok chosen, d)) (h : c.openScopes.Shows bodies) :
    d.openScopes.Shows bodies := by
  obtain ⟨⟨journal, rfl⟩, -⟩ := exists_of_run_choose choice
  exact h

/-- What is known behind a part of the grammar that can stand in some bodies: the registers show these, and
what the part has opened. -/
def Part.Leaves (l : Layout) (d : Context) (bodies : List Body) : Part → Prop
  | .rule id => l.allows id (zone bodies) = true → d.openScopes.Shows (d.behind (l.opens id) bodies)
  | .repetition id _ => l.allows id (zone bodies) = true → l.opens id = none → d.openScopes.Shows bodies
  | .pattern p => ∀ behind, l.suits (zone bodies) behind p = true →
      d.openScopes.Shows (d.behind behind bodies)
  | .symbols ss => ∀ opened, l.along? (zone bodies) ss = some opened →
      ∃ x : Context, d.openScopes.Shows (x.behind opened bodies)

/-- An action at the end of an alternative closes what the symbols have opened, or opens something, or does
neither. -/
theorem shows_performed {p : Pattern} {matchRule : RuleId → Matcher (Option Value)} {location : Location}
    {items : List MatchedValue} {c d x : Context} {v : Option Value} {behind opened : Option Scope}
    (h : c.openScopes.Shows (x.behind opened bodies)) (along : l.along? (zone bodies) p.symbols = some opened)
    (suits : l.suits (zone bodies) behind p = true)
    (run : performed matchRule p location items env c = (.ok v, d)) :
    d.openScopes.Shows (d.behind behind bodies) := by
  rw [Layout.suits, along, Option.any_some] at suits
  rcases cases_of_run_performed run with ⟨action, ⟨⟩, rfl⟩ | ⟨a, journal, action, run⟩
  · rw [action] at suits
    obtain ⟨same, project⟩ := Bool.and_eq_true_iff.mp suits
    obtain rfl := beq_iff_eq.mp same
    cases opened with
    | none => exact h
    | some s =>
      obtain rfl : s = .project := by simpa using project
      exact h
  · rw [action] at suits
    -- the journal is no register
    have h : ({ c with journal } : Context).openScopes.Shows (x.behind opened bodies) := h
    have ends := (Bool.and_eq_true_iff.mp suits).2
    unfold Action.ends at ends
    cases opens : a.opens? with
    | some s =>
      simp only [opens, Bool.and_eq_true, beq_iff_eq, Option.isNone_iff_eq_none] at ends
      obtain ⟨⟨rfl, rfl⟩, inside⟩ := ends
      exact OpenScopes.Shows.opens h (List.contains_iff_mem.mp inside) (a.opens_of_run opens run)
    | none =>
      simp only [opens, Bool.and_eq_true, Option.isNone_iff_eq_none] at ends
      obtain ⟨rfl, closes⟩ := ends
      cases opened with
      | none => exact (congrArg (OpenScopes.Shows · bodies) (a.openScopes_of_run closes run)).mpr h
      | some s =>
        -- what is closed is open
        have current (other : s ≠ .selected) :
            ({ c with journal } : Context).openScopes.current s ≠ none := by
          have found : innermost (x.behind (some s) bodies) s = some (x.openScopes.newest s) :=
            innermost_cons_self (b := ⟨s, x.openScopes.newest s⟩)
          exact fun none => Option.some_ne_none _ (found.symm.trans ((h.current s other).symm.trans none))
        exact OpenScopes.Shows.closes h (a.closes_of_run closes current run)

/-- The registers show the same bodies behind a part that has been matched, and what it has opened. -/
theorem Course.shows (ht : env.grammar.LaidOut l) {part : Part} {c d : Context} {o : part.Outcome}
    (course : Course ofRule effects env part c o d) (h : c.openScopes.Shows bodies) :
    part.Leaves l d bodies := by
  -- by induction on the tree
  induction course generalizing bodies with
  | repeated repeatable _ ih =>
    intro allowed
    have nothing := ht.stays _ _ allowed (.inr repeatable)
    rw [nothing]
    exact ih h allowed nothing
  | absent optional choice =>
    intro allowed
    rw [ht.stays _ _ allowed (.inl optional)]
    have shown := shows_choice choice h
    exact shown
  | once choice offered _ ih =>
    intro allowed
    exact ih (shows_choice choice h) _
      (ht.patterns _ _ allowed _ offered)
  | stop choice =>
    intro _ _
    have shown := shows_choice choice h
    exact shown
  | next choice offered _ _ ih ih' =>
    intro allowed nothing
    have first := ih (shows_choice choice h) _
      (ht.patterns _ _ allowed _ offered)
    rw [nothing] at first
    exact ih' first allowed nothing
  | @pattern p c x d items v matchRule _ prepared run ih =>
    intro behind suits
    obtain ⟨opened, along, -⟩ := (Option.any_eq_true _ _).mp suits
    obtain ⟨y, shown⟩ := ih h opened along
    exact shows_performed shown along suits run
  | @nil c =>
    intro opened along
    cases along
    exact ⟨c, h⟩
  | @terminal s a symbols c d items hs fits _ ih =>
    intro opened along
    refine ih h opened ?_
    cases s with
    | rule id => cases hs
    | _ => exact along
  | @reference id symbols c x d v items _ _ ih ih' =>
    intro opened along
    obtain ⟨allowed, later, rest, either⟩ := Layout.along?_cons along
    have first := ih h allowed
    rw [← Context.zone_behind x] at rest
    obtain ⟨y, shown⟩ := ih' first later rest
    rcases either with ⟨nothing, rfl⟩ | ⟨rfl, rfl⟩
    · rw [show l.opens id = none from nothing] at shown
      exact ⟨y, shown⟩
    · -- the other symbols leave what has been opened
      exact ⟨x, shown⟩

end

/-! ## Trails -/

/-- Whether symbols have been matched one after the other, with the bodies that they have opened. -/
inductive Advances (l : Layout) (env : Surroundings) (n : Nat) :
    List Symbol → List Body → Context → List MatchedValue → List Body → Context → Prop
  | nil {bodies : List Body} {c : Context} : Advances l env n [] bodies c [] bodies c
  | cons {first : Symbol} {symbols : List Symbol} {bodies inner : List Body} {c y d : Context}
    {item : MatchedValue} {items : List MatchedValue}
    (matched : matchSymbol (matchRule n) first env c = (.ok item, y))
    (rest : Advances l env n symbols (y.behind (l.opened first) bodies) y items inner d) :
    Advances l env n (first :: symbols) bodies c (item :: items) inner d

/-- Whether matching comes from one point in some bodies to another point in others. Inside of an alternative
there are the bodies that its symbols have opened. -/
inductive Trail (l : Layout) (env : Surroundings) :
    Nat → Stage → List Body → Context → Nat → Stage → List Body → Context → Prop
  | here {n : Nat} {s : Stage} {bodies : List Body} {c : Context} : Trail l env n s bodies c n s bodies c
  | rule {n m : Nat} {id : RuleId} {s : Stage} {bodies inner : List Body} {c x : Context}
    (shallow : c.depth < Limits.parseDepth)
    (rest : Trail l env n (.alternatives id) bodies { c with depth := c.depth + 1 } m s inner x) :
    Trail l env (n + 1) (.rule id) bodies c m s inner x
  | chosen {n m : Nat} {id : RuleId} {p : Pattern} {s : Stage} {bodies inner : List Body} {c y x : Context}
    (choice : choose id env c = (.ok (some p), y)) (rest : Trail l env n (.pattern p) bodies y m s inner x) :
    Trail l env n (.alternatives id) bodies c m s inner x
  | again {n m : Nat} {id : RuleId} {p : Pattern} {s : Stage} {bodies inner : List Body}
    {c y z x : Context} {v : Option Value} (repeatable : (env.grammar.rule id).repeatable = true)
    (choice : choose id env c = (.ok (some p), y))
    (matched : matchPattern (matchRule n) p env y = (.ok v, z))
    (rest : Trail l env n (.alternatives id) bodies z m s inner x) :
    Trail l env n (.alternatives id) bodies c m s inner x
  | symbols {n m : Nat} {p : Pattern} {s : Stage} {bodies inner : List Body} {c x : Context}
    (rest : Trail l env n (.symbols p.symbols) bodies c m s inner x) :
    Trail l env n (.pattern p) bodies c m s inner x
  | acting {n m : Nat} {p : Pattern} {items : List MatchedValue} {s : Stage}
    {bodies opened inner : List Body} {c y x : Context}
    (matched : Advances l env n p.symbols bodies c items opened y)
    (rest : Trail l env n (.action p ⟨items, c.tokens.location⟩) opened y m s inner x) :
    Trail l env n (.pattern p) bodies c m s inner x
  | reference {n m : Nat} {id : RuleId} {symbols : List Symbol} {s : Stage} {bodies inner : List Body}
    {c x : Context} (rest : Trail l env n (.rule id) bodies c m s inner x) :
    Trail l env n (.symbols (.rule id :: symbols)) bodies c m s inner x
  | behind {n m : Nat} {first : Symbol} {symbols : List Symbol} {item : MatchedValue} {s : Stage}
    {bodies inner : List Body} {c y x : Context}
    (matched : matchSymbol (matchRule n) first env c = (.ok item, y))
    (rest : Trail l env n (.symbols symbols) (y.behind (l.opened first) bodies) y m s inner x) :
    Trail l env n (.symbols (first :: symbols)) bodies c m s inner x

section
variable {l : Layout} {env : Surroundings} {n m : Nat} {s s' : Stage} {bodies inner : List Body}
  {c d x : Context} {symbols : List Symbol} {items : List MatchedValue}

theorem Advances.run (h : Advances l env n symbols bodies c items inner d) :
    matchSymbols (matchRule n) symbols env c = (.ok items, d) := by
  induction h with
  | nil => rfl
  | cons matched _ ih =>
    rw [matchSymbols, run_bind, matched]
    dsimp only
    rw [run_bind, ih]
    rfl

theorem exists_advances (run : matchSymbols (matchRule n) symbols env c = (.ok items, d))
    (bodies : List Body) : ∃ inner, Advances l env n symbols bodies c items inner d := by
  induction symbols generalizing c items bodies with
  | nil =>
    cases run
    exact ⟨bodies, .nil⟩
  | cons first symbols ih =>
    obtain ⟨item, y, one, more⟩ := exists_of_run_bind run
    obtain ⟨others, later, rfl⟩ := exists_of_run_map more
    obtain ⟨inner, rest⟩ := ih later (y.behind (l.opened first) bodies)
    exact ⟨inner, .cons one rest⟩

/-- Wherever matching comes, a trail leads, whatever bodies it starts in. -/
theorem Visits.exists_trail (l : Layout) (h : Visits env n s c m s' x) (bodies : List Body) :
    ∃ inner, Trail l env n s bodies c m s' inner x := by
  induction h generalizing bodies with
  | here => exact ⟨bodies, .here⟩
  | rule shallow _ ih => exact (ih bodies).imp fun _ => .rule shallow
  | chosen choice _ ih => exact (ih bodies).imp fun _ => .chosen choice
  | again repeatable choice matched _ ih =>
    exact (ih bodies).imp fun _ => .again repeatable choice matched
  | symbols _ ih => exact (ih bodies).imp fun _ => .symbols
  | acting matched _ ih =>
    obtain ⟨opened, advances⟩ := exists_advances (l := l) matched bodies
    exact (ih opened).imp fun _ => .acting advances
  | reference _ ih => exact (ih bodies).imp fun _ => .reference
  | @behind n m first symbols item s c y x matched _ ih =>
    exact (ih (y.behind (l.opened first) bodies)).imp fun _ => .behind matched

/-! ## What the registers show on a trail -/

/-- Whether a point can be in a place. -/
def Stage.Fits (l : Layout) (z : Option Scope) : Stage → Prop
  | .rule id | .alternatives id => l.allows id z = true
  | .pattern p => ∃ behind, l.suits z behind p = true
  | .symbols ss => ∃ opened, l.along? z ss = some opened
  | .action p _ => ∀ a, p.action = some a → a.fits z = true

section
variable {ofRule : RuleId → Shape} {effects : Effects} (ht : env.grammar.Charted ofRule effects)
  (hl : env.grammar.LaidOut l)

include ht hl

/-- The registers show what a symbol has opened. -/
theorem shows_symbol (hc : c.Grounded env.grammar effects) {first : Symbol} {e : Effect}
    (hf : first.effect? effects c.place = some e) (ready : e.Ready c) {item : MatchedValue}
    (run : matchSymbol (matchRule n) first env c = (.ok item, d))
    (admitted : l.admits (zone bodies) first = true) (h : c.openScopes.Shows bodies) :
    d.openScopes.Shows (d.behind (l.opened first) bodies) := by
  have terminal {a : Terminal} (hs : first.terminal? = some a) (nothing : l.opened first = none) :
      d.openScopes.Shows (d.behind (l.opened first) bodies) := by
    obtain ⟨-, -, rfl⟩ := eq_of_run_terminal _ hs run
    rw [nothing]
    exact h
  cases first with
  | literal text => exact terminal rfl rfl
  | tokenClass class? => exact terminal rfl rfl
  | rule id =>
    obtain ⟨v, matched, -⟩ := exists_of_run_map run
    exact (Course.of_run ht n id c v d e hc hf ready matched).shows hl h admitted

/-- The registers show what symbols have opened. -/
theorem Advances.shows (advances : Advances l env n symbols bodies c items inner d)
    (hc : c.Grounded env.grammar effects) {e : Effect} (he : effectAlong? effects c.place symbols = some e)
    (ready : e.Ready c) {opened : Option Scope} (along : l.along? (zone bodies) symbols = some opened)
    (h : c.openScopes.Shows bodies) : d.openScopes.Shows inner ∧ zone inner = opened.or (zone bodies) := by
  induction advances generalizing e opened with
  | nil =>
    cases along
    exact ⟨h, rfl⟩
  | @cons first symbols bodies inner c y d item items matched _ ih =>
    obtain ⟨one, hf, rest⟩ := Option.bind_eq_some_iff.mp he
    obtain ⟨others, ho, joined⟩ := Option.bind_eq_some_iff.mp rest
    have readyFirst := Effect.ready_of_andThen joined ready
    obtain ⟨hy, leads⟩ := grounded_symbol ht rfl hc hf readyFirst matched
    rw [← Effect.place_of_leads leads] at ho
    obtain ⟨admitted, later, behind, either⟩ := Layout.along?_cons along
    rw [← Context.zone_behind y] at behind
    obtain ⟨shown, innermost⟩ := ih hy ho (Effect.ready_behind joined ready leads) behind
      (shows_symbol ht hl hc hf readyFirst matched admitted h)
    refine ⟨shown, innermost.trans ?_⟩
    rw [Context.zone_behind]
    rcases either with ⟨nothing, rfl⟩ | ⟨same, rfl⟩
    · rw [nothing, Option.none_or]
    · rw [same, Option.none_or]

/-- At each point of a trail the registers show the bodies that the trail is in, and the point can be
there. -/
theorem Trail.shows (trail : Trail l env n s bodies c m s' inner x) (hc : c.Grounded env.grammar effects)
    (hs : s.Stands env.grammar ofRule effects c) (fits : s.Fits l (zone bodies))
    (h : c.openScopes.Shows bodies) : x.openScopes.Shows inner ∧ s'.Fits l (zone inner) := by
  -- by induction on the way, where what has been gone past is a tree
  induction trail with
  | here => exact ⟨h, fits⟩
  | @rule n _ id _ _ _ c _ shallow _ ih =>
    have into : Visits env (n + 1) (.rule id) c n (.alternatives id) _ := .rule shallow .here
    obtain ⟨grounded, stands⟩ := into.stands ht hc hs
    exact ih grounded stands fits h
  | @chosen n _ id p _ _ _ c y _ choice _ ih =>
    have into : Visits env n (.alternatives id) c n (.pattern p) y := .chosen choice .here
    obtain ⟨grounded, stands⟩ := into.stands ht hc hs
    obtain ⟨-, -, mem⟩ := grounded_choice rfl hc choice
    exact ih grounded stands ⟨_, hl.patterns id _ fits p (grounded.sound.offers (mem p rfl))⟩
      (shows_choice choice h)
  | @again n _ id p _ bodies _ c y z _ v repeatable choice matched _ ih =>
    obtain ⟨grounded, stands⟩ := Visits.stands ht (.again repeatable choice matched .here) hc hs
    have into : Visits env n (.alternatives id) c n (.pattern p) y := .chosen choice .here
    obtain ⟨hy, other, e, mem, he, ready⟩ := into.stands ht hc hs
    obtain ⟨-, -, own⟩ := grounded_choice rfl hc choice
    have course := Course.of_run_pattern ht (Course.of_run ht n) hy mem he ready matched
    have behind := course.shows hl (shows_choice choice h) _
      (hl.patterns id _ fits p (hy.sound.offers (own p rfl)))
    rw [hl.stays id _ fits (.inr repeatable)] at behind
    exact ih grounded stands fits behind
  | @symbols n _ p _ _ _ c _ _ ih =>
    have into : Visits env n (.pattern p) c n (.symbols p.symbols) c := .symbols .here
    obtain ⟨grounded, stands⟩ := into.stands ht hc hs
    obtain ⟨behind, suits⟩ := fits
    obtain ⟨opened, along, -⟩ := (Option.any_eq_true _ _).mp suits
    exact ih grounded stands ⟨opened, along⟩ h
  | @acting n _ p items _ bodies opened _ c y _ advances _ ih =>
    obtain ⟨grounded, stands⟩ := Visits.stands ht (.acting advances.run .here) hc hs
    have into : Visits env n (.pattern p) c n (.symbols p.symbols) c := .symbols .here
    obtain ⟨-, e, along, ready⟩ := into.stands ht hc hs
    obtain ⟨behind, suits⟩ := fits
    obtain ⟨inside, symbols, ends⟩ := (Option.any_eq_true _ _).mp suits
    obtain ⟨shown, innermost⟩ := advances.shows ht hl hc along ready symbols h
    refine ih grounded stands (fun a action => ?_) shown
    rw [action] at ends
    rw [innermost]
    exact (Bool.and_eq_true_iff.mp ends).1
  | @reference n _ id symbols _ bodies _ c _ _ ih =>
    have into : Visits env n (.symbols (.rule id :: symbols)) c n (.rule id) c := .reference .here
    obtain ⟨grounded, stands⟩ := into.stands ht hc hs
    obtain ⟨opened, along⟩ := fits
    exact ih grounded stands (Layout.along?_cons along).1 h
  | @behind n _ first symbols item _ bodies _ c y _ matched _ ih =>
    obtain ⟨grounded, stands⟩ := Visits.stands ht (.behind matched .here) hc hs
    obtain ⟨e, along, ready⟩ := hs
    obtain ⟨one, hf, rest⟩ := Option.bind_eq_some_iff.mp along
    obtain ⟨others, -, joined⟩ := Option.bind_eq_some_iff.mp rest
    obtain ⟨opened, inside⟩ := fits
    obtain ⟨admitted, later, goesOn, -⟩ := Layout.along?_cons inside
    refine ih grounded stands ⟨later, ?_⟩
      (shows_symbol ht hl hc hf (Effect.ready_of_andThen joined ready) matched admitted h)
    rw [Context.zone_behind]
    exact goesOn

end

end

end Planfile
