import Planfile.Proofs.Course.Tree

/-!
# Planfile — what is passed while a plan is read

Reading a plan passes many states, also when it ends early: one before each symbol, before each choice
and before each action, and one behind each action, error or not. `Visits` follows the matcher from one
point to another. It goes into a part, or past a part that has come to its end, so it has one constructor
for each way to go on. What holds where a plan starts and is kept on the way holds in every state that is
passed.

Main results:

* `Visits.stands` — whatever is taken up can stand where it is taken up.
* `Visits.keeps` — what is kept by the parts that matching goes past holds wherever it comes.
* `Nears.of_run` — the state that a rule leaves, error or not, is one that has been passed.
* `Visits.succeeds` — what ends early on the way ends the whole.
-/

namespace Planfile

open Matcher

/-- A point in the matching of a plan: what is to be done next. -/
inductive Stage where
  | rule (id : RuleId)
  /-- An alternative of a rule is to be chosen. -/
  | alternatives (id : RuleId)
  | pattern (p : Pattern)
  | symbols (symbols : List Symbol)
  /-- The symbols of an alternative have been matched, and its action is to be performed. -/
  | action (p : Pattern) (v : Values)

/-- Whether matching comes from one point to another, where rules may nest so deep. -/
inductive Visits [Meaning] (env : Surroundings) : Nat → Stage → Context → Nat → Stage → Context → Prop
  | here {n : Nat} {s : Stage} {c : Context} : Visits env n s c n s c
  | rule {n m : Nat} {id : RuleId} {s : Stage} {c x : Context} (shallow : c.depth < Limits.parseDepth)
    (rest : Visits env n (.alternatives id) { c with depth := c.depth + 1 } m s x) :
    Visits env (n + 1) (.rule id) c m s x
  | chosen {n m : Nat} {id : RuleId} {p : Pattern} {s : Stage} {c y x : Context}
    (choice : choose id env c = (.ok (some p), y)) (rest : Visits env n (.pattern p) y m s x) :
    Visits env n (.alternatives id) c m s x
  /-- Behind an alternative, a repeatable rule goes on with another one. -/
  | again {n m : Nat} {id : RuleId} {p : Pattern} {s : Stage} {c y z x : Context} {v : Option Value}
    (repeatable : (env.grammar.rule id).repeatable = true)
    (choice : choose id env c = (.ok (some p), y))
    (matched : matchPattern (matchRule n) p env y = (.ok v, z))
    (rest : Visits env n (.alternatives id) z m s x) : Visits env n (.alternatives id) c m s x
  | symbols {n m : Nat} {p : Pattern} {s : Stage} {c x : Context}
    (rest : Visits env n (.symbols p.symbols) c m s x) : Visits env n (.pattern p) c m s x
  | acting {n m : Nat} {p : Pattern} {items : List MatchedValue} {s : Stage} {c y x : Context}
    (matched : matchSymbols (matchRule n) p.symbols env c = (.ok items, y))
    (rest : Visits env n (.action p ⟨items, c.tokens.location⟩) y m s x) :
    Visits env n (.pattern p) c m s x
  | reference {n m : Nat} {id : RuleId} {symbols : List Symbol} {s : Stage} {c x : Context}
    (rest : Visits env n (.rule id) c m s x) : Visits env n (.symbols (.rule id :: symbols)) c m s x
  | behind {n m : Nat} {first : Symbol} {symbols : List Symbol} {item : MatchedValue} {s : Stage}
    {c y x : Context} (matched : matchSymbol (matchRule n) first env c = (.ok item, y))
    (rest : Visits env n (.symbols symbols) y m s x) : Visits env n (.symbols (first :: symbols)) c m s x

/-- From where matching comes to, it goes on. -/
theorem Visits.trans {env : Surroundings} {n m k : Nat} {s s' s'' : Stage} {c x y : Context}
    (h : Visits env n s c m s' x) (rest : Visits env m s' x k s'' y) : Visits env n s c k s'' y := by
  induction h with
  | here => exact rest
  | rule shallow _ ih => exact .rule shallow (ih rest)
  | chosen choice _ ih => exact .chosen choice (ih rest)
  | again repeatable choice matched _ ih => exact .again repeatable choice matched (ih rest)
  | symbols _ ih => exact .symbols (ih rest)
  | acting matched _ ih => exact .acting matched (ih rest)
  | reference _ ih => exact .reference (ih rest)
  | behind matched _ ih => exact .behind matched (ih rest)

/-- Behind a rule that has been matched there are the other symbols. -/
theorem Visits.past {env : Surroundings} {n m : Nat} {id : RuleId} {symbols : List Symbol} {s : Stage}
    {v : Option Value} {c y x : Context} (run : matchRule n id env c = (.ok v, y))
    (rest : Visits env n (.symbols symbols) y m s x) : Visits env n (.symbols (.rule id :: symbols)) c m s x := by
  have matched : matchSymbol (matchRule n) (.rule id) env c = (.ok (.rule v), y) := by
    rw [matchSymbol, run_bind, run]
    rfl
  exact .behind matched rest

/-- Whether a state is passed on the way from a point: one in which something is taken up, or one that
an action leaves, error or not. -/
inductive Passes (env : Surroundings) (n : Nat) (s : Stage) (c : Context) : Context → Prop
  | taken {m : Nat} {s' : Stage} {x : Context} (visit : Visits env n s c m s' x) : Passes env n s c x
  | left {m : Nat} {p : Pattern} {v : Values} {x : Context} (visit : Visits env n s c m (.action p v) x) :
    Passes env n s c (performed (matchRule m) p v.location v.items env x).2

/-! ## Standing -/

/-- Whether it is known of a point in a state that it can stand there. -/
def Stage.Stands (t : GrammarTable) (ofRule : RuleId → Shape) (effects : Effects) (c : Context) :
    Stage → Prop
  | .rule id | .alternatives id => ∃ e, effects id c.place = some e ∧ e.Ready c
  | .pattern p => ∃ id e, p ∈ (LiveGrammar.mk t c.extensions).patterns id ∧
      effects id c.place = some e ∧ e.Ready c
  | .symbols ss => ∃ e, effectAlong? effects c.place ss = some e ∧ e.Ready c
  | .action p v => Prepared t ofRule effects p v c

section
variable {ofRule : RuleId → Shape} {effects : Effects} {env : Surroundings}

/-- Whatever is taken up can stand where it is taken up, and what is known of the state is known
still. -/
theorem Visits.stands (ht : env.grammar.Charted ofRule effects) {n m : Nat} {s s' : Stage}
    {c x : Context} (h : Visits env n s c m s' x) (hc : c.Grounded env.grammar effects)
    (hs : s.Stands env.grammar ofRule effects c) :
    x.Grounded env.grammar effects ∧ s'.Stands env.grammar ofRule effects x := by
  induction h with
  | here => exact ⟨hc, hs⟩
  | @rule n m id s c x shallow _ ih =>
    obtain ⟨e, he, ready⟩ := hs
    obtain ⟨deeper, onward⟩ := hc.of_noise c.tokens c.journal (c.depth + 1) c.stop
    exact ih deeper ⟨e, he, Effect.ready_behind (Effect.stay_andThen? e) ready onward⟩
  | chosen choice _ ih =>
    obtain ⟨e, he, ready⟩ := hs
    obtain ⟨hy, onward, mem⟩ := grounded_choice rfl hc choice
    exact ih hy ⟨_, e, mem _ rfl, onward.place ▸ he,
      Effect.ready_behind (Effect.stay_andThen? e) ready onward⟩
  | again repeatable choice matched _ ih =>
    obtain ⟨e, he, -⟩ := hs
    -- the effect of a repeated rule is to stay, so the rule can stand behind itself
    obtain rfl := ht.follows.stays _ _ e he (.inr repeatable)
    obtain ⟨hy, onward, mem⟩ := grounded_choice rfl hc choice
    have ready (y : Context) : Effect.stay.Ready y := fun start => by cases start
    obtain ⟨hz, goesOn⟩ :=
      grounded_pattern ht rfl hy (mem _ rfl) (onward.place ▸ he) (ready _) matched
    exact ih hz ⟨.stay, (Onward.place goesOn).trans onward.place ▸ he, ready _⟩
  | symbols _ ih =>
    obtain ⟨id, e, mem, he, ready⟩ := hs
    obtain ⟨f, along, readyFirst, -⟩ := hc.exists_effectAlong ht.follows mem he ready
    exact ih hc ⟨f, along, readyFirst⟩
  | @acting n m p items s c y x matched _ ih =>
    obtain ⟨id, e, mem, he, ready⟩ := hs
    obtain ⟨f, along, readyFirst, allows⟩ := hc.exists_effectAlong ht.follows mem he ready
    obtain ⟨hy, leads, suits⟩ := grounded_symbols ht rfl hc along readyFirst c.tokens.location matched
    exact ih hy ⟨hy, ⟨id, hc.sound.offers mem⟩, allows y leads, suits⟩
  | reference _ ih =>
    obtain ⟨e, along, ready⟩ := hs
    obtain ⟨first, hf, rest⟩ := Option.bind_eq_some_iff.mp along
    obtain ⟨others, -, joined⟩ := Option.bind_eq_some_iff.mp rest
    exact ih hc ⟨first, hf, Effect.ready_of_andThen joined ready⟩
  | behind matched _ ih =>
    obtain ⟨e, along, ready⟩ := hs
    obtain ⟨first, hf, rest⟩ := Option.bind_eq_some_iff.mp along
    obtain ⟨others, ho, joined⟩ := Option.bind_eq_some_iff.mp rest
    obtain ⟨hy, leads⟩ := grounded_symbol ht rfl hc hf (Effect.ready_of_andThen joined ready) matched
    refine ih hy ⟨others, ?_, Effect.ready_behind joined ready leads⟩
    rw [Effect.place_of_leads leads]
    exact ho

/-- What choosing keeps, and the parts that matching goes past, holds wherever matching comes. -/
theorem Visits.keeps (ht : env.grammar.Charted ofRule effects) {ask : Context → Prop}
    (deeper : ∀ c, ask c → ask { c with depth := c.depth + 1 })
    (chosen : ∀ {id p c d}, choose id env c = (.ok (some p), d) → ask c →
      ask d ∧ ∀ v e, Course ofRule effects env (.pattern p) d v e → ask e)
    (past : ∀ {symbols c items d}, Course ofRule effects env (.symbols symbols) c items d → ask c → ask d)
    {n m : Nat} {s s' : Stage} {c x : Context} (visit : Visits env n s c m s' x)
    (hc : c.Grounded env.grammar effects) (hs : s.Stands env.grammar ofRule effects c) (h : ask c) :
    ask x := by
  -- by induction on the way, where what has been gone past is a tree
  induction visit with
  | here => exact h
  | @rule n m id s c x shallow rest ih =>
    have into : Visits env (n + 1) (.rule id) c n (.alternatives id) _ := .rule shallow .here
    obtain ⟨grounded, stands⟩ := into.stands ht hc hs
    exact ih grounded stands (deeper _ h)
  | @chosen n _ id p _ c y _ choice _ ih =>
    have into : Visits env n (.alternatives id) c n (.pattern p) y := .chosen choice .here
    obtain ⟨grounded, stands⟩ := into.stands ht hc hs
    exact ih grounded stands (chosen choice h).1
  | @again n m id p s c y z x v repeatable choice matched _ ih =>
    obtain ⟨grounded, stands⟩ := Visits.stands ht (.again repeatable choice matched .here) hc hs
    have into : Visits env n (.alternatives id) c n (.pattern p) y := .chosen choice .here
    obtain ⟨hy, id, e, mem, he, ready⟩ := into.stands ht hc hs
    exact ih grounded stands ((chosen choice h).2 v z
      (Course.of_run_pattern ht (Course.of_run ht n) hy mem he ready matched))
  | @symbols n _ p _ c _ _ ih =>
    have into : Visits env n (.pattern p) c n (.symbols p.symbols) c := .symbols .here
    exact ih hc (into.stands ht hc hs).2 h
  | @acting n m p items s c y x matched _ ih =>
    obtain ⟨grounded, stands⟩ := Visits.stands ht (.acting matched .here) hc hs
    have into : Visits env n (.pattern p) c n (.symbols p.symbols) c := .symbols .here
    obtain ⟨-, e, along, ready⟩ := into.stands ht hc hs
    exact ih grounded stands (past (Course.of_run_symbols ht (Course.of_run ht n) hc along ready matched) h)
  | @reference n _ id symbols _ c _ _ ih =>
    have into : Visits env n (.symbols (.rule id :: symbols)) c n (.rule id) c := .reference .here
    exact ih hc (into.stands ht hc hs).2 h
  | @behind n m first symbols item s c y x matched _ ih =>
    obtain ⟨grounded, stands⟩ := Visits.stands ht (.behind matched .here) hc hs
    obtain ⟨e, along, ready⟩ := hs
    obtain ⟨own, hf, rest⟩ := Option.bind_eq_some_iff.mp along
    obtain ⟨others, -, joined⟩ := Option.bind_eq_some_iff.mp rest
    have readyFirst := Effect.ready_of_andThen joined ready
    exact ih grounded stands (past (Course.of_run_symbol (Course.of_run ht n) hc hf readyFirst matched) h)

/-- Where a rule is the only symbol, it can stand where it has an effect. -/
theorem Stage.stands_rule {id : RuleId} {c : Context} {e : Effect}
    (h : effects id c.place = some e) (ready : e.Ready c) :
    (Stage.symbols [.rule id]).Stands env.grammar ofRule effects c := by
  refine ⟨e, ?_, ready⟩
  show (effects id c.place).bind (fun e => (some Effect.stay).bind fun f => e.andThen? f) = some e
  rw [h]
  exact Effect.andThen?_stay e

end

/-! ## The state that is left -/

/-- Whether a state is one that is passed on the way from a point, but for the journal, for how deep
rules nest and for where one of them has stopped. -/
def Nears (env : Surroundings) (n : Nat) (s : Stage) (c d : Context) : Prop :=
  ∃ x, Passes env n s c x ∧ ∃ journal depth stop, d = { x with journal, depth, stop }

namespace Nears

variable {env : Surroundings} {n m : Nat} {s s' : Stage} {c c' d : Context}

theorem here : Nears env n s c c := ⟨c, .taken .here, c.journal, c.depth, c.stop, rfl⟩

/-- A state that is passed further on is passed. -/
theorem further (enter : ∀ {k s'' x}, Visits env m s' c' k s'' x → Visits env n s c k s'' x)
    (h : Nears env m s' c' d) : Nears env n s c d := by
  obtain ⟨x, passes, same⟩ := h
  refine ⟨x, ?_, same⟩
  cases passes with
  | taken visit => exact .taken (enter visit)
  | left visit => exact .left (enter visit)

/-- What is seen of the state apart from the journal and the like does not tell a difference. -/
theorem change (h : Nears env n s c d) (journal : Log.Journal) (depth : Nat) (stop : Option StopMark) :
    Nears env n s c { d with journal, depth, stop } := by
  obtain ⟨x, passes, _, _, _, rfl⟩ := h
  exact ⟨x, passes, journal, depth, stop, rfl⟩

section
variable (hr : ∀ id c r d, matchRule n id env c = (r, d) → Nears env n (.rule id) c d)

include hr

/-- Symbols leave a state that has been passed, wherever they end. -/
theorem of_run_symbols {symbols : List Symbol} {r : Except Stop (List MatchedValue)}
    (run : matchSymbols (matchRule n) symbols env c = (r, d)) : Nears env n (.symbols symbols) c d := by
  induction symbols generalizing c r with
  | nil =>
    cases run
    exact here
  | cons first symbols ih =>
    rw [matchSymbols, run_bind] at run
    cases one : matchSymbol (matchRule n) first env c with
    | mk outcome y =>
      rw [one] at run
      cases outcome with
      | ok item =>
        dsimp only at run
        -- the other symbols leave it, and what they have given is passed on
        have others : ∃ r', matchSymbols (matchRule n) symbols env y = (r', d) := by
          rw [run_bind] at run
          rcases more : matchSymbols (matchRule n) symbols env y with ⟨stop | items, z⟩ <;>
            rw [more] at run <;> cases run <;> exact ⟨_, rfl⟩
        obtain ⟨r', others⟩ := others
        exact (ih others).further (.behind one)
      | error stop =>
        cases run
        have terminal {a : Terminal} (hs : first.terminal? = some a) :
            Nears env n (.symbols (first :: symbols)) c d := by
          cases fits : a.accepts c.tokens.peek with
          | true =>
            rw [run_matchSymbol_of_accepts _ hs env fits] at one
            cases one
          | false =>
            obtain ⟨fault, -, refused⟩ := run_matchSymbol_of_not_accepts (matchRule n) hs env fits
            rw [refused] at one
            cases one
            exact here
        cases first with
        | literal text => exact terminal rfl
        | tokenClass class? => exact terminal rfl
        | rule id =>
          rw [matchSymbol, run_bind] at one
          rcases matched : matchRule n id env c with ⟨stop' | v, z⟩ <;> rw [matched] at one <;>
            cases one
          exact (hr id c _ d matched).further .reference

/-- An alternative leaves a state that has been passed, wherever it ends. -/
theorem of_run_pattern {p : Pattern} {r : Except Stop (Option Value)}
    (run : matchPattern (matchRule n) p env c = (r, d)) : Nears env n (.pattern p) c d := by
  rw [run_matchPattern, run_bind] at run
  cases symbols : matchSymbols (matchRule n) p.symbols env c with
  | mk outcome y =>
    rw [symbols] at run
    cases outcome with
    | error stop =>
      cases run
      exact (of_run_symbols hr symbols).further .symbols
    | ok items =>
      dsimp only at run
      refine ⟨d, ?_, d.journal, d.depth, d.stop, rfl⟩
      have left := Passes.left (.acting symbols .here)
      rw [run] at left
      exact left

/-- A rule that is repeated leaves a state that has been passed, wherever it ends. -/
theorem of_run_matchRepeatedly {id : RuleId} (repeatable : (env.grammar.rule id).repeatable = true)
    {mayStop : Bool} {count : Nat} {values : List Value} {r : Except Stop (List Value)}
    (run : matchRepeatedly (matchRule n) id mayStop count values env c = (r, d)) :
    Nears env n (.alternatives id) c d := by
  induction count generalizing mayStop values c with
  | zero =>
    cases run
    exact here
  | succ count ih =>
    cases choice : choose id env c with
    | mk outcome y =>
      cases outcome with
      | error stop =>
        rw [matchRepeatedly, run_bind, choice] at run
        cases run
        obtain ⟨e, -, same⟩ := exists_of_choose_error choice
        rw [same]
        exact here
      | ok chosen =>
        obtain ⟨⟨journal, rfl⟩, -⟩ := exists_of_run_choose choice
        have start : Nears env n (.alternatives id) c { c with journal } :=
          here.change journal c.depth c.stop
        cases chosen with
        | none =>
          rw [run_matchRepeatedly_of_none choice] at run
          cases mayStop with
          | false =>
            cases run
            exact start
          | true =>
            cases run
            exact here.change _ _ _
        | some p =>
          rw [run_matchRepeatedly_of_some choice] at run
          cases matched : matchPattern (matchRule n) p env { c with journal } with
          | mk outcome z =>
            rw [matched] at run
            -- the alternative has passed what it has, and behind it the rule is there again
            have behind := (of_run_pattern hr matched).further (.chosen choice)
            cases outcome with
            | error stop =>
              cases run
              exact behind
            | ok v =>
              dsimp only at run
              split at run
              · cases run
                exact behind
              · exact (ih run).further (.again repeatable choice matched)

/-- The alternatives of a rule leave a state that has been passed, wherever they end. -/
theorem of_run_matchAlternatives {id : RuleId} {r : Except Stop (Option Value)}
    (run : matchAlternatives (matchRule n) n id env c = (r, d)) : Nears env n (.alternatives id) c d := by
  cases repeatable : (env.grammar.rule id).repeatable with
  | true =>
    rw [run_matchAlternatives_of_repeatable repeatable, run_map] at run
    rcases repeated : matchRepeatedly (matchRule n) id (env.grammar.rule id).optional n [] env c with
      ⟨stop | all, y⟩ <;> rw [repeated] at run <;> cases run <;>
      exact of_run_matchRepeatedly hr repeatable repeated
  | false =>
    rw [run_matchAlternatives_of_single repeatable] at run
    cases choice : choose id env c with
    | mk outcome y =>
      rw [choice] at run
      cases outcome with
      | error stop =>
        cases run
        obtain ⟨e, -, same⟩ := exists_of_choose_error choice
        rw [same]
        exact here
      | ok chosen =>
        cases chosen with
        | some p => exact (of_run_pattern hr run).further (.chosen choice)
        | none =>
          obtain ⟨⟨journal, rfl⟩, -⟩ := exists_of_run_choose choice
          have start : Nears env n (.alternatives id) c { c with journal } :=
            here.change journal c.depth c.stop
          cases optional : (env.grammar.rule id).optional <;> rw [optional] at run <;> cases run <;>
            exact start

end

/-- A rule leaves a state that has been passed, wherever it ends and however deep rules nest. -/
theorem of_run {id : RuleId} {r : Except Stop (Option Value)}
    (run : matchRule n id env c = (r, d)) : Nears env n (.rule id) c d := by
  -- by induction on how deep rules may still nest
  induction n generalizing id c r d with
  | zero =>
    cases run
    exact here
  | succ n ih =>
    by_cases shallow : c.depth < Limits.parseDepth
    · rw [run_matchRule n shallow] at run
      cases run
      have inside := of_run_matchAlternatives (fun _ _ _ _ => ih) (c := { c with depth := c.depth + 1 })
        (Prod.eta (matchAlternatives (matchRule n) n id env { c with depth := c.depth + 1 })).symm
      exact (inside.further (.rule shallow)).change _ _ _
    · rw [matchRule_tooDeep n id (Nat.le_of_not_lt shallow)] at run
      cases run
      exact here

end Nears

/-! ## Coming to the end -/

/-- Whether matching comes to the end of what is to be done next. -/
def Stage.Succeeds (env : Surroundings) (n : Nat) (c : Context) : Stage → Prop
  | .rule id => ∃ v d, matchRule n id env c = (.ok v, d)
  | .alternatives id =>
    if (env.grammar.rule id).repeatable = true then
      ∃ mayStop d, Repeats (matchRule n) id env mayStop c d
    else ∃ v d, matchAlternatives (matchRule n) n id env c = (.ok v, d)
  | .pattern p => ∃ v d, matchPattern (matchRule n) p env c = (.ok v, d)
  | .symbols ss => ∃ items d, matchSymbols (matchRule n) ss env c = (.ok items, d)
  | .action p v => ∃ o d, performed (matchRule n) p v.location v.items env c = (.ok o, d)

section
variable {env : Surroundings} {n : Nat} {c d : Context}

/-- A rule comes to its end by its alternatives. -/
theorem Stage.Succeeds.alternatives {id : RuleId} {v : Option Value}
    (run : matchAlternatives (matchRule n) n id env c = (.ok v, d)) :
    (Stage.alternatives id).Succeeds env n c := by
  rw [Succeeds]
  split
  · next repeatable =>
    rw [run_matchAlternatives_of_repeatable repeatable] at run
    obtain ⟨all, repeated, -⟩ := exists_of_run_map run
    exact ⟨_, d, repeats_of_run repeated⟩
  · exact ⟨v, d, run⟩

/-- The alternative that is chosen comes to its end, and if the rule is repeated so does what is behind
it. -/
theorem Stage.Succeeds.chosen {id : RuleId} {p : Pattern} {y : Context}
    (h : (Stage.alternatives id).Succeeds env n c) (choice : choose id env c = (.ok (some p), y)) :
    ∃ v z, matchPattern (matchRule n) p env y = (.ok v, z) ∧
      ((env.grammar.rule id).repeatable = true → (Stage.alternatives id).Succeeds env n z) := by
  rw [Succeeds] at h
  split at h
  · next repeatable =>
    obtain ⟨mayStop, d, repeats⟩ := h
    cases repeats with
    | stop none => cases choice.symm.trans none
    | next some matched rest =>
      cases choice.symm.trans some
      refine ⟨_, _, matched, fun _ => ?_⟩
      rw [Succeeds, if_pos repeatable]
      exact ⟨_, _, rest⟩
  · next single =>
    obtain ⟨v, d, run⟩ := h
    rw [run_matchAlternatives_of_single (by simpa using single), choice] at run
    exact ⟨v, d, run, fun repeatable => absurd repeatable single⟩

/-- Where a point comes to its end, so does everything that matching comes to from there: what ends early
on the way ends the whole. -/
theorem Visits.succeeds {m : Nat} {s s' : Stage} {x : Context} (visit : Visits env n s c m s' x)
    (h : s.Succeeds env n c) : s'.Succeeds env m x := by
  induction visit with
  | here => exact h
  | rule _ _ ih =>
    obtain ⟨v, d, run⟩ := h
    obtain ⟨-, e, alternatives, -⟩ := exists_of_run_matchRule run
    exact ih (.alternatives alternatives)
  | chosen choice _ ih =>
    obtain ⟨v, z, matched, -⟩ := h.chosen choice
    exact ih ⟨v, z, matched⟩
  -- what was matched on the way is what the run that ends matched, as a matcher is a function
  | again repeatable choice matched _ ih =>
    obtain ⟨v, z, same, rest⟩ := h.chosen choice
    cases matched.symm.trans same
    exact ih (rest repeatable)
  | symbols _ ih =>
    obtain ⟨v, d, run⟩ := h
    rw [run_matchPattern] at run
    obtain ⟨items, e, matched, -⟩ := exists_of_run_bind run
    exact ih ⟨items, e, matched⟩
  | acting matched _ ih =>
    obtain ⟨v, d, run⟩ := h
    rw [run_matchPattern] at run
    obtain ⟨items, e, same, acted⟩ := exists_of_run_bind run
    cases matched.symm.trans same
    exact ih ⟨v, d, acted⟩
  | reference _ ih =>
    obtain ⟨items, d, run⟩ := h
    obtain ⟨item, e, first, -⟩ := exists_of_run_bind run
    obtain ⟨v, matched, -⟩ := exists_of_run_map (by rwa [matchSymbol, bind_pure_comp] at first)
    exact ih ⟨v, e, matched⟩
  | behind matched _ ih =>
    obtain ⟨items, d, run⟩ := h
    obtain ⟨item, e, same, rest⟩ := exists_of_run_bind run
    cases matched.symm.trans same
    obtain ⟨others, later, -⟩ := exists_of_run_map (by rwa [bind_pure_comp] at rest)
    exact ih ⟨others, d, later⟩

end

end Planfile
