import Planfile.Parse.Matcher
import Planfile.Proofs.Parallel.Action

/-!
# Planfile — matching in step

Two runs read in step if the same token is ahead in both wherever they have come to, and the same comes next
when it has been read. Then the same alternatives are chosen, the same symbols are read and the same actions
are performed, and what is refused is refused for the same fault. What a relation of runs has to say for this
is what is ahead; of the alternatives of the grammar it has to say that each of them is matched alike once
rules are.

Main results:

* `RunRelation.InStep` — what a relation of runs says of tokens that are read in step.
* `RunRelation.parallel_matchPattern` — an alternative is matched alike if its action is performed alike.
* `RunRelation.parallel_plan` — a plan makes projects that look the same, or is refused for one fault.
-/

namespace Planfile.RunRelation

open Matcher

/-- Whether two runs read in step: the surroundings are the same, and so is the token that is ahead, and
where an expression starts is not seen to differ. -/
structure InStep (L : RunRelation) : Prop where
  same : ∀ {env env'}, L.surroundings env env' → env' = env
  stop : ∀ {s stop t stop'}, L.reading s stop t stop' → stop' = stop
  peek : ∀ {s stop t stop'}, L.reading s stop t stop' → t.peek = s.peek
  consumed : ∀ {s stop t stop'}, L.reading s stop t stop' → t.consumed = s.consumed
  advance : ∀ {s stop t stop'}, L.reading s stop t stop' →
    Option.Rel (fun a b => b.1.token = a.1.token ∧ L.reading a.2 stop b.2 stop') s.advance t.advance
  mark : ∀ {s stop t stop'}, L.reading s stop t stop' → ∀ mark, L.reading s mark t mark
  place : ∀ {s stop t stop'}, L.reading s stop t stop' → ∀ operation,
    L.view ⟨operation, t.location.file, t.location.line⟩ =
      L.view ⟨operation, s.location.file, s.location.line⟩

theorem Alike.withDepth {L : RunRelation} {c d : Context} (alike : L.Alike c d) (depth : Nat) :
    L.Alike { c with depth } { d with depth } :=
  ⟨alike.reading, alike.allowed, (congrArg (fun c : Context => { c with depth }) alike.built :)⟩

variable {L : RunRelation} {R : α → β → Prop}

/-- The same is given in both runs, and something is known of it. -/
theorem Parallel.andGiven {P : α → Prop} {m n : Matcher α} {f : α → Matcher β} {g : α → Matcher γ}
    {S : β → γ → Prop} (hm : L.Parallel (fun a b => b = a ∧ P a) m n)
    (hf : ∀ a, P a → L.Parallel S (f a) (g a)) : L.Parallel S (m >>= f) (n >>= g) :=
  hm.bind fun a _ ⟨same, given⟩ => same ▸ hf a given

/-- What is parallel is so one level deeper. -/
theorem Parallel.nested {m : Matcher α} {n : Matcher β} (h : L.Parallel R m n) :
    L.Parallel R (nested m) (nested n) := by
  intro env env' c d he alike
  obtain ⟨ends, after⟩ := h env env' _ _ he (alike.withDepth (c.depth + 1))
  show EndAlike R (m env { c with depth := c.depth + 1 }).1 (n env' { d with depth := d.depth + 1 }).1 ∧
    L.Alike
      { (m env { c with depth := c.depth + 1 }).2 with
        depth := (m env { c with depth := c.depth + 1 }).2.depth - 1 }
      { (n env' { d with depth := d.depth + 1 }).2 with
        depth := (n env' { d with depth := d.depth + 1 }).2.depth - 1 }
  rw [alike.depth, after.depth]
  exact ⟨ends, after.withDepth _⟩

/-- The project is taken out of both states. -/
theorem parallel_takeProject : L.Parallel (Option.Rel L.SameProject) takeProject takeProject := by
  refine parallel_get fun c d alike => ?_
  refine Parallel.andThen (parallel_modify fun c d alike => ⟨alike.reading, alike.allowed, ?_⟩) fun _ => ?_
  · exact (congrArg (fun c : Context => { c with project := none }) alike.built :)
  · exact parallel_pure alike.project

/-- What is seen of the value of a matched symbol. -/
def seen (view : Plan.View) (item : MatchedValue) : Option Value := item.value?.map (Value.through view)

/-- Patterns have values that look the same if their symbols have. -/
theorem same_of_seen {view : Plan.View} {items items' : List MatchedValue} {location location' : Location}
    (h : items'.map (seen view) = items.map (seen view))
    (place : ∀ operation, view ⟨operation, location'.file, location'.line⟩ =
      view ⟨operation, location.file, location.line⟩) :
    Values.Same view ⟨items, location⟩ ⟨items', location'⟩ := by
  have value (items : List MatchedValue) (location : Location) (i : Nat) :
      ((Values.mk items location).value? i).map (Value.through view) =
        ((items.map (seen view))[i]?).join := by
    rw [List.getElem?_map, Values.value?, Values.get?]
    cases items[i]? <;> rfl
  refine ⟨fun i => ?_, place⟩
  rw [Value.Same, value, value, h]

/-- Whether rules are matched in the same way in both runs. -/
def MatchesAlike (L : RunRelation) (matchRule : RuleId → Matcher (Option Value)) : Prop :=
  ∀ id, L.Parallel (Value.Same L.view) (matchRule id) (matchRule id)

/-- Whether the alternatives of some kind are all that is chosen from, and are matched alike. -/
structure Takes (L : RunRelation) (kind : Pattern → Prop) : Prop where
  declared : ∀ {env env'}, L.surroundings env env' → ∀ id, ∀ p ∈ (env.grammar.rule id).patterns, kind p
  added : ∀ {p}, (∀ a ∈ p.action, L.allows a) → kind p
  matched : ∀ {matchRule}, L.MatchesAlike matchRule → ∀ {p}, kind p →
    L.Parallel (Value.Same L.view) (matchPattern matchRule p) (matchPattern matchRule p)

section
variable (inStep : L.InStep)

include inStep

/-! ## Faults at the next token -/

theorem parallel_unfit (fault : ParseFault) : L.Parallel R (unfit fault) (unfit fault) := by
  refine parallel_read fun env env' he => parallel_get fun c d alike => ?_
  -- the same identifier is taken for a misspelt attribute
  have unknown : unknownAttribute? env.grammar d = unknownAttribute? env.grammar c := by
    rw [unknownAttribute?, inStep.peek alike.reading, inStep.stop alike.reading,
      inStep.consumed alike.reading, unknownAttribute?]
  rw [inStep.same he, unknown]
  exact parallel_failNext _

theorem parallel_expected (what : String) : L.Parallel R (expected what) (expected what) := by
  refine parallel_get fun c d alike => ?_
  rw [inStep.peek alike.reading]
  exact parallel_unfit inStep _

theorem steady_expectEnd : L.Steady expectEnd := by
  refine parallel_get fun c d alike => ?_
  rw [inStep.peek alike.reading]
  split
  · exact parallel_expected inStep _
  · exact parallel_pure rfl

theorem parallel_ruleExpected (name : String) : L.Parallel R (ruleExpected name) (ruleExpected name) := by
  refine parallel_get fun c d alike => ?_
  rw [inStep.peek alike.reading]
  exact parallel_failNext _

/-! ## Symbols -/

/-- Other tokens can be ahead, if they are read alike. -/
theorem Alike.withTokens {c d : Context} (alike : L.Alike c d) {s t : TokenSource}
    {stop stop' : Option StopMark} (ahead : L.reading s stop t stop') (journal journal' : Log.Journal) :
    L.Alike { c with tokens := s, journal } { d with tokens := t, journal := journal' } := by
  refine ⟨?_, alike.allowed, alike.built⟩
  show L.reading s c.stop t d.stop
  rw [inStep.stop alike.reading]
  exact inStep.mark ahead c.stop

/-- The same token is read. -/
theorem steady_consume : L.Steady consume := by
  refine parallel_get fun c d alike => ?_
  have next := inStep.advance alike.reading
  generalize c.tokens.advance = a at next ⊢
  generalize d.tokens.advance = b at next ⊢
  cases next with
  | none => exact parallel_expected inStep _
  | @some a b read =>
    obtain ⟨token, ahead⟩ := read
    refine parallel_read fun env env' _ => ?_
    refine Parallel.andThen (parallel_modify fun c d alike => alike.withTokens inStep ahead _ _) fun _ => ?_
    exact parallel_pure token.symm

variable {matchRule : RuleId → Matcher (Option Value)}

theorem parallel_matchSymbol (h : L.MatchesAlike matchRule) (s : Symbol) :
    L.Parallel (fun x y => seen L.view y = seen L.view x) (matchSymbol matchRule s)
      (matchSymbol matchRule s) := by
  cases s with
  | literal text =>
    refine parallel_get fun c d alike => ?_
    rw [inStep.peek alike.reading]
    have read : L.Parallel (fun x y => seen L.view y = seen L.view x)
        (do let _ ← consume; return .literal text) (do let _ ← consume; return .literal text) :=
      (steady_consume inStep).andThen fun _ => parallel_pure rfl
    split
    · exact Parallel.andThen (parallel_expected inStep _) fun _ => read
    · exact read
  | tokenClass k =>
    refine parallel_get fun c d alike => ?_
    rw [inStep.peek alike.reading]
    have read : L.Parallel (fun x y => seen L.view y = seen L.view x)
        (MatchedValue.token <$> consume) (MatchedValue.token <$> consume) :=
      (steady_consume inStep).map fun _ _ same => same ▸ rfl
    dsimp only
    split
    · exact Parallel.andThen (parallel_unfit inStep _) fun _ => read
    · exact read
  | rule id => exact (h id).map fun _ _ same => same

theorem parallel_matchSymbols (h : L.MatchesAlike matchRule) (symbols : List Symbol) :
    L.Parallel (fun xs ys => ys.map (seen L.view) = xs.map (seen L.view)) (matchSymbols matchRule symbols)
      (matchSymbols matchRule symbols) := by
  induction symbols with
  | nil => exact parallel_pure rfl
  | cons s rest ih =>
    refine (parallel_matchSymbol inStep h s).bind fun x y same => ih.map fun xs ys others => ?_
    rw [List.map_cons, List.map_cons, same, others]

/-! ## Patterns -/

/-- An alternative is matched alike if its action is performed alike. -/
theorem parallel_matchPattern (h : L.MatchesAlike matchRule) {p : Pattern}
    (performs : ∀ a ∈ p.action, ∀ {v w : Values}, v.Same L.view w →
      L.Parallel (Value.Same L.view) (a.perform matchRule v) (a.perform matchRule w)) :
    L.Parallel (Value.Same L.view) (matchPattern matchRule p) (matchPattern matchRule p) := by
  refine parallel_get fun c d alike => ?_
  refine (parallel_matchSymbols inStep h p.symbols).bind fun items items' same => ?_
  cases action : p.action with
  | none => exact parallel_pure rfl
  | some a =>
    refine (parallel_report _ _).andThen fun _ => ?_
    exact performs a action (same_of_seen same (inStep.place alike.reading))

variable {kind : Pattern → Prop} (takes : L.Takes kind)

include takes

/-- The grammar in force is the same. -/
theorem parallel_live :
    L.Parallel (fun g g' => g' = g ∧ ∀ id, ∀ p ∈ g.patterns id, kind p) live live := by
  refine parallel_read fun env env' he => parallel_get fun c d alike => parallel_pure ⟨?_, ?_⟩
  · rw [inStep.same he, alike.extensions]
  · intro id p mem
    rcases List.mem_append.mp mem with declared | added
    · exact takes.declared he id p declared
    · obtain ⟨entry, there, rfl⟩ := List.mem_map.mp added
      exact takes.added (alike.allowed entry (List.mem_filter.mp there).1)

/-- The same alternative is chosen. -/
theorem parallel_choose (id : RuleId) :
    L.Parallel (fun x y => y = x ∧ ∀ p ∈ x, kind p) (choose id) (choose id) := by
  refine parallel_read fun env env' he => parallel_get fun c d alike => ?_
  obtain rfl := inStep.same he
  rw [inStep.peek alike.reading]
  refine (parallel_live inStep takes).andGiven fun g taken => ?_
  -- what can start is an alternative in force
  have found : L.Parallel (fun xs ys => ys = xs ∧ xs ⊆ g.patterns id)
      (sound (g.candidates id c.tokens.peek)) (sound (g.candidates id c.tokens.peek)) := by
    cases answer : g.candidates id c.tokens.peek with
    | error e => exact parallel_failNext _
    | ok found => exact parallel_pure ⟨rfl, LiveGrammar.subset_of_candidates answer⟩
  refine found.andGiven fun found inForce => ?_
  have first : L.Parallel (fun x y => y = x ∧ ∀ p ∈ x, kind p) (pure found.head?) (pure found.head?) :=
    parallel_pure ⟨rfl, fun p mem => taken id p (inForce (List.mem_of_head? mem))⟩
  dsimp only
  split
  · exact (parallel_report _ _).andThen fun _ => first
  · exact first

/-! ## Rules -/

omit takes in
theorem steady_markStop (id : RuleId) : L.Steady (markStop id) := by
  refine parallel_modify fun c d alike => ⟨?_, alike.allowed, alike.built⟩
  show L.reading c.tokens (some ⟨c.tokens.consumed, id⟩) d.tokens (some ⟨d.tokens.consumed, id⟩)
  rw [inStep.consumed alike.reading]
  exact inStep.mark alike.reading _

/-- A repetition goes on alike: as long as something is read, and as often as there is fuel. -/
theorem parallel_matchRepeatedly (h : L.MatchesAlike matchRule) (id : RuleId) (mayStop : Bool) (fuel : Nat)
    {values values' : List Value}
    (same : values'.map (Value.through L.view) = values.map (Value.through L.view)) :
    L.Parallel (fun vs ws => ws.map (Value.through L.view) = vs.map (Value.through L.view))
      (matchRepeatedly matchRule id mayStop fuel values)
      (matchRepeatedly matchRule id mayStop fuel values') := by
  induction fuel generalizing mayStop values values' with
  | zero => exact fun _ _ _ _ _ alike => ⟨.outOfFuel, alike⟩
  | succ fuel ih =>
    refine (parallel_choose inStep takes id).andGiven fun chosen taken => ?_
    cases chosen with
    | none =>
      have stops : L.Parallel (fun vs ws => ws.map (Value.through L.view) = vs.map (Value.through L.view))
          (do markStop id; return values) (do markStop id; return values') :=
        (steady_markStop inStep id).andThen fun _ => parallel_pure same
      dsimp only
      split
      · refine parallel_read fun env env' he => ?_
        rw [inStep.same he]
        exact Parallel.andThen (parallel_ruleExpected inStep _) fun _ => stops
      · exact stops
    | some p =>
      refine parallel_get fun before before' alike => ?_
      refine (takes.matched h (taken p rfl)).bind fun v w matched => ?_
      refine parallel_get fun after after' alike' => ?_
      have collected : (w.toList ++ values').map (Value.through L.view) =
          (v.toList ++ values).map (Value.through L.view) := by
        rw [List.map_append, List.map_append, same, ← Option.toList_map, matched, Option.toList_map]
      -- both have read as much, so both go on or both refuse to go on for nothing
      rw [inStep.consumed alike.reading, inStep.consumed alike'.reading]
      split
      · refine parallel_read fun env env' he => ?_
        rw [inStep.same he]
        exact Parallel.andThen (parallel_failNext _) fun _ => ih true collected
      · exact ih true collected

/-- One of the alternatives is matched alike, or several are. -/
theorem parallel_matchAlternatives (h : L.MatchesAlike matchRule) (fuel : Nat) (id : RuleId) :
    L.Parallel (Value.Same L.view) (matchAlternatives matchRule fuel id)
      (matchAlternatives matchRule fuel id) := by
  refine parallel_read fun env env' he => ?_
  obtain rfl := inStep.same he
  dsimp only
  split
  · refine (parallel_matchRepeatedly inStep takes h id _ fuel rfl).map fun vs ws same => ?_
    -- lists that look alike are as long, so both are there or none
    have empty : ws.isEmpty = vs.isEmpty := by
      have := congrArg List.isEmpty same
      simpa only [List.isEmpty_map] using this
    rw [empty]
    split
    · rfl
    · rw [Value.Same, Option.map_some, Option.map_some, Value.through_list, Value.through_list,
        List.map_reverse, same, List.map_reverse]
  · refine (parallel_choose inStep takes id).andGiven fun chosen taken => ?_
    cases chosen with
    | some p => exact takes.matched h (taken p rfl)
    | none =>
      dsimp only
      split
      · exact parallel_pure rfl
      · exact parallel_ruleExpected inStep _

/-- A rule is matched in the same way in both runs, however deep rules nest. -/
theorem matchesAlike_matchRule (fuel : Nat) : L.MatchesAlike (Matcher.matchRule fuel) := by
  -- by induction on how deep rules may still nest
  induction fuel with
  | zero => exact fun _ _ _ _ _ _ alike => ⟨.outOfFuel, alike⟩
  | succ fuel ih =>
    intro id
    refine parallel_get fun c d alike => ?_
    rw [alike.depth]
    have deeper := (parallel_matchAlternatives inStep takes ih fuel id).nested
    split
    · exact Parallel.andThen (parallel_failNext _) fun _ => deeper
    · exact deeper

/-- A plan makes projects that look the same, or it is refused for the same fault. -/
theorem parallel_plan : L.Parallel L.SameProject plan plan := by
  have project (id : RuleId) := matchesAlike_matchRule inStep takes ampleFuel id
  refine Parallel.bind ((steady_ruleId "project").andThen project) fun _ _ _ => ?_
  refine (steady_expectEnd inStep).andThen fun _ => parallel_takeProject.bind fun p q same => ?_
  exact parallel_orFail _ same

end

end Planfile.RunRelation
