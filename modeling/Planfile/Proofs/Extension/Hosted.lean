import Planfile.Proofs.Extension.AttributeState

/-!
# Planfile — where a plan adds to its grammar, whatever the grammar is

A match is made of few kinds of step: a token is read, an action is performed, and the state takes notes
of how deep rules are nested, of where a repetition has stopped, and in the journal. What relates the
states in front of and behind each of them, and can be put together, relates those of any match. Nothing
is asked of the grammar.

A first use of it is that additions are made to the rules for attributes only, and that what is added
stores a value.

Main results:

* `Matcher.Stepwise.of_run_matchRule` — the states in front of and behind a match of a rule are related.
* `Matcher.stepwise_hosted` — whatever is matched, what a plan has added is in the rules for attributes.
-/

namespace Planfile

/-! ## Steps -/

namespace Matcher

/-- Whether a relation between states can be put together and relates the states in front of and behind
each step. An action that matches a rule is no step. -/
structure Stepwise (env : Surroundings) (R : Context → Context → Prop) : Prop where
  refl : ∀ c, R c c
  trans : ∀ {c d e}, R c d → R d e → R c e
  next : ∀ c, R c (c.next env)
  note : ∀ c depth stop journal, R c { c with depth, stop, journal }
  acts : ∀ {a : Action} {matchRule v c o d}, (∀ name, a ≠ .rule name) →
    a.perform matchRule v env c = (.ok o, d) → R c d

/-- Looking up a rule changes nothing. -/
theorem eq_of_run_ruleId {name : String} {env : Surroundings} {c d : Context} {id : RuleId}
    (run : ruleId name env c = (.ok id, d)) : d = c := by
  have kept : Ends (fun _ e => e = c) (ruleId name) env c := by simp
  exact kept.of_ok run

namespace Stepwise

variable {env : Surroundings} {R : Context → Context → Prop} (hR : Stepwise env R)
  {matchRule : RuleId → Matcher (Option Value)}
  (inside : ∀ {id c v d}, matchRule id env c = (.ok v, d) → R c d)
include hR inside

theorem of_run_matchSymbol {s : Symbol} {c d : Context} {item : MatchedValue}
    (run : matchSymbol matchRule s env c = (.ok item, d)) : R c d := by
  cases s with
  | literal text =>
    obtain ⟨-, -, rfl⟩ := eq_of_run_terminal matchRule (a := .literal text) rfl run
    exact hR.next _
  | tokenClass k =>
    obtain ⟨-, -, rfl⟩ := eq_of_run_terminal matchRule (a := .tokenClass k) rfl run
    exact hR.next _
  | rule id =>
    obtain ⟨v, matched, -⟩ := exists_of_run_map (by rwa [matchSymbol, bind_pure_comp] at run)
    exact inside matched

theorem of_run_matchSymbols {symbols : List Symbol} {c d : Context} {items : List MatchedValue}
    (run : matchSymbols matchRule symbols env c = (.ok items, d)) : R c d := by
  induction symbols generalizing c items with
  | nil =>
    cases run
    exact hR.refl _
  | cons s rest ih =>
    obtain ⟨item, e, first, others⟩ := exists_of_run_bind run
    obtain ⟨items', later, -⟩ := exists_of_run_map (by rwa [bind_pure_comp] at others)
    exact hR.trans (hR.of_run_matchSymbol inside first) (ih later)

theorem of_run_performed {p : Pattern} {location : Location} {items : List MatchedValue} {c d : Context}
    {v : Option Value} (run : performed matchRule p location items env c = (.ok v, d)) : R c d := by
  rcases cases_of_run_performed run with ⟨-, ⟨⟩, rfl⟩ | ⟨a, journal, action, run⟩
  · exact hR.refl c
  · have noted : R c { c with journal } := hR.note c c.depth c.stop journal
    -- an action that matches a rule is as good as the match, any other one is a step
    by_cases nests : ∃ name, a = .rule name
    · obtain ⟨name, rfl⟩ := nests
      obtain ⟨id, e, known, matched⟩ := exists_of_run_bind run
      obtain rfl := eq_of_run_ruleId known
      exact hR.trans noted (inside matched)
    · exact hR.trans noted (hR.acts (fun name same => nests ⟨name, same⟩) run)

theorem of_run_matchPattern {p : Pattern} {c d : Context} {v : Option Value}
    (run : matchPattern matchRule p env c = (.ok v, d)) : R c d := by
  rw [run_matchPattern] at run
  obtain ⟨items, e, matched, done⟩ := exists_of_run_bind run
  exact hR.trans (hR.of_run_matchSymbols inside matched) (hR.of_run_performed inside done)

omit inside in
theorem of_run_choose {id : RuleId} {c d : Context} {chosen : Option Pattern}
    (choice : choose id env c = (.ok chosen, d)) : R c d := by
  obtain ⟨⟨journal, rfl⟩, -⟩ := exists_of_run_choose choice
  exact hR.note c c.depth c.stop journal

theorem of_repeats {id : RuleId} {mayStop : Bool} {c d : Context}
    (h : Repeats matchRule id env mayStop c d) : R c d := by
  induction h with
  | stop choice => exact hR.trans (hR.of_run_choose choice) (hR.note _ _ _ _)
  | next choice matched _ ih =>
    exact hR.trans (hR.of_run_choose choice) (hR.trans (hR.of_run_matchPattern inside matched) ih)

theorem of_run_matchAlternatives {id : RuleId} {fuel : Nat} {c d : Context} {v : Option Value}
    (run : matchAlternatives matchRule fuel id env c = (.ok v, d)) : R c d := by
  rcases cases_of_run_matchAlternatives run with
    ⟨-, all, -, repeated⟩ | ⟨-, -, -, choice⟩ | ⟨-, p, e, choice, matched⟩
  · exact hR.of_repeats inside (repeats_of_run repeated)
  · exact hR.of_run_choose choice
  · exact hR.trans (hR.of_run_choose choice) (hR.of_run_matchPattern inside matched)

omit inside in
/-- The states in front of and behind a match of a rule are related. -/
theorem of_run_matchRule {fuel : Nat} {id : RuleId} {c d : Context} {v : Option Value}
    (run : Matcher.matchRule fuel id env c = (.ok v, d)) : R c d := by
  -- by induction on the levels of nesting
  induction fuel generalizing id c d v with
  | zero => cases run
  | succ fuel ih =>
    obtain ⟨-, e, alternatives, rfl⟩ := exists_of_run_matchRule run
    have deeper : R c { c with depth := c.depth + 1 } := hR.note c _ c.stop c.journal
    have back : R e { e with depth := e.depth - 1 } := hR.note e _ e.stop e.journal
    exact hR.trans deeper (hR.trans (hR.of_run_matchAlternatives ih alternatives) back)

end Stepwise

end Matcher

/-! ## Rules for attributes -/

/-- Whether a plan has added to the rules for attributes only, and only what stores a value, and will. -/
structure Context.Hosted (t : GrammarTable) (c : Context) : Prop where
  extensions : ∀ e ∈ c.extensions, t.IsExtendable e.1
  stores : ∀ e ∈ c.extensions, ∃ x : AttributeExtension, e.2.action = some x.action
  target : ∀ x, c.extendTarget = some x → t.IsExtendable x.rule ∧ t.IsExtendable x.scenarioRule

/-- Nothing has been added before the first token is read. -/
theorem Context.hosted_initial (t : GrammarTable) (tokens : TokenSource) (journal : Log.Journal) :
    (Context.initial tokens journal).Hosted t where
  extensions _ he := by cases he
  stores _ he := by cases he
  target _ hx := by cases hx

/-- A state is hosted that has no other additions than another one and no other target. -/
theorem Context.Hosted.of_eq {t : GrammarTable} {c d : Context} (h : c.Hosted t)
    (extensions : d.extensions = c.extensions) (target : d.extendTarget = c.extendTarget) :
    d.Hosted t :=
  ⟨extensions ▸ h.extensions, extensions ▸ h.stores, target ▸ h.target⟩

namespace Matcher

variable {env : Surroundings}

/-- A rule for attributes is among the extendable ones. -/
theorem isExtendable_hostName {t : GrammarTable} {kind : Plan.PropertyKind} {specific : Bool}
    {rule : RuleId} (known : t.ruleId? (hostName kind specific) = some rule) : t.IsExtendable rule := by
  refine ⟨hostName kind specific, ?_, known⟩
  cases kind <;> cases specific <;> simp [hostName, extendableNames]

/-- Choosing what is extended names rules for attributes. -/
theorem ends_chooseTarget_hosted {c : Context} (h : c.Hosted env.grammar) (word : String) :
    Ends (fun _ d => d.Hosted env.grammar) (chooseTarget word) env c := by
  have aimed (kind : Plan.PropertyKind) {rule scenarioRule : RuleId}
      (plain : env.grammar.ruleId? (hostName kind false) = some rule)
      (specific : env.grammar.ruleId? (hostName kind true) = some scenarioRule) :
      ({ c with extendTarget := some ⟨kind, rule, scenarioRule⟩ } : Context).Hosted env.grammar := by
    refine ⟨h.extensions, h.stores, fun x hx => ?_⟩
    cases hx
    exact ⟨isExtendable_hostName plain, isExtendable_hostName specific⟩
  simp only [chooseTarget, ends_bind, ends_ite, ends_pure, ends_fail, ends_ruleId, ends_modify]
  split
  · exact fun rule plain scenarioRule specific => aimed .task plain specific
  · split
    · exact fun rule plain scenarioRule specific => aimed .resource plain specific
    · trivial

/-- An attribute is added to what is extended. -/
theorem ends_applyExtension_hosted {c : Context} (h : c.Hosted env.grammar) (e : AttributeExtension) :
    Ends (fun _ d => d.Hosted env.grammar) (applyExtension e) env c := by
  refine ends_applyExtension e fun target p set symbols journal there _ _ _ _ => ?_
  refine ⟨fun x hx => ?_, fun x hx => ?_, h.target⟩
  · rcases List.mem_append.mp hx with old | new
    · exact h.extensions x old
    · obtain ⟨plain, specific⟩ := h.target target there
      rw [List.mem_singleton.mp new]
      dsimp only
      split
      · exact specific
      · exact plain
  · rcases List.mem_append.mp hx with old | new
    · exact h.stores x old
    · exact ⟨e, by rw [List.mem_singleton.mp new]⟩

/-- Whatever is matched, what a plan has added is in the rules for attributes. -/
theorem stepwise_hosted (env : Surroundings) :
    Stepwise env fun c d => c.Hosted env.grammar → d.Hosted env.grammar where
  refl _ h := h
  trans first second h := second (first h)
  next _ h := h.of_eq rfl rfl
  note _ _ _ _ h := h.of_eq rfl rfl
  acts := by
    intro a matchRule v c o d nests run h
    suffices ends : Ends (fun _ d => d.Hosted env.grammar) (a.perform matchRule v) env c from
      ends.of_ok run
    cases grows : a.extendsLanguage with
    | false =>
      have same := (a.spares_attributeState grows matchRule v).eq env c
      rw [run] at same
      have kept : d.Hosted env.grammar :=
        h.of_eq (congrArg AttributeState.extensions same) (congrArg AttributeState.target same)
      rw [Ends, run]
      exact kept
    | true =>
      -- a project starts, it is said what is extended, an extension ends, or an attribute is declared
      unfold Action.extendsLanguage at grows
      split at grows
      · simp only [Action.perform, ProjectAction.perform, ends_bind, ends_take, ends_modify, ends_pure]
        exact fun _ _ _ _ _ _ _ _ => h.of_eq rfl rfl
      · simp only [Action.perform, ExtendAction.perform, ends_bind, ends_take, ends_pure]
        exact fun word _ => ends_chooseTarget_hosted h word
      · exact ⟨h.extensions, h.stores, fun x hx => by cases hx⟩
      · simp only [Action.perform, ExtendAction.perform, declareAttribute, ends_bind, ends_take, ends_pure]
        exact fun id _ name _ => ends_applyExtension_hosted h _
      · exact absurd rfl (nests _)
      · cases grows

end Matcher

/-- A rule that is not one for attributes has the alternatives that it has been declared with. -/
theorem Context.Hosted.patterns_eq {t : GrammarTable} {c : Context} (h : c.Hosted t) {id : RuleId}
    (fixed : ¬t.IsExtendable id) : (LiveGrammar.mk t c.extensions).patterns id = (t.rule id).patterns := by
  have none : (LiveGrammar.mk t c.extensions).addedTo id = [] := by
    rw [LiveGrammar.addedTo, List.map_eq_nil_iff, List.filter_eq_nil_iff]
    intro e he same
    exact fixed (beq_iff_eq.mp same ▸ h.extensions e he)
  rw [LiveGrammar.patterns, none, List.append_nil]

/-- An alternative in force has been declared, or it stores a value. -/
theorem Context.Hosted.cases_of_mem_patterns {t : GrammarTable} {c : Context} (h : c.Hosted t)
    {id : RuleId} {p : Pattern} (mem : p ∈ (LiveGrammar.mk t c.extensions).patterns id) :
    p ∈ (t.rule id).patterns ∨ ∃ x : AttributeExtension, p.action = some x.action := by
  rcases List.mem_append.mp mem with declared | added
  · exact .inl declared
  · obtain ⟨e, there, rfl⟩ := List.mem_map.mp added
    exact .inr (h.stores e (List.mem_of_mem_filter there))

end Planfile
