import Planfile.Proofs.Source.IncludeStack
import Planfile.Proofs.Typing.Action

/-!
# Planfile — actions get what they take

The check of an action against the shapes of its symbols says which shape its value has, and an
action that passes never ends for a defect of the grammar.

Main results:

* `ExtendAction.yields_perform` — what statements about added attributes do.
* `Action.yields_perform` — what an action gives when it passes the check.
-/

/-!
## Adding attributes leaves a sound grammar

A statement that adds an attribute looks up rules, asks whether its keyword is taken, and appends an
alternative. In a grammar that has the rules it needs, none of this fails for want of one, and what
is appended is an attribute that can be read like any other.
-/

namespace Planfile

open Matcher

section
variable {t : GrammarTable} {v : Values} {shapes : List Shape}

namespace Matcher

theorem yields_ruleId {name : String} {id : RuleId} (h : t.ruleId? name = some id) :
    Yields t (· = id) (ruleId name) := by
  refine yields_read fun env he => ?_
  rw [he, h]
  exact yields_pure rfl

/-- The grammar in force is the table with added alternatives that start with keywords. -/
theorem yields_live : Yields t (fun g => g.table = t ∧ g.AddsKeywords) live := by
  intro env c ht hc
  refine ⟨⟨ht, ?_⟩, hc, Nat.le_refl _⟩
  rw [ht]
  exact hc.addsKeywords

/-- What follows an answer that looking ahead gives. -/
theorem yields_sound {x : Except GrammarError α} {a : α} {f : α → Matcher β} {resource : β → Prop}
    (h : x = .ok a) (hf : Yields t resource (f a)) : Yields t resource (sound x >>= f) := by
  subst h
  exact (yields_pure (rfl : a = a)).bind fun b hb => hb ▸ hf

/-- Choosing what is extended finds the rules that take attributes. -/
theorem yields_chooseTarget (ht : t.Extensible) (word : String) :
    Yields t (fun _ => True) (chooseTarget word) := by
  have choose (kind : Plan.PropertyKind) {rule scenarioRule : String}
      (hr : rule ∈ extendableNames) (hs : scenarioRule ∈ extendableNames) :
      Yields t (fun _ => True) (do
        let target : ExtendTarget := ⟨kind, ← ruleId rule, ← ruleId scenarioRule⟩
        modify fun c => { c with extendTarget := some target }) := by
    -- both rules are there, and both take attributes
    obtain ⟨id, known⟩ := ht.targets rule hr
    obtain ⟨scenarioId, scenarioKnown⟩ := ht.targets scenarioRule hs
    refine (yields_ruleId known).bind fun _ hi => (yields_ruleId scenarioKnown).bind fun _ hj => ?_
    subst hi hj
    intro env c _ hc
    refine ⟨trivial, ⟨hc.extensions, fun x hx => ?_⟩, Nat.le_refl _⟩
    cases hx
    exact ⟨⟨rule, hr, known⟩, ⟨scenarioRule, hs, scenarioKnown⟩⟩
  unfold chooseTarget
  split
  · exact choose .task (by decide) (by decide)
  · split
    · exact choose .resource (by decide) (by decide)
    · exact (yields_fail rfl : Yields t (fun _ => False) _).bind fun _ => False.elim

theorem yields_defineAttribute (kind : Plan.PropertyKind) (d : Plan.AttributeDefinition) :
    Yields t (fun _ => True) (defineAttribute kind d) := by
  refine yields_project.andThen fun p => ?_
  split
  · exact yields_fail rfl
  · exact yields_modify (fun _ => rfl) (fun _ => rfl) (fun _ => rfl)

/-- An attribute that is appended to a rule that takes attributes leaves a sound grammar. -/
theorem yields_append {rule : RuleId} {p : Pattern} (hr : t.IsExtendable rule)
    (hp : t.IsExtension p) :
    Yields t (fun _ => True)
      (modify fun c => { c with extensions := c.extensions ++ [(rule, p)] } : Matcher Unit) := by
  intro env c _ hc
  refine ⟨trivial, ⟨fun e he => ?_, hc.target⟩, Nat.le_refl _⟩
  rcases List.mem_append.mp he with old | new
  · exact hc.extensions e old
  · rw [List.mem_singleton.mp new]
    exact ⟨hr, hp⟩

/-- Adding an attribute with an id appends its pattern, which resolves. -/
theorem yields_applyExtension (ht : t.Extensible) {e : AttributeExtension} (he : e.id ≠ "") :
    Yields t (fun _ => True) (applyExtension e) := by
  obtain ⟨reference, known⟩ := ht.reference
  have resolved := e.mapM_symbols he known
  refine yields_get fun c hc => ?_
  refine (yields_orFail rfl fun x hx => hc.target x hx).bind fun target takes => ?_
  -- whether the keyword is taken can be told, as the rule starts within the limit
  refine yields_live.bind fun g ⟨ofTable, keywords⟩ => ?_
  obtain ⟨taken, answer⟩ := LiveGrammar.ruleAccepts_of_startsWithin keywords
    (by rw [ofTable]; exact ht.chains target.rule) (.id e.keyword)
  -- what remains to be done when it is not
  have appended : Yields t (fun _ => True) (do
      defineAttribute target.kind e.definition
      let symbols ← sound (e.symbols.mapM (← read).grammar.symbol)
      let rule := if e.scenarioSpecific then target.scenarioRule else target.rule
      modify fun c => { c with extensions := c.extensions ++ [(rule, ⟨symbols, some e.action⟩)] }
      if (← read).preferences.parser.logExtensions then
        report <| (Log.Event.success .extensionApplied "Attribute pattern appended").detailed
          [("attribute", e.id), ("property", target.kind.word),
            ("rule", ((← read).grammar.rule rule).name)]) := by
    refine (yields_defineAttribute _ _).andThen fun _ => yields_read fun env henv => ?_
    rw [henv]
    refine yields_sound resolved ?_
    have rule :
        t.IsExtendable (if e.scenarioSpecific then target.scenarioRule else target.rule) := by
      split
      · exact takes.2
      · exact takes.1
    refine (yields_append rule ⟨e, he, resolved, rfl⟩).andThen fun _ => yields_read fun env _ => ?_
    split
    · exact yields_read fun _ _ => yields_report _
    · exact yields_return
  refine yields_sound answer ?_
  cases taken with
  | true =>
    refine (yields_report _).andThen fun _ => ?_
    exact (yields_fail rfl : Yields t (fun _ => False) _).bind fun _ => False.elim
  | false => exact appended

end Matcher

/-- What an action that adds attributes gives. -/
def ExtendAction.gives : ExtendAction → Shape
  | .id => .name
  | _ => .any

/-- What statements about added attributes do. -/
theorem ExtendAction.yields_perform (ht : t.Extensible) (hv : Suits v shapes) {a : ExtendAction}
    (h : a.takes.met shapes = true) : Yields t a.gives.Has (a.perform v) := by
  have asked {i : Nat} {s : Shape} (hi : (i, s) ∈ a.takes) := Demands.offers_of_met h hi
  cases a with
  | target =>
    obtain ⟨_, word⟩ := hv.string (asked (i := 0) (by decide))
    exact yields_take word ((yields_chooseTarget ht _).andThen fun _ => yields_return)
  | close =>
    refine Yields.andThen ?_ fun _ => yields_return
    intro env c _ hc
    exact ⟨trivial, ⟨hc.extensions, nofun⟩, Nat.le_refl _⟩
  | declare kind =>
    obtain ⟨_, id, full⟩ := hv.name (asked (i := 1) List.mem_cons_self)
    obtain ⟨_, name⟩ := hv.string (asked (i := 2) (List.mem_cons_of_mem _ List.mem_cons_self))
    refine Yields.andThen ?_ fun _ => yields_return
    exact yields_take id (yields_take name (yields_applyExtension ht full))
  | id =>
    obtain ⟨id, text⟩ := hv.string (asked (i := 0) (by decide))
    refine yields_take text ?_
    unfold extensionId
    split
    · next upper =>
      -- an id that starts with a capital letter is not empty
      refine (yields_pure (rfl : id = id)).map ?_
      rintro _ rfl
      refine ⟨id, rfl, ?_⟩
      rintro rfl
      cases upper
    · exact (yields_fail rfl : Yields t (fun _ => False) _).map fun _ => False.elim
  | store id kind scenarioSpecific =>
    -- the kind of the attribute says which terminal stands behind its keyword
    have value : ∃ x, extensionValue kind v = .ok x := by
      cases kind with
      | date =>
        obtain ⟨d, date⟩ := hv.date (asked (i := 1) List.mem_cons_self)
        simp only [extensionValue, date]
        exact ⟨_, rfl⟩
      | _ =>
        obtain ⟨s, text⟩ := hv.string (asked (i := 1) List.mem_cons_self)
        simp only [extensionValue, text]
        exact ⟨_, rfl⟩
    obtain ⟨_, value⟩ := value
    refine yields_take value ?_
    split
    · exact (yields_setScenarioAttribute _ _).andThen fun _ => yields_return
    · exact (yields_modifyProperty _).andThen fun _ => yields_return

end

end Planfile

/-! ## All actions -/

namespace Planfile

open Plan (Operator)

/-- The shape of what an action gives, if the shapes of the symbols are those that it takes. Actions
that no rule of the language uses are not judged. -/
def Action.gives? (shapes : List Shape) : Action → Option Shape
  | .value i => some ((shapes[i]?).getD Shape.absent)
  | .collect | .nothing => some .any
  | .pair i =>
    match shapes[0]?, shapes[i]? with
    | some (Shape.literal symbol), some Shape.operand =>
      if (Operator.ofSymbol? symbol).isSome then some .chain else none
    | _, _ => none
  | .includeFile i => if offers shapes i .text then some .any else none
  | .project a => if a.takes.met shapes then some .any else none
  | .scenario a => if a.takes.met shapes then some a.gives else none
  | .property a => if a.takes.met shapes then some a.gives else none
  | .extend a => if a.takes.met shapes then some a.gives else none
  | .report a => if a.takes.met shapes then some .any else none
  | .logical a => if a.takes.met shapes then some a.gives else none
  | .calendar a => if a.takes.met shapes then some a.gives else none
  | _ => none

open Matcher

section
variable {t : GrammarTable} {v : Values} {shapes : List Shape}

/-- Going on with a file takes no token back. -/
theorem Matcher.consumed_of_pushInclude? {s u : TokenSource} {p : Settings.Preferences}
    {fs : File.System} {path : String} (h : s.pushInclude? p fs path = .ok u) :
    u.consumed = s.consumed := by
  obtain ⟨f, -, rfl⟩ := TokenSource.eq_of_pushInclude? h
  rfl

/-- A file may be missing or defective. -/
theorem Matcher.yields_includeFile (path : String) :
    Yields t (fun _ => True) (includeFile path) := by
  intro env c _ hc
  simp only [includeFile, run_bind, run_read, run_get, run_modify]
  cases hp : c.tokens.pushInclude? env.preferences env.files path with
  | ok tokens =>
    exact ⟨trivial, ⟨hc.extensions, hc.target⟩, Nat.le_of_eq (consumed_of_pushInclude? hp).symm⟩
  | error e => cases e <;> rfl

theorem eq_of_guard {b : Bool} {a s : Shape} (h : (if b then some a else none) = some s) :
    b = true ∧ a = s := by
  cases b with
  | false => cases h
  | true => exact ⟨rfl, Option.some.inj h⟩

/-- What an action gives when it gets what it takes. -/
theorem Action.yields_perform (ht : t.Extensible) (hv : Suits v shapes) {a : Action} {s : Shape}
    (h : a.gives? shapes = some s) (matchRule : RuleId → Matcher (Option Value)) :
    Yields t s.Has (a.perform matchRule v) := by
  cases a with
  | value i =>
    cases h
    exact yields_pure (hv i)
  | collect | nothing =>
    cases h
    exact yields_return
  | pair i =>
    simp only [gives?] at h
    split at h
    · -- an operator with the operand behind it is what a chain is made of
      next symbol literal operand =>
      obtain ⟨known, rfl⟩ := eq_of_guard h
      have first := hv 0
      have second := hv i
      rw [literal] at first
      rw [operand] at second
      obtain ⟨right, second⟩ := second
      refine yields_take ((Values.required_eq_ok_iff _ _ _).mpr first) ?_
      refine yields_take ((Values.required_eq_ok_iff _ _ _).mpr second) (yields_pure ?_)
      exact .inr ⟨symbol, right, rfl, known⟩
    · cases h
  | includeFile i =>
    obtain ⟨text, rfl⟩ := eq_of_guard h
    obtain ⟨_, path⟩ := hv.string text
    exact yields_take path ((yields_includeFile _).andThen fun _ => yields_return)
  | project a =>
    obtain ⟨met, rfl⟩ := eq_of_guard h
    exact (a.yields_perform hv met).andThen fun _ => yields_return
  | scenario a =>
    obtain ⟨met, rfl⟩ := eq_of_guard h
    exact a.yields_perform hv met
  | property a =>
    obtain ⟨met, rfl⟩ := eq_of_guard h
    exact a.yields_perform hv met
  | extend a =>
    obtain ⟨met, rfl⟩ := eq_of_guard h
    exact a.yields_perform ht hv met
  | report a =>
    obtain ⟨met, rfl⟩ := eq_of_guard h
    exact a.yields_perform hv met
  | logical a =>
    obtain ⟨met, rfl⟩ := eq_of_guard h
    exact a.yields_perform hv met
  | calendar a =>
    obtain ⟨met, rfl⟩ := eq_of_guard h
    exact a.yields_perform hv met
  | _ => cases h

end

end Planfile
