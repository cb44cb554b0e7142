import Planfile.Proofs.Hours.Action
import Planfile.Proofs.Hours.Statement
import Planfile.Proofs.Range.Language
import Planfile.Proofs.Statement.Retelling

/-!
# Planfile — the working hours of a plan

Headers of tasks and resources are words of two rules, statements about working hours of a third one, and the
ends of the bodies are those of two alternatives. All other rules leave the table of hours alone. An attribute
that a plan adds cannot be taken for hours, since its name starts with a capital letter; this is the invariant
that is kept on the way. So what a plan makes of its hours can be read off its text.

Main results:

* `valueInvariant_capitals` — added attributes have names with capital letters all along the way.
* `HoursTable.tracks` — the table comes from the notes on bodies and hours.
* `Language.hours_of_plan` — in each scope the last statement about a day counts.
-/

namespace Planfile

open Matcher
open Calendar (WorkingHours HoursStatement)
open Plan (PropertyKind)

/-! ## Names of added attributes -/

section
variable {ofRule : RuleId → Shape} {effects : Effects} {env : Surroundings} {p : Pattern} {a : Action}
  {v : Values} {c d : Context} {o : Option Value} {matchRule : RuleId → Matcher (Option Value)}

/-- Only statements that add attributes add to the grammar. -/
theorem Prepared.extensions_of_run (prepared : Prepared env.grammar ofRule effects p v c)
    (action : p.action = some a) (other : ∀ kind, a ≠ .extend (.declare kind))
    (run : a.perform matchRule v env c = (.ok o, d)) : d.extensions = c.extensions := by
  cases extends' : a.extendsLanguage with
  | false =>
    have attributeState := (a.spares_attributeState extends' matchRule v).eq env c
    rw [run] at attributeState
    exact congrArg AttributeState.extensions attributeState
  | true =>
    -- only a declaration adds to the rules: a header resets nothing of them, and a target is only noted
    unfold Action.extendsLanguage at extends'
    split at extends'
    · obtain ⟨_, x, started, last⟩ := exists_of_run_bind run
      cases last
      have ends : Ends (fun _ d => d.extensions = c.extensions) (ProjectAction.header.perform v) env c := by
        simp +contextual [ProjectAction.perform]
      exact ends.of_ok started
    · have ends : Ends (fun _ d => d.extensions = c.extensions) (ExtendAction.target.perform v) env c := by
        simp [ExtendAction.perform, chooseTarget]
      exact ends.of_ok run
    · cases run
      rfl
    · exact absurd rfl (other _)
    · exact (prepared.allows _ action).not_rule.elim
    · cases extends'

/-- Added attributes have names with capital letters, where those have that are declared. -/
theorem Prepared.namesCapital {reference : RuleId} (ht : env.grammar.Typed ofRule)
    (known : env.grammar.ruleId? "referenceBody" = some reference)
    (prepared : Prepared env.grammar ofRule effects p v c) (action : p.action = some a)
    (names : ∀ e ∈ c.extensions, e.2.NamesCapital)
    (declared : ∀ kind name, a = .extend (.declare kind) → v.string 1 = .ok name → IsCapital name)
    (run : a.perform matchRule v env c = (.ok o, d)) : ∀ e ∈ d.extensions, e.2.NamesCapital := by
  by_cases declares : ∃ kind, a = .extend (.declare kind)
  · obtain ⟨kind, rfl⟩ := declares
    have left : Leaves (fun _ d => ∀ e ∈ d.extensions, e.2.NamesCapital) (fun _ => True)
        ((Action.extend (.declare kind)).perform matchRule v) env c := by
      refine prepared.leaves_declare ht known action (fun _ => trivial) ?_ matchRule
      intro target q set e journal isDeclared _ _ _ _ x mem
      rcases List.mem_append.mp mem with old | new
      · exact names x old
      · rw [List.mem_singleton.mp new]
        intro id kind specific stores
        cases stores
        exact declared _ _ rfl isDeclared.id
    rw [Leaves, run] at left
    exact left
  · rw [prepared.extensions_of_run action (fun kind same => declares ⟨kind, same⟩) run]
    exact names

/-- Whether the value of a symbol starts with a capital letter if it is a name and the symbol guards it for
this. -/
def Value.ServesCapital (t : GrammarTable) (s : Symbol) (v : Option Value) : Prop :=
  ∀ id, s = .rule id → t.Guards id .capital → ∀ name, v = some (.str name) → IsCapital name

/-- The name of an attribute that is declared comes from a rule that guards it. -/
theorem Prepared.isCapital (trusting : env.grammar.Trusting)
    (prepared : Prepared env.grammar ofRule effects p v c) {kind : Plan.AttributeKind}
    (action : p.action = some (.extend (.declare kind)))
    (serves : List.Forall₂ (fun s item => Value.ServesCapital env.grammar s item.value?) p.symbols v.items)
    {name : String} (isName : v.string 1 = .ok name) : IsCapital name := by
  obtain ⟨id, offered⟩ := prepared.offered
  obtain ⟨other, symbol, guards⟩ := trusting.trusts_of_offers (i := 1) (g := .capital) offered action rfl
  obtain ⟨y, found, is⟩ := Values.exists_of_typed isName
  cases y <;> cases is
  rcases Values.cases_value serves 1 with ⟨s, same, holds⟩ | ⟨missing, -⟩
  · cases symbol.symm.trans same
    exact holds other rfl guards name found
  · cases symbol.symm.trans missing

/-- Added attributes have names with capital letters, and something else holds. -/
def capitals (env : Surroundings) (ask : Context → Prop) : Assertions where
  ask c := ask c ∧ ∀ e ∈ c.extensions, e.2.NamesCapital
  follows _ _ := True
  fits p := p.NamesCapital
  serves _ s v := Value.ServesCapital env.grammar s v

/-- That added attributes have such names is an invariant together with what every action keeps. -/
theorem valueInvariant_capitals (trusting : env.grammar.Trusting) {reference : RuleId}
    (ht : env.grammar.Typed ofRule) (known : env.grammar.ruleId? "referenceBody" = some reference)
    {ask : Context → Prop}
    (noise : ∀ c tokens journal depth stop, ask c → ask { c with tokens, journal, depth, stop })
    (acts : ∀ matchRule p v a x c d, Prepared env.grammar ofRule effects p v c → p.action = some a → ask c →
      a.perform matchRule v env c = (.ok x, d) → ask d) :
    ValueInvariant ofRule effects env (capitals env ask) where
  refl _ := trivial
  trans _ _ := trivial
  mono _ serves := serves
  noise h journal depth stop := ⟨⟨noise _ _ journal depth stop h.1, h.2⟩, trivial⟩
  next h _ := ⟨⟨noise _ _ _ _ _ h.1, h.2⟩, trivial⟩
  chosen {c id p} h among := by
    -- among the alternatives of a rule are those of the grammar, and those that the invariant is about
    rcases List.mem_append.mp among with declared | added
    · exact trusting.stores id p declared
    · obtain ⟨e, mine, rfl⟩ := List.mem_map.mp added
      exact h.2 e (List.mem_filter.mp mine).1
  terminal _ hs _ := by
    rintro id rfl
    cases hs
  absent _ _ _ := by
    intro _ _ _ _ none
    cases none
  collected _ _ := by
    intro _ _ _ name same
    unfold collected at same
    split at same <;> cases same
  performed {matchRule p v x c d} prepared _ h serves acted := by
    obtain ⟨held, names⟩ := h
    rcases cases_of_run_performed acted with ⟨-, ⟨⟩, rfl⟩ | ⟨a, journal, action, acted⟩
    · exact ⟨⟨⟨held, names⟩, trivial⟩, fun _ _ _ _ _ _ none => by cases none⟩
    · have there := prepared.of_journal journal
      have still := acts matchRule p v a x _ d there action (noise c c.tokens journal c.depth c.stop held) acted
      refine ⟨⟨⟨still, there.namesCapital ht known action names ?_ acted⟩, trivial⟩, ?_⟩
      -- the guard that the rule of a name has passed is what a declaration relies on
      · rintro kind name rfl isName
        exact prepared.isCapital trusting action serves isName
      · intro id offered other rule guards name same
        cases rule
        obtain ⟨b, hb, guard⟩ := guards p offered
        cases action.symm.trans hb
        exact Action.passes_of_run guard acted _ same

end

/-! ## Rules -/

namespace HoursTable

/-- How the header of a task or a resource is read. -/
def readsHead (kind : PropertyKind) (text : List Token) (note : Note BodyHead HoursStatement) : Prop :=
  ∃ id name, text = LiveGrammar.headerText kind id name ∧ note = .opens ⟨kind, id, name⟩

/-- How a statement about working hours is read. -/
def readsHours (text : List Token) (note : Note BodyHead HoursStatement) : Prop :=
  ∃ s : HoursStatement, s.Written text ∧ note = .tells s

/-- What a rule is for the header of, if it is one of a task or a resource. -/
def head? (t : GrammarTable) (id : RuleId) : Option PropertyKind :=
  if (t.rule id).name = "taskHeader" then some .task
  else if (t.rule id).name = "resourceHeader" then some .resource
  else none

/-- Whether a rule is for headers. -/
def starts (t : GrammarTable) (id : RuleId) : Bool := (head? t id).isSome

/-- Whether a rule is for statements about working hours. -/
def tells (t : GrammarTable) (id : RuleId) : Bool := (t.rule id).name == "workinghours"

/-- What the rules of a grammar are for, as far as working hours are concerned. -/
def concern (t : GrammarTable) : Concern (Note BodyHead HoursStatement) where
  words id := match head? t id with
    | some kind => some (readsHead kind)
    | none => if tells t id then some readsHours else none
  coda
    | .property .close => some .closes
    | _ => none
  allows a := a = .property .close || a.sparesHoursTable

/-- Bodies and working hours, with what is seen of them and what becomes of this. -/
def matter (t : GrammarTable) : Matter (Note BodyHead HoursStatement) HoursTable where
  toConcern := concern t
  view := Context.hoursTable
  step := step

/-- Whether headers are read in one way, and statements about working hours as they are written. -/
def checkForms (t : GrammarTable) : Bool :=
  (List.range t.rules.size).all fun i =>
    (head? t ⟨i⟩).all (fun kind => t.isOnly (headerPattern kind) ⟨i⟩) && (!tells t ⟨i⟩ || t.isHours ⟨i⟩)

section
variable {t : GrammarTable} {id : RuleId} {reads : List Token → Note BodyHead HoursStatement → Prop}

/-- A rule for headers is one of the grammar. -/
theorem known_of_starts (isHeader : starts t id = true) : t.rule id ≠ default := by
  intro absent
  rw [starts, head?, absent] at isHeader
  cases isHeader

/-- The body of a reference is no header. -/
theorem not_starts_of_reference {reference : RuleId} (body : t.ruleId? "referenceBody" = some reference) :
    starts t reference = false := by
  rw [starts, head?, GrammarTable.name_of_ruleId? body]
  decide

/-- A rule that is a note is for headers or for statements about working hours. -/
theorem cases_of_words (reading : (concern t).words id = some reads) :
    (∃ kind, head? t id = some kind ∧ readsHead kind = reads) ∨
      head? t id = none ∧ tells t id = true ∧ readsHours = reads := by
  simp only [concern] at reading
  split at reading
  · next kind heads => exact .inl ⟨kind, heads, Option.some.inj reading⟩
  · next other =>
    split at reading
    · next isHours => exact .inr ⟨other, isHours, Option.some.inj reading⟩
    · cases reading

theorem known_of_words (isWord : ((concern t).words id).isSome = true) : t.rule id ≠ default := by
  intro absent
  obtain ⟨reads, reading⟩ := Option.isSome_iff_exists.mp isWord
  rcases cases_of_words reading with ⟨kind, heads, -⟩ | ⟨-, isHours, -⟩
  · rw [head?, absent] at heads
    cases heads
  · rw [tells, absent] at isHours
    cases isHours

/-- Where the check passes, rules are read as they should. -/
theorem forms_of_check (checked : checkForms t = true) (isWord : ((concern t).words id).isSome = true) :
    (∀ kind, head? t id = some kind → t.isOnly (headerPattern kind) id = true) ∧
      (tells t id = true → t.isHours id = true) := by
  have passed := @GrammarTable.rule_eq_default_or_of_all t
    (fun id => (head? t id).all (fun kind => t.isOnly (headerPattern kind) id) && (!tells t id || t.isHours id))
    (fun i known => List.all_eq_true.mp checked i (List.mem_range.mpr known)) id
  have found := passed.resolve_left (known_of_words isWord)
  simp only [Bool.and_eq_true, Option.all_eq_true, Bool.or_eq_true, Bool.not_eq_true'] at found
  refine ⟨found.1, fun isHours => found.2.resolve_left fun other => ?_⟩
  rw [isHours] at other
  cases other

end

/-- The table comes from the notes on bodies and hours. -/
theorem tracks {ofRule : RuleId → Shape} {effects : Effects} {env : Surroundings}
    (forms : checkForms env.grammar = true) :
    (matter env.grammar).Tracks ofRule effects env (capitals env fun c => c.entryLists.Linked) where
  noise _ _ _ _ _ := rfl
  word {id reads c v d} reading asked course := by
    obtain ⟨linked, -⟩ := asked
    have isWord := Option.isSome_iff_exists.mpr ⟨reads, reading⟩
    obtain ⟨heads, isHours⟩ := forms_of_check forms isWord
    rcases cases_of_words reading with ⟨kind, head, rfl⟩ | ⟨-, tells, rfl⟩
    · -- a header enters a task or a resource, with the id and the name of the text
      obtain ⟨own, name, tokens, journal, matchRule, x, through, word, v, isId, isName, prepared, acted, rfl⟩ :=
        Course.of_isOnly_heading (by cases kind <;> decide) (heads kind head) course
      have placed : ({ c with tokens, journal, depth := c.depth + 1 } : Context).entryLists.Placed :=
        linked.placed
      obtain ⟨_, _, first, second, extensions, ahead, follows⟩ := PropertyAction.hoursTable_header placed
        (prepared.allows _ rfl).place_of_header prepared.grounded.conforming.project acted
      cases isId.symm.trans first
      cases isName.symm.trans second
      exact ⟨_, _, ⟨own, name, rfl, rfl⟩, ahead ▸ through, fun added _ => word added, extensions, follows⟩
    · -- a statement about hours does what is written, once all of it has been read
      obtain ⟨s, text, x, y, written, through, word, allows, run, rfl⟩ := Course.of_isHours (isHours tells) course
      obtain ⟨reads, tokens, journal, depth, stop, rfl⟩ := through
      have sets := (setsHours_of_setWorkingHours s.daySet s.ranges).of_ok run
      have same : y.tokens = tokens ∧ y.extensions = c.extensions := by cases sets <;> exact ⟨rfl, rfl⟩
      exact ⟨text, _, ⟨s, written, rfl⟩, same.1 ▸ reads, fun added _ => word added, same.2,
        sets.hoursTable allows⟩
  acted {matchRule p a v o c d} prepared action names asked allowed run := by
    by_cases closes : a = .property .close
    · subst closes
      show [Note.closes].foldlM step c.hoursTable = some d.hoursTable
      rw [List.foldlM_cons, PropertyAction.hoursTable_close (v := v) run]
      rfl
    · have spares : a.sparesHoursTable = true := by simpa [matter, concern, closes] using allowed
      have silent : (concern env.grammar).coda a = none := by
        cases a with
        | property a => cases a <;> first | rfl | exact absurd rfl closes
        | _ => rfl
      show ((concern env.grammar).coda a).toList.foldlM step c.hoursTable = some d.hoursTable
      rw [silent, prepared.hoursTable action names asked.1.placed spares run]
      rfl
  unfiled _ := rfl

end HoursTable

end Planfile

/-! ## The language -/

namespace Planfile.Language

open Matcher
open Calendar (WorkingHours HoursStatement)
open HoursTable (concern starts tells head? checkForms)
open TokenSource (Pastes)

/-- In the language bodies of tasks and resources start and end in pairs, and statements about working hours
are read as they are written. -/
theorem check_hours :
    satisfies (fun t => t.checkAttends (concern t) &&
      t.checkPairs (starts t) (concern t) && checkForms t &&
      (t.ruleId? "project").all (t.isPlain (concern t))) = true := by
  decide +kernel

section
variable {t : GrammarTable} (h : grammar = .ok t)

include h

/-- What the check finds. -/
theorem hours_checked : (t.checkAttends (concern t) = true ∧ t.checkPairs (starts t) (concern t) = true) ∧
    checkForms t = true ∧ ∀ id, t.ruleId? "project" = some id → t.isPlain (concern t) id = true := by
  have found := of_satisfies check_hours h
  simp only [Bool.and_eq_true, Option.all_eq_true] at found
  obtain ⟨⟨rules, forms⟩, project⟩ := found
  exact ⟨rules, forms, project⟩

/-- Headers and statements about hours are words of rules of their own, and no other rule does what is seen in
the table, but for the ends of bodies. -/
theorem attends_hours : t.Attends (concern t) :=
  GrammarTable.attends_of_check (fun _ _ _ => rfl) (hours_checked h).1.1

/-- With whatever a plan adds to the language, bodies of tasks and resources start and end in pairs. -/
theorem nests_hours {added : List (RuleId × Pattern)}
    (offers : ∀ id, ∀ q ∈ LiveGrammar.patterns ⟨t, added⟩ id, t.Offers id q) :
    LiveGrammar.Nests (starts t) ⟨t, added⟩ (concern t) := by
  obtain ⟨reference, body⟩ := (exists_charted h).1.typed.extensible.reference
  refine LiveGrammar.nests_of_check (hours_checked h).1.2 (fun id isHeader reads reading => ?_)
    (fun id other reads reading => ?_) (fun id isHeader => ?_) body ?_ (fun _ _ _ => rfl) offers
  · rcases HoursTable.cases_of_words reading with ⟨kind, -, rfl⟩ | ⟨none, -⟩
    · rintro text note ⟨own, name, -, rfl⟩
      exact ⟨⟨kind, own, name⟩, rfl⟩
    · rw [starts, none] at isHeader
      cases isHeader
  · rcases HoursTable.cases_of_words reading with ⟨kind, head, -⟩ | ⟨-, -, rfl⟩
    · rw [starts, head] at other
      cases other
    · rintro text note ⟨s, -, rfl⟩
      exact ⟨s, rfl⟩
  · exact HoursTable.known_of_starts isHeader
  · exact HoursTable.not_starts_of_reference body

end

/-- Where a plan has made a project, the text, in which all include statements have given way to the tokens of
their files, is a word of the language, and the working hours of the project are what the statements in it say.
Those outside of all bodies settle the hours of the project, which starts with those of an office. Those in the
body of a resource settle its own; they start with the hours that the resource around has at that moment, and if
it has none with those of the project, and what they say does not reach the project or another resource.

Whatever a scope has started with, statements that are made in it one behind the other do not fail. In the end
each day has the times of the last statement about it, in their order, and if there is none those of the start.
Outside of all bodies nothing but the hours of the project has changed, and in the body of a resource nothing
but its own. -/
theorem hours_of_plan {env : Surroundings} (h : grammar = .ok env.grammar) (main : TokenStream)
    (file : String) (path : Option String) (journal : Log.Journal) :
    (∀ p c, plan env (.ofStream main file path journal) = (.ok p, c) →
      ∃ id files text, ∃ n : Nest BodyHead HoursStatement, env.grammar.ruleId? "project" = some id ∧
        Pastes env.preferences env.files (.ofStream main file path) text c.tokens ∧
        Pasted env.preferences env.files main.rest files text ∧
        LiveGrammar.Recounts ⟨env.grammar, c.extensions⟩ (concern env.grammar) [.rule id] text n.notes ∧
        p.settings.workingHours = WorkingHours.office.settled n.direct ∧
        p.resources.properties.toList.map (·.resourceHours) = n.outerResources .office [] 0) ∧
    (∀ (x : Context) p ss, x.project = some p → x.property = none →
      settleHours ss env x = (.ok (), { x with
        project := some (p.withHours (p.settings.workingHours.settled ss)) })) ∧
    (∀ (x : Context) p i q s ss, x.project = some p → x.property = some (.resource, i) →
      p.resources.get? i = some q →
      settleHours (s :: ss) env x = (.ok (), { x with
        project := some (p.withResourceHours i
          ((q.hours?.getD p.settings.workingHours).settled (s :: ss))) })) ∧
    ∀ (w : WorkingHours) ss (day : Fin 7), (w.settled ss).on day =
      ((ss.filter (·.covers day)).getLast?.map (·.ranges)).getD (w.on day) := by
  obtain ⟨-, forms, plain⟩ := hours_checked h
  obtain ⟨charted, -⟩ := exists_charted h
  obtain ⟨reference, body⟩ := charted.typed.extensible.reference
  have invariant : ValueInvariant (shapeIn env.grammar) (effectsIn env.grammar) env
      (capitals env fun c => c.entryLists.Linked) :=
    valueInvariant_capitals (trusting h) charted.typed body (fun _ _ _ _ _ linked => linked)
      fun matchRule p v a x c d prepared action linked run => prepared.linked charted.typed body action linked run
  refine ⟨fun p c run => ?_, fun x p ss there outside => run_settleHours_outside there outside ss,
    fun x p i q s ss there current found => run_settleHours_inside there current found s ss,
    fun w ss day => w.on_settled ss day⟩
  obtain ⟨id, files, text, n, d, known, pastes, pasted, recounts, follows, there⟩ :=
    retold_of_plan h (attends_hours h) (HoursTable.tracks forms) invariant (fun _ => nests_hours h) plain
      ⟨Context.linked_initial _ _, fun _ none => absurd none List.not_mem_nil⟩ run
  have follows : n.notes.foldlM HoursTable.step HoursTable.initial = some d.hoursTable := follows
  obtain ⟨project, resources⟩ := HoursTable.of_run follows
  rw [Context.hoursTable_of_project there] at project resources
  exact ⟨id, files, text, n, known, pastes, pasted, recounts, project, resources⟩

/-- A plan where something is said about hours in front of a resource, in its body, and behind it. In the body
there are two other resources, and only the first of them says something about its own hours. -/
def hoursPlan : TokenStream :=
  plainStream <| yearHeader ++
    [.id "workinghours", .id "sat", .mark .minus, .id "sun", .time 36000, .mark .minus, .time 50400,
      .id "resource", .id "a", .string "A", .mark .leftBrace,
        .id "workinghours", .id "fri", .mark .minus, .id "mon", .id "off",
        .id "resource", .id "b", .string "B", .mark .leftBrace,
          .id "workinghours", .id "mon", .mark .comma, .id "wed", .time 28800, .mark .minus, .time 43200,
            .mark .comma, .time 46800, .mark .minus, .time 63000, .mark .rightBrace,
        .id "resource", .id "c", .string "C",
        .id "workinghours", .id "fri", .time 32400, .mark .minus, .time 46800, .mark .rightBrace,
      .id "workinghours", .id "sat", .id "off",
      .id "resource", .id "d", .string "D", .eof]

/-- The ranges of a day in an office. -/
def officeDay : List Calendar.TimeRange := [⟨32400, 43200⟩, ⟨46800, 64800⟩]

/-- The hours of the project in the end. -/
def projectHours : WorkingHours :=
  ⟨#v[[⟨36000, 50400⟩], officeDay, officeDay, officeDay, officeDay, officeDay, []]⟩

/-- The resources of the plan. -/
def hoursResources : List ResourceHours :=
  [⟨"a", none, some ⟨#v[[], [], officeDay, officeDay, officeDay, [⟨32400, 46800⟩], []]⟩⟩,
    ⟨"b", some 0, some ⟨#v[[], [⟨28800, 43200⟩, ⟨46800, 63000⟩], officeDay, [⟨28800, 43200⟩, ⟨46800, 63000⟩],
      officeDay, [], []]⟩⟩,
    ⟨"c", some 0, some ⟨#v[[], [], officeDay, officeDay, officeDay, [], []]⟩⟩, ⟨"d", none, none⟩]

/-- The plan makes a project with these hours. -/
theorem run_hoursPlan :
    satisfies (fun t =>
      (plan ⟨t, .empty, .default⟩ (.initial (.ofStream hoursPlan "main.tjp" none) .silent)).1.toOption.any
        fun p => p.settings.workingHours == projectHours &&
          p.resources.properties.toList.map (·.resourceHours) == hoursResources) = true := by
  decide +kernel

/-- A project with one resource that has no hours of its own. -/
def singleResource : Plan.Project :=
  { Plan.Project.initial "p" "P" "1" ⟨⟨2024, 1, 1, 0, 0, 0⟩, ⟨2025, 1, 1, 0, 0, 0⟩⟩ with
    resources := { Plan.PropertySet.empty .resource with
      properties := #[⟨"r", "R", none, [], [], []⟩]
      index := [("r", 0)] } }

/-- The state where this project has been read, in the body of the resource or behind it. -/
def singleResourceState (property : Option (Plan.PropertyKind × Nat)) : Context :=
  { Context.ofStream hoursPlan "main.tjp" none .silent with project := some singleResource, property }

/-- The days from Friday to Monday are off, and then there is some work on Sunday. -/
def weekendStatements : List HoursStatement := [⟨[⟨5, some 1⟩], []⟩, ⟨[⟨0, none⟩], [⟨36000, 50400⟩]⟩]

/-- The hours of the plan are those of its statements, and where a project has one resource, statements settle
either its hours or those of the resource. -/
theorem hours_of_plan_hoursPlan :
    ∃ table, grammar = .ok table ∧
      (∃ p c id files text, ∃ n : Nest BodyHead HoursStatement,
        plan ⟨table, .empty, .default⟩ (.ofStream hoursPlan "main.tjp" none .silent) = (.ok p, c) ∧
        Pasted .default .empty hoursPlan.rest files text ∧
        LiveGrammar.Recounts ⟨table, c.extensions⟩ (concern table) [.rule id] text n.notes ∧
        WorkingHours.office.settled n.direct = projectHours ∧
        n.outerResources .office [] 0 = hoursResources) ∧
      settleHours weekendStatements ⟨table, .empty, .default⟩ (singleResourceState none) =
        (.ok (), { singleResourceState none with
          project := some (singleResource.withHours (WorkingHours.office.settled weekendStatements)) }) ∧
      settleHours weekendStatements ⟨table, .empty, .default⟩ (singleResourceState (some (.resource, 0))) =
        (.ok (), { singleResourceState (some (.resource, 0)) with
          project := some (singleResource.withResourceHours 0 (WorkingHours.office.settled weekendStatements)) }) ∧
      WorkingHours.office.settled weekendStatements =
        ⟨#v[[⟨36000, 50400⟩], [], officeDay, officeDay, officeDay, [], []]⟩ := by
  obtain ⟨table, p, c, made, run, listed⟩ := exists_run_of_check run_hoursPlan
  obtain ⟨told, outside, inside, days⟩ :=
    @hours_of_plan ⟨table, .empty, .default⟩ made hoursPlan "main.tjp" none .silent
  obtain ⟨id, files, text, n, known, -, pasted, recounts, project, resources⟩ := told p c run
  obtain ⟨settled, outerResources⟩ := Bool.and_eq_true_iff.mp listed
  have project := project.symm.trans (beq_iff_eq.mp settled)
  have resources := resources.symm.trans (beq_iff_eq.mp outerResources)
  have outside := outside (singleResourceState none) singleResource weekendStatements rfl rfl
  have inside := inside (singleResourceState (some (.resource, 0))) singleResource 0 ⟨"r", "R", none, [], [], []⟩
    ⟨[⟨5, some 1⟩], []⟩ [⟨[⟨0, none⟩], [⟨36000, 50400⟩]⟩] rfl rfl rfl
  refine ⟨table, made, ⟨p, c, id, files, text, n, run, pasted, recounts, project, resources⟩, outside, inside,
    WorkingHours.ext_on fun day => ?_⟩
  rw [days]
  revert day
  decide

end Planfile.Language
