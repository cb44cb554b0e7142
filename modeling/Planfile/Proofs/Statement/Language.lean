import Planfile.Proofs.Course.Language
import Planfile.Proofs.Pasting.Plan
import Planfile.Proofs.Statement.Clause

/-!
# Planfile — every statement makes its entry

In the language, tasks and resources nest in bodies of their own kind, files can be included among other
statements, and reports stand beside tasks and resources. So whatever plan makes a project, its tasks,
its resources and its reports are those of the statements in the text, in their order: none is missing,
none is there twice, and each is below the one whose body is around its statement.

Main results:

* `Course.told` — what is recorded while a part is matched is what the part says.
* `Language.recorded_of_plan` — the project has the entries of the statements in the text.
-/

/-!
## The entries of a plan that has been matched

Whatever part of a plan has been matched, the statements in the text that it has gone through have been
recorded, each below the one whose body is around it. A part that has no header goes back to the entry
that was around before, so this holds of parts that stand one behind the other as well.
-/

namespace Planfile

open Matcher
open Plan (PropertyKind)

/-- What has been added to a grammar stays in force. -/
theorem LiveGrammar.patterns_subset_of_prefix (t : GrammarTable) {few many : List (RuleId × Pattern)}
    (h : few <+: many) (id : RuleId) : patterns ⟨t, few⟩ id ⊆ patterns ⟨t, many⟩ id := by
  obtain ⟨more, rfl⟩ := h
  intro p hp
  simp only [patterns, addedTo, List.filter_append, List.map_append, List.mem_append] at hp ⊢
  exact hp.imp_right .inl

section
variable {clauses : RuleId → Clause} {env : Surroundings} {c d x : Context}

/-! ## Parts -/

/-- What a rule has done that is for something, where one that is for nothing else has told some
symbols. -/
def Clause.Done (clauses : RuleId → Clause) (env : Surroundings) (id : RuleId) (symbols : List Symbol)
    (c d : Context) : Clause → Prop
  | .plain => ∃ text contents, Told clauses env symbols c text contents d
  | .header kind => ∃ own name, Headed env id kind c own name d
  | _ => ∃ text contents, Told clauses env [.rule id] c text contents d

/-- What a part has done. -/
def Part.Done (clauses : RuleId → Clause) (env : Surroundings) : Part → Context → Context → Prop
  | .rule id, c, d => (clauses id).Done clauses env id [.rule id] c d
  | .repetition id mayStop, c, d => clauses id = .plain → (env.grammar.rule id).repeatable = true →
    (∃ text contents, Told clauses env [.rule id] c text contents d) ∨
      mayStop = true ∧ ∃ text contents, Told clauses env [] c text contents d
  | .pattern p, c, d => ∀ id, env.grammar.Offers id p → (clauses id).Done clauses env id p.symbols c d
  | .symbols ss, c, d =>
    (headless clauses ss = true → ∃ text contents, Told clauses env ss c text contents d) ∧
      ∀ header body kind, ss = .rule header :: body → clauses header = .header kind →
        headless clauses body = true → ∃ own name x, Headed env header kind c own name x ∧
          ∃ text contents, Told clauses env body x text contents d

namespace Told

variable {symbols others : List Symbol} {text text' : List Token} {contents contents' : Contents}

theorem nil (placed : c.entryLists.Placed) : Told clauses env [] c [] .none c :=
  ⟨.done _, fun _ _ => .nil, .refl placed, List.prefix_rfl⟩

/-- What has been matched one behind the other is a word, where what has been matched first and what
has been matched behind it make one. -/
theorem join {all : List Symbol} (placed : c.entryLists.Placed)
    (h : Told clauses env symbols c text contents x)
    (hs : Told clauses env others x text' contents' d)
    (tells : ∀ added, x.extensions <+: added →
      LiveGrammar.Tells ⟨env.grammar, added⟩ clauses symbols text contents →
      LiveGrammar.Tells ⟨env.grammar, added⟩ clauses others text' contents' →
      LiveGrammar.Tells ⟨env.grammar, added⟩ clauses all (text ++ text') (contents ++ contents')) :
    Told clauses env all c (text ++ text') (contents ++ contents') d where
  pastes := h.pastes.append hs.pastes
  tells added later :=
    tells added (hs.grows.trans later) (h.tells added (hs.grows.trans later)) (hs.tells added later)
  records := h.records.append placed hs.records
  grows := h.grows.trans hs.grows

/-- Parts one behind the other have told what each of them has. -/
theorem append (placed : c.entryLists.Placed) (h : Told clauses env symbols c text contents x)
    (hs : Told clauses env others x text' contents' d) :
    Told clauses env (symbols ++ others) c (text ++ text') (contents ++ contents') d :=
  h.join placed hs fun _ _ first second => first.append second

/-- A statement tells what is between its header and its end. -/
theorem statement {id header : RuleId} {body : List Symbol} {kind : PropertyKind} {own name : String}
    (placed : c.entryLists.Placed) (adds : clauses id = .statement kind)
    (mem : ∀ added, statementPattern header body ∈ LiveGrammar.patterns ⟨env.grammar, added⟩ id)
    (heads : clauses header = .header kind) (headed : Headed env header kind c own name x)
    (inside : Told clauses env body x text contents d) {e : Context} (tokens : e.tokens = d.tokens)
    (extensions : e.extensions = d.extensions) (left : e.entryLists = d.entryLists.leave) :
    Told clauses env [.rule id] c (LiveGrammar.headerText kind own name ++ text)
      (contents.enclose kind own name) e where
  pastes := by
    rw [tokens]
    exact headed.pastes.append inside.pastes
  tells added later := by
    rw [extensions] at later
    rw [← List.append_nil (_ ++ text), ← Contents.append_none (.enclose ..)]
    exact .statement adds (mem added) rfl heads (headed.heading added) (inside.tells added later) .nil
  records := by
    rw [left]
    exact .enclose placed headed.place (headed.entered ▸ inside.records)
  grows := by
    rw [extensions, ← headed.extensions]
    exact inside.grows

/-- An action that makes no entry tells nothing. -/
theorem acted {ofRule : RuleId → Shape} {effects : Effects} {reference : RuleId}
    (ht : env.grammar.Typed ofRule) (known : env.grammar.ruleId? "referenceBody" = some reference)
    (placed : c.entryLists.Placed) (h : Told clauses env symbols c text contents x) {p : Pattern} {v : Values}
    (prepared : Prepared env.grammar ofRule effects p v x)
    (plain : ∀ a, p.action = some a → a.isPlain = true) {matchRule : RuleId → Matcher (Option Value)}
    {o : Option Value} (run : performed matchRule p v.location v.items env x = (.ok o, d)) :
    Told clauses env symbols c text contents d := by
  rcases cases_of_run_performed run with ⟨-, ⟨⟩, rfl⟩ | ⟨a, journal, action, run⟩
  · exact h
  · obtain ⟨tokens, records⟩ := (prepared.of_journal journal).records ht known action (plain a action)
      h.records.placed run
    have grows := ((prepared.of_journal journal).grows ht known action matchRule).extensions
    rw [run] at grows
    refine ⟨tokens ▸ h.pastes, fun added later => h.tells added (grows.trans later), ?_,
      h.grows.trans grows⟩
    have behind := h.records.append placed records
    rwa [Contents.append_none] at behind

end Told

/-! ## Matched parts -/

section
variable {ofRule : RuleId → Shape} {effects : Effects} {reference : RuleId}
  (ht : env.grammar.Typed ofRule) (formed : env.grammar.Formed clauses)
  (known : env.grammar.ruleId? "referenceBody" = some reference)

/-- A rule that is no header of a task or a resource has told something. -/
theorem Clause.Done.told {id : RuleId} (h : (clauses id).Done clauses env id [.rule id] c d)
    (headless : (Symbol.rule id).head? clauses = none) :
    ∃ text contents, Told clauses env [.rule id] c text contents d := by
  cases clause : clauses id with
  | header kind =>
    simp only [Symbol.head?, clause] at headless
    cases headless
  | _ =>
    rw [clause] at h
    exact h

/-- Of the rules only one that is for nothing else can be absent or repeated. -/
theorem GrammarTable.Formed.plain_of {id : RuleId} (formed : env.grammar.Formed clauses)
    (h : (env.grammar.rule id).optional = true ∨ (env.grammar.rule id).repeatable = true) :
    clauses id = .plain := by
  by_contra other
  have single := formed.single id other
  rw [optional_of_isSingle single, repeatable_of_isSingle single] at h
  simp at h

namespace Part.Done

variable {id : RuleId} {mayStop : Bool} {p : Pattern}

section
include formed

/-- A rule that is repeated has told what its repetition has. -/
theorem repeated (repeatable : (env.grammar.rule id).repeatable = true)
    (h : (Part.repetition id (env.grammar.rule id).optional).Done clauses env
      { c with depth := c.depth + 1 } d) :
    (Part.rule id).Done clauses env c { d with depth := d.depth - 1 } := by
  have plain := formed.plain_of (.inr repeatable)
  rw [Part.Done, plain]
  rcases h plain repeatable with ⟨text, contents, told⟩ | ⟨optional, text, contents, told⟩
  · exact ⟨text, contents, told.pastes, told.tells, told.records, told.grows⟩
  · exact ⟨text, contents, told.pastes, fun added later => .absent optional (told.tells added later),
      told.records, told.grows⟩

/-- A rule that is absent has told nothing. -/
theorem absent (placed : c.entryLists.Placed) (optional : (env.grammar.rule id).optional = true)
    (choice : choose id env { c with depth := c.depth + 1 } = (.ok none, d)) :
    (Part.rule id).Done clauses env c { d with depth := d.depth - 1 } := by
  obtain ⟨⟨journal, rfl⟩, -⟩ := exists_of_run_choose choice
  rw [Part.Done, formed.plain_of (.inl optional)]
  exact ⟨[], .none, .done _, fun _ _ => .absent optional .nil, .refl placed, List.prefix_rfl⟩

end

/-- A rule has done what the alternative has that has been chosen. -/
theorem once (placed : c.entryLists.Placed)
    (choice : choose id env { c with depth := c.depth + 1 } = (.ok (some p), x))
    (offered : env.grammar.Offers id p)
    (h : x.entryLists.Placed → (Part.pattern p).Done clauses env x d) :
    (Part.rule id).Done clauses env c { d with depth := d.depth - 1 } := by
  obtain ⟨⟨journal, rfl⟩, mem⟩ := exists_of_run_choose choice
  have chosen := h placed id offered
  rw [Part.Done]
  cases clause : clauses id with
  | plain =>
    rw [clause] at chosen
    obtain ⟨text, contents, told⟩ := chosen
    refine ⟨text, contents, told.pastes, fun added later => ?_, told.records, told.grows⟩
    exact (told.tells added later).alternative clause
      (LiveGrammar.patterns_subset_of_prefix _ (told.grows.trans later) id (mem p rfl))
  | header kind =>
    rw [clause] at chosen
    obtain ⟨own, name, headed⟩ := chosen
    exact ⟨own, name, headed.pastes, headed.heading, headed.place, headed.entered, headed.extensions⟩
  | inclusion | report | statement kind =>
    rw [clause] at chosen
    obtain ⟨text, contents, told⟩ := chosen
    exact ⟨text, contents, told.pastes, told.tells, told.records, told.grows⟩

/-- A repetition that stops has told nothing. -/
theorem stop (placed : c.entryLists.Placed) (choice : choose id env c = (.ok none, d)) :
    (Part.repetition id true).Done clauses env c { d with stop := some ⟨d.tokens.consumed, id⟩ } := by
  obtain ⟨⟨journal, rfl⟩, -⟩ := exists_of_run_choose choice
  exact fun _ _ => .inr ⟨rfl, [], .none, .done _, fun _ _ => .nil, .refl placed, List.prefix_rfl⟩

/-- A repetition that goes on has told what the alternative has that has been chosen, and what has
come behind it. -/
theorem next {y : Context} (placed : c.entryLists.Placed) (choice : choose id env c = (.ok (some p), x))
    (offered : env.grammar.Offers id p)
    (first : x.entryLists.Placed → (Part.pattern p).Done clauses env x y)
    (rest : y.entryLists.Placed → (Part.repetition id true).Done clauses env y d) :
    (Part.repetition id mayStop).Done clauses env c d := by
  intro plain repeatable
  obtain ⟨⟨journal, rfl⟩, mem⟩ := exists_of_run_choose choice
  have chosen := first placed id offered
  rw [plain] at chosen
  obtain ⟨text, contents, chosen⟩ := chosen
  -- the choice has changed the journal alone
  have told : Told clauses env p.symbols c text contents y :=
    ⟨chosen.pastes, chosen.tells, chosen.records, chosen.grows⟩
  have inForce (added : List (RuleId × Pattern)) (later : y.extensions <+: added) :
      p ∈ LiveGrammar.patterns ⟨env.grammar, added⟩ id :=
    LiveGrammar.patterns_subset_of_prefix _ (told.grows.trans later) id (mem p rfl)
  -- behind it are further repetitions, or it was the last one
  rcases rest told.records.placed plain repeatable with
    ⟨text', contents', others⟩ | ⟨-, text', contents', others⟩
  · exact .inl ⟨_, _, told.join placed others fun added later pattern others =>
      .again plain repeatable (inForce added later) pattern others⟩
  · exact .inl ⟨_, _, told.join placed others fun added later pattern others =>
      .once plain (inForce added later) pattern others⟩

section
include ht formed known

/-- An alternative has done what its rule is for. -/
theorem pattern (placed : c.entryLists.Placed) {items : List MatchedValue} {v : Option Value}
    {matchRule : RuleId → Matcher (Option Value)}
    (course : Course ofRule effects env (.symbols p.symbols) c items x)
    (prepared : Prepared env.grammar ofRule effects p ⟨items, c.tokens.location⟩ x)
    (acted : performed matchRule p c.tokens.location items env x = (.ok v, d))
    (h : (Part.symbols p.symbols).Done clauses env c x) :
    (Part.pattern p).Done clauses env c d := by
  intro id offered
  have whole : Course ofRule effects env (.pattern p) c v d := .pattern course prepared acted
  have form := formed.offers known offered
  cases clause : clauses id with
  | plain =>
    rw [clause] at form
    obtain ⟨headless, plain⟩ := form
    obtain ⟨text, contents, told⟩ := h.1 headless
    exact ⟨text, contents, told.acted ht known placed prepared plain acted⟩
  | header kind => exact Headed.of_course formed known offered whole placed clause
  | inclusion => exact ⟨[], .none, Told.inclusion formed known offered whole placed clause⟩
  | report => exact Told.report formed known offered whole placed clause
  | statement kind =>
    have single := formed.single id (by rw [clause]; exact Clause.noConfusion)
    rw [clause] at form
    obtain ⟨header, body, rfl, heads, headless⟩ := form
    obtain ⟨own, name, y, headed, text, contents, told⟩ := h.2 header body kind rfl heads headless
    -- the action goes back from the body
    have closes : (statementPattern header body).action = some (.property .close) := rfl
    obtain ⟨journal, run⟩ := exists_run_performed matchRule closes c.tokens.location items env x
    rw [run] at acted
    obtain ⟨tokens, extensions, left⟩ :=
      PropertyAction.entryLists_close (v := ⟨items, c.tokens.location⟩) acted
    exact ⟨_, _, .statement placed clause (mem_patterns_of_isSingle single offered) heads headed told
      tokens extensions left⟩

end

/-- A token that has been read is no statement. -/
theorem terminal {s : Symbol} {a : Terminal} {symbols : List Symbol} (hs : s.terminal? = some a)
    (fits : a.accepts c.tokens.peek = true)
    (h : (Part.symbols symbols).Done clauses env (c.next env) d) :
    (Part.symbols (s :: symbols)).Done clauses env c d := by
  refine ⟨fun headless => ?_, fun header body kind same => ?_⟩
  · obtain ⟨-, rest⟩ := Bool.and_eq_true_iff.mp headless
    obtain ⟨text, contents, told⟩ := h.1 rest
    obtain ⟨token, same, read⟩ := advance_of_isEof (Terminal.isEof_of_accepts fits)
    exact ⟨c.tokens.peek :: text, contents, same ▸ .token read told.pastes,
      fun added later => .terminal hs fits (told.tells added later), told.records, told.grows⟩
  · cases same
    cases hs

/-- A rule that has been matched among other symbols is a header, or has told something as they have. -/
theorem rule {symbols : List Symbol} (placed : c.entryLists.Placed)
    (first : (Part.rule id).Done clauses env c x)
    (rest : x.entryLists.Placed → (Part.symbols symbols).Done clauses env x d) :
    (Part.symbols (.rule id :: symbols)).Done clauses env c d := by
  refine ⟨fun headless => ?_, fun header body kind same heads headless => ?_⟩
  · obtain ⟨other, others⟩ := Bool.and_eq_true_iff.mp headless
    obtain ⟨text, contents, told⟩ := Clause.Done.told first (beq_iff_eq.mp other)
    obtain ⟨text', contents', behind⟩ := (rest told.records.placed).1 others
    exact ⟨_, _, told.append placed behind⟩
  · cases same
    rw [Part.Done, heads] at first
    obtain ⟨own, name, headed⟩ := first
    exact ⟨own, name, x, headed, (rest (headed.entered ▸ placed.enter)).1 headless⟩

end Part.Done

include ht formed known

/-- What is recorded while a part is matched is what the part says. -/
theorem Course.told {part : Part} {o : part.Outcome}
    (course : Course ofRule effects env part c o d) (placed : c.entryLists.Placed) :
    part.Done clauses env c d := by
  induction course with
  | repeated repeatable _ ih => exact .repeated formed repeatable (ih placed)
  | absent optional choice => exact .absent formed placed optional choice
  | once choice offered _ ih => exact .once placed choice offered ih
  | stop choice => exact .stop placed choice
  | next choice offered _ _ ih ih' => exact .next placed choice offered ih ih'
  | pattern course prepared acted ih =>
    exact .pattern ht formed known placed course prepared acted (ih placed)
  | nil => exact ⟨fun _ => ⟨[], .none, .nil placed⟩, fun _ _ _ same => by cases same⟩
  | terminal hs fits _ ih => exact .terminal hs fits (ih placed)
  | reference _ _ ih ih' => exact .rule placed (ih placed) ih'

end

end

end Planfile

/-! ## The rules of the language -/

namespace Planfile.Language

open Matcher
open Plan (PropertyKind)
open TokenSource (Pastes)

/-- What the rules of the language are for that are not for settings, attributes or values alone. -/
def clauseRules : List (String × Clause) := [
  ("include", .inclusion), ("reportHeader", .report),
  ("task", .statement .task), ("taskHeader", .header .task),
  ("resource", .statement .resource), ("resourceHeader", .header .resource)]

/-- What each rule of the language is for. -/
def clausesIn (t : GrammarTable) (id : RuleId) : Clause :=
  (clauseRules.lookup (t.rule id).name).getD .plain

/-- The rules of the language are found to have the forms that they are for. -/
theorem check_clauses :
    satisfies (fun t => t.checkClauses (clausesIn t)) = true := by
  decide +kernel

/-- The rules of the language have the forms that they are for. -/
theorem formed {table : GrammarTable} (h : grammar = .ok table) : table.Formed (clausesIn table) := by
  have found := of_satisfies check_clauses h
  exact GrammarTable.formed_of_check found

/-- Where a plan has made a project, the text, in which all include statements have given way to the
tokens of their files, is a word of the language, and the entries of the project are those of the
statements in it. There is one task for each statement that adds a task, in their order, with the id and
the name that it gives, below the task of the statement whose body is around it; its id is the path of the
ids from there on. So it is with resources, but that their ids stand alone, and with reports. -/
theorem recorded_of_plan {env : Surroundings} (h : grammar = .ok env.grammar) {main : TokenStream}
    {file : String} {path : Option String} {journal : Log.Journal} {p : Plan.Project} {c : Context}
    (run : plan env (.ofStream main file path journal) = (.ok p, c)) :
    ∃ id files text contents, env.grammar.ruleId? "project" = some id ∧
      Pastes env.preferences env.files (.ofStream main file path) text c.tokens ∧
      Pasted env.preferences env.files main.rest files text ∧
      LiveGrammar.Tells ⟨env.grammar, c.extensions⟩ (clausesIn env.grammar) [.rule id] text contents ∧
      (∀ kind, (p.properties kind).properties.toList.map (·.heading) =
        (contents.forest kind).headings kind none 0) ∧
      p.reports.map (fun r => (r.kind, r.name)) = contents.reports := by
  obtain ⟨charted, -⟩ := exists_charted h
  obtain ⟨reference, known⟩ := charted.typed.extensible.reference
  obtain ⟨id, v, d, project, course, eof, there, left⟩ := course_of_plan h run
  have placed := Context.placed_initial (.ofStream main file path) journal
  have done := course.told charted.typed (formed h) known placed
  -- the rule for projects is for nothing else
  have plain : clausesIn env.grammar id = .plain := by
    rw [clausesIn, GrammarTable.name_of_ruleId? project]
    decide
  rw [Part.Done, plain] at done
  obtain ⟨text, contents, told⟩ := done
  have all : (TokenSource.ofStream main file path).rest = main.rest := by
    rw [TokenSource.rest, TokenSource.frames, TokenSource.ofStream, List.flatMap_singleton]
  obtain ⟨files, pasted, -⟩ := told.pastes.pasted (told.pastes.rest_eq_nil rfl eof)
  have entryLists := Context.entryLists_of_project there
  subst left
  refine ⟨id, files, text, contents, project, told.pastes, all ▸ pasted, told.tells _ List.prefix_rfl,
    fun kind => ?_, ?_⟩
  · have headings := told.records.headings kind
    rw [entryLists] at headings
    exact headings
  · have reports := told.records.reports
    rw [entryLists] at reports
    exact reports

/-- A plan with a task that has another one in its body and a third one behind it, which comes from an
included file, with resources of which one is in the body of the other, and with a report. -/
def nestingPlan : TokenStream :=
  plainStream <| yearHeader ++
    [.id "task", .id "a", .string "A", .mark .leftBrace, .id "task", .id "b", .string "B",
      .mark .rightBrace,
    .id "include", .string "work.tji",
    .id "resource", .id "r", .string "R", .mark .leftBrace, .id "resource", .id "s", .string "S",
      .mark .rightBrace,
    .id "export", .string "list", .eof]

/-- The plan makes a project with these tasks and resources and with the report. -/
theorem run_nestingPlan :
    satisfies (fun t =>
      (plan ⟨t, workFile, TokenSource.anyName⟩
          (.ofStream nestingPlan "main.tjp" none .silent)).1.toOption.any fun p =>
        p.tasks.properties.toList.map (·.heading) ==
            [⟨"a", "A", none⟩, ⟨"a.b", "B", some 0⟩, ⟨"work", "Work", none⟩] &&
          p.resources.properties.toList.map (·.heading) ==
            [⟨"r", "R", none⟩, ⟨"s", "S", some 0⟩] &&
          p.reports.map (fun r => (r.kind, r.name)) == [(.export, "list")]) = true := by
  decide +kernel

/-- The entries of its project are those of the statements in its text. -/
theorem recorded_of_plan_nestingPlan :
    ∃ table p c id files text contents, grammar = .ok table ∧
      plan ⟨table, workFile, TokenSource.anyName⟩ (.ofStream nestingPlan "main.tjp" none .silent) =
        (.ok p, c) ∧
      Pasted TokenSource.anyName workFile nestingPlan.rest files text ∧
      LiveGrammar.Tells ⟨table, c.extensions⟩ (clausesIn table) [.rule id] text contents ∧
      (contents.forest .task).headings .task none 0 =
        [⟨"a", "A", none⟩, ⟨"a.b", "B", some 0⟩, ⟨"work", "Work", none⟩] ∧
      (contents.forest .resource).headings .resource none 0 =
        [⟨"r", "R", none⟩, ⟨"s", "S", some 0⟩] ∧
      contents.reports = [(.export, "list")] := by
  obtain ⟨table, p, c, made, run, content⟩ := exists_run_of_check run_nestingPlan
  simp only [Bool.and_eq_true, beq_iff_eq] at content
  obtain ⟨⟨tasks, resources⟩, reports⟩ := content
  obtain ⟨id, files, text, contents, -, -, pasted, tells, properties, listed⟩ :=
    @recorded_of_plan ⟨table, workFile, TokenSource.anyName⟩ made _ _ _ _ p c run
  exact ⟨table, p, c, id, files, text, contents, made, run, pasted, tells,
    (properties .task).symm.trans tasks, (properties .resource).symm.trans resources,
    listed.symm.trans reports⟩

end Planfile.Language
