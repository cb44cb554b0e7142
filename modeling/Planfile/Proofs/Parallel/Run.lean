import Planfile.Proofs.Matching.Reading
import Planfile.Proofs.Parallel.View

/-!
# Planfile — two runs side by side

The same statements can be read twice: in one file or in several, with one layout or another. What is
ahead is then not the same, nor is the journal, and expressions stand at other places. A relation of runs
says what two runs have in common beside the grammar and what has been built: how their tokens are related,
and how much of an expression is looked at. Two computations are parallel if from states that are alike they
leave states that are alike, and either both give what is asked of them or both end for the same fault,
though perhaps at different places.

Actions neither look at the tokens ahead nor at the journal. So they are parallel for every such relation,
whatever it says about tokens, and that they leave the tokens alone is one case of it.

Main results:

* `RunRelation.Parallel.bind` — computations one after the other are parallel.
* `RunRelation.parallel_modifyProperty`, `RunRelation.parallel_modifyReport` — the parts of a project are
  changed in parallel.
-/

namespace Planfile

open Plan (Project Report ReportElement LogicalExpression View)

/-- What has been built and is being read, through a view: the state without the tokens ahead, the journal
and the mark for misspelt attributes. -/
def Context.built (view : View) (c : Context) : Context :=
  { c with
    tokens := .ofStream (.ofTokens [] none) "" none
    project := c.project.map (·.through view)
    stop := none
    journal := .silent }

/-- What two runs have in common, beside the grammar and what has been built. -/
structure RunRelation where
  /-- The surroundings that they may have. -/
  surroundings : Surroundings → Surroundings → Prop
  /-- They have the same grammar. -/
  grammar : ∀ {env env'}, surroundings env env' → env'.grammar = env.grammar
  /-- How their tokens and their marks for misspelt attributes are related. -/
  reading : TokenSource → Option StopMark → TokenSource → Option StopMark → Prop
  /-- What is seen of an expression. -/
  view : View
  /-- What the alternatives may do that a plan adds. -/
  allows : Action → Prop
  /-- They may store the value of an attribute. -/
  stores : ∀ name kind scenarioSpecific, allows (.extend (.store name kind scenarioSpecific))

/-- Whether two computations end alike: they give what is asked of both, or they end for the same fault. -/
inductive Matcher.EndAlike (R : α → β → Prop) : Except Stop α → Except Stop β → Prop
  | given {a : α} {b : β} (related : R a b) : EndAlike R (.ok a) (.ok b)
  | fault (fault : ParseFault) (location location' : Location) :
    EndAlike R (.error (.error ⟨fault, location⟩)) (.error (.error ⟨fault, location'⟩))
  | outOfFuel : EndAlike R (.error .outOfFuel) (.error .outOfFuel)

/-- Whether a computation does nothing but report. -/
def Matcher.OnlyReports (m : Matcher Unit) : Prop :=
  ∀ env c, ∃ journal, m env c = (.ok (), { c with journal })

namespace RunRelation

open Matcher

variable {L : RunRelation}

/-- Whether two states are alike. -/
structure Alike (L : RunRelation) (c d : Context) : Prop where
  reading : L.reading c.tokens c.stop d.tokens d.stop
  allowed : ∀ entry ∈ c.extensions, ∀ a ∈ entry.2.action, L.allows a
  built : d.built L.view = c.built L.view

namespace Alike

variable {c d : Context} (alike : L.Alike c d)

include alike

/-! What is current is the same in both states. -/

theorem property : d.property = c.property :=
  (congrArg Context.property alike.built :)

theorem scenario : d.scenario = c.scenario :=
  (congrArg Context.scenario alike.built :)

theorem scenarioIndex : d.scenarioIndex = c.scenarioIndex :=
  (congrArg Context.scenarioIndex alike.built :)

theorem scenariosReplaced : d.scenariosReplaced = c.scenariosReplaced :=
  (congrArg Context.scenariosReplaced alike.built :)

theorem report : d.report = c.report :=
  (congrArg Context.report alike.built :)

theorem column : d.column = c.column :=
  (congrArg Context.column alike.built :)

theorem extendTarget : d.extendTarget = c.extendTarget :=
  (congrArg Context.extendTarget alike.built :)

theorem extensions : d.extensions = c.extensions :=
  (congrArg Context.extensions alike.built :)

theorem depth : d.depth = c.depth :=
  (congrArg Context.depth alike.built :)

/-- There are projects that look the same, or there is none. -/
theorem project :
    Option.Rel (fun p q => q.through L.view = p.through L.view) c.project d.project :=
  rel_of_map_eq (congrArg Context.project alike.built)

/-- What is taken from the project is the same if it does not look at expressions. -/
theorem bind_project {f : Project → Option α}
    (hf : ∀ p q, q.through L.view = p.through L.view → f q = f p) :
    d.project.bind f = c.project.bind f := by
  have related := alike.project
  generalize c.project = p at related ⊢
  generalize d.project = q at related ⊢
  cases related with
  | none => rfl
  | some same => exact hf _ _ same

/-- The task or resource whose body is read is the same. -/
theorem currentProperty? : d.currentProperty? = c.currentProperty? := by
  unfold Context.currentProperty?
  rw [alike.property]
  refine congrArg _ (funext fun (kind, index) => alike.bind_project fun p q same => ?_)
  exact (congrArg (fun p : Project => (p.properties kind).get? index) same :)

/-- So is the value of an attribute in the current scenario. -/
theorem scenarioAttribute? (id : String) : d.scenarioAttribute? id = c.scenarioAttribute? id := by
  unfold Context.scenarioAttribute?
  rw [alike.currentProperty?, alike.scenarioIndex]

/-- Projects that look the same can take the place of those that are there. -/
theorem withProject {p q : Project} (same : q.through L.view = p.through L.view) :
    L.Alike { c with project := some p } { d with project := some q } := by
  refine ⟨alike.reading, alike.allowed, ?_⟩
  show { d.built L.view with project := some (q.through L.view) } =
    { c.built L.view with project := some (p.through L.view) }
  rw [alike.built, same]

/-- The journals can be any. -/
theorem withJournal (journal journal' : Log.Journal) :
    L.Alike { c with journal } { d with journal := journal' } :=
  ⟨alike.reading, alike.allowed, alike.built⟩

end Alike

/-- Whether two computations are parallel. -/
def Parallel (L : RunRelation) (R : α → β → Prop) (m : Matcher α) (n : Matcher β) : Prop :=
  ∀ env env' c d, L.surroundings env env' → L.Alike c d →
    EndAlike R (m env c).1 (n env' d).1 ∧ L.Alike (m env c).2 (n env' d).2

/-- Whether a computation does the same whenever it runs. -/
abbrev Steady (L : RunRelation) (m : Matcher α) : Prop := L.Parallel Eq m m

section
variable {R : α → β → Prop} {S : γ → δ → Prop}

theorem parallel_pure {a : α} {b : β} (h : R a b) :
    L.Parallel R (pure a : Matcher α) (pure b : Matcher β) :=
  fun _ _ _ _ _ alike => ⟨.given h, alike⟩

/-- Computations one after the other are parallel. -/
theorem Parallel.bind {m : Matcher α} {n : Matcher β} {f : α → Matcher γ} {g : β → Matcher δ}
    (hm : L.Parallel R m n) (hf : ∀ a b, R a b → L.Parallel S (f a) (g b)) :
    L.Parallel S (m >>= f) (n >>= g) := by
  intro env env' c d he alike
  obtain ⟨ends, alike⟩ := hm env env' c d he alike
  rw [run_bind, run_bind]
  generalize m env c = r at ends alike ⊢
  generalize n env' d = r' at ends alike ⊢
  obtain ⟨outcome, c⟩ := r
  obtain ⟨outcome', d⟩ := r'
  dsimp only at ends alike
  -- what follows is not reached, or it goes on from states that are alike again
  cases ends with
  | given related => exact hf _ _ related env env' c d he alike
  | fault fault location location' => exact ⟨.fault fault location location', alike⟩
  | outOfFuel => exact ⟨.outOfFuel, alike⟩

theorem Parallel.andThen {m n : Matcher α} {f : α → Matcher γ} {g : α → Matcher δ}
    (hm : L.Parallel Eq m n) (hf : ∀ a, L.Parallel S (f a) (g a)) :
    L.Parallel S (m >>= f) (n >>= g) :=
  hm.bind fun a _ same => same ▸ hf a

theorem Parallel.map {m : Matcher α} {n : Matcher β} {f : α → γ} {g : β → δ}
    (hm : L.Parallel R m n) (hf : ∀ a b, R a b → S (f a) (g b)) :
    L.Parallel S (f <$> m) (g <$> n) := by
  rw [← bind_pure_comp, ← bind_pure_comp]
  exact hm.bind fun a b h => parallel_pure (hf a b h)

theorem parallel_get {f : Context → Matcher γ} {g : Context → Matcher δ}
    (h : ∀ c d, L.Alike c d → L.Parallel S (f c) (g d)) : L.Parallel S (get >>= f) (get >>= g) := by
  intro env env' c d he alike
  rw [run_bind, run_bind]
  exact h c d alike env env' c d he alike

theorem parallel_read {f : Surroundings → Matcher γ} {g : Surroundings → Matcher δ}
    (h : ∀ env env', L.surroundings env env' → L.Parallel S (f env) (g env')) :
    L.Parallel S (read >>= f) (read >>= g) := by
  intro env env' c d he alike
  rw [run_bind, run_bind]
  exact h env env' he env env' c d he alike

/-! ## Ending early -/

theorem parallel_failAt (fault : ParseFault) (location location' : Location) :
    L.Parallel R (failAt location fault) (failAt location' fault) :=
  fun _ _ _ _ _ alike => ⟨.fault fault location location', alike⟩

/-- The place of a fault may differ. -/
theorem parallel_failNext (fault : ParseFault) : L.Parallel R (failNext fault) (failNext fault) :=
  parallel_get fun c d _ => parallel_failAt fault c.tokens.location d.tokens.location

theorem parallel_fail (fault : SemanticFault) : L.Parallel R (fail fault) (fail fault) :=
  parallel_get fun c d _ =>
    parallel_failAt (.semantic fault) c.tokens.lastLocation d.tokens.lastLocation

/-- Where a value is missing, the other one is missing as well. -/
theorem parallel_orFail {a : Option α} {b : Option β} (fault : SemanticFault) (h : Option.Rel R a b) :
    L.Parallel R (orFail a fault) (orFail b fault) := by
  cases h with
  | none => exact parallel_fail fault
  | some related => exact parallel_pure related

theorem steady_orFail (a : Option α) (fault : SemanticFault) : L.Steady (orFail a fault) := by
  cases a with
  | none => exact parallel_fail fault
  | some x => exact parallel_pure rfl

/-- Where a value of a pattern is of the wrong kind, the other one is so as well. -/
theorem parallel_take {v w : Values} {x : Except GrammarError α} {y : Except GrammarError β}
    (h : Taken R x y) : L.Parallel R (take v x) (take w y) := by
  cases h with
  | given related => exact parallel_pure related
  | wrong e => exact parallel_failAt _ _ _

theorem parallel_taken {v w : Values} {x y : Except GrammarError α} (h : y = x) :
    L.Parallel Eq (take v x) (take w y) := by
  subst h
  cases y with
  | ok a => exact parallel_take (.given rfl)
  | error e => exact parallel_take (.wrong e)

/-- A fault of the grammar ends both. -/
theorem steady_sound (x : Except GrammarError α) : L.Steady (sound x) := by
  cases x with
  | ok a => exact parallel_pure rfl
  | error e => exact parallel_failNext _

/-! ## Changes of the state -/

theorem parallel_modify {f g : Context → Context} (h : ∀ c d, L.Alike c d → L.Alike (f c) (g d)) :
    L.Parallel Eq (modify f : Matcher Unit) (modify g : Matcher Unit) :=
  fun _ _ c d _ alike => ⟨.given rfl, h c d alike⟩

/-- A change that leaves tokens and grammar alone and can as well be made to what is seen of the state. -/
theorem steady_change {f : Context → Context} (built : ∀ c, (f c).built L.view = f (c.built L.view))
    (kept : ∀ c, ((f c).tokens, (f c).stop, (f c).extensions) = (c.tokens, c.stop, c.extensions)) :
    L.Steady (modify f : Matcher Unit) := by
  refine parallel_modify fun c d alike => ?_
  have keeps (c : Context) :
      (f c).tokens = c.tokens ∧ (f c).stop = c.stop ∧ (f c).extensions = c.extensions := by
    simpa only [Prod.mk.injEq] using kept c
  obtain ⟨tokens, stop, extensions⟩ := keeps c
  obtain ⟨tokens', stop', -⟩ := keeps d
  refine ⟨?_, ?_, ?_⟩
  · rw [tokens, stop, tokens', stop']
    exact alike.reading
  · rw [extensions]
    exact alike.allowed
  · rw [built d, alike.built, built c]

/-- What is reported need not be the same. -/
theorem parallel_of_onlyReports {m n : Matcher Unit} (hm : OnlyReports m) (hn : OnlyReports n) :
    L.Parallel Eq m n := by
  intro env env' c d _ alike
  obtain ⟨journal, first⟩ := hm env c
  obtain ⟨journal', second⟩ := hn env' d
  rw [first, second]
  exact ⟨.given rfl, alike.withJournal journal journal'⟩

theorem parallel_report (event event' : Log.Event) : L.Parallel Eq (report event) (report event') :=
  parallel_of_onlyReports (fun _ _ => ⟨_, rfl⟩) fun _ _ => ⟨_, rfl⟩

/-! ## The project and what is current in it -/

/-- Whether two projects look the same. -/
abbrev SameProject (L : RunRelation) (p q : Project) : Prop := q.through L.view = p.through L.view

/-- There are projects, and they look the same. -/
theorem parallel_project : L.Parallel L.SameProject project project :=
  parallel_get fun _ _ alike => parallel_orFail _ alike.project

theorem parallel_setProject {p q : Project} (same : L.SameProject p q) :
    L.Parallel Eq (modify fun c => { c with project := some p } : Matcher Unit)
      (modify fun c => { c with project := some q } : Matcher Unit) :=
  parallel_modify fun _ _ alike => alike.withProject same

/-- A change of the settings is seen. -/
theorem steady_modifySettings (f : Plan.Settings → Plan.Settings) :
    L.Steady (modifySettings f) := by
  refine parallel_project.bind fun p q same => parallel_setProject ?_
  exact congrArg (·.modifySettings f) same

theorem steady_currentProperty : L.Steady currentProperty := by
  refine parallel_get fun c d alike => ?_
  rw [alike.property]
  refine (steady_orFail _ _).andThen fun (kind, index) => parallel_project.bind fun p q same => ?_
  have properties : q.properties kind = p.properties kind := (congrArg (·.properties kind) same :)
  rw [properties]
  exact steady_orFail _ _

/-- The task or resource whose body is read is changed in parallel. -/
theorem steady_modifyProperty (f : Plan.Property → Plan.Property) : L.Steady (modifyProperty f) := by
  refine parallel_get fun c d alike => ?_
  rw [alike.property]
  refine (steady_orFail _ _).andThen fun (kind, index) => ?_
  refine (parallel_orFail _ alike.project).bind fun p q same => ?_
  have properties : q.properties kind = p.properties kind := (congrArg (·.properties kind) same :)
  dsimp only
  rw [properties]
  refine (steady_orFail _ _).andThen fun _ => parallel_setProject ?_
  rw [SameProject, Project.through_setProperties, same, Project.through_setProperties]

/-- An attribute is set in parallel. -/
theorem steady_setScenarioAttribute (id : String) (value : Plan.AttributeValue) :
    L.Steady (setScenarioAttribute id value) := by
  refine parallel_get fun c d alike => ?_
  rw [alike.scenarioIndex]
  exact steady_modifyProperty _

/-- There are report elements, and they look the same. -/
theorem parallel_reportElement :
    L.Parallel (fun e e' => e'.through L.view = e.through L.view) reportElement reportElement := by
  refine parallel_get fun c d alike => ?_
  rw [alike.report]
  refine (steady_orFail _ _).andThen fun index => ?_
  refine (parallel_orFail _ alike.project).bind fun p q same => ?_
  exact (parallel_orFail _ (Project.rel_reports same index)).map fun r s same =>
    (congrArg Report.element same :)

/-- Whether two changes look the same for elements that look the same. -/
def ChangesSame (L : RunRelation) (f g : ReportElement → ReportElement) : Prop :=
  ∀ e e', e'.through L.view = e.through L.view → (g e').through L.view = (f e).through L.view

/-- A change that leaves the expressions alone. -/
theorem changesSame_of_through {f : ReportElement → ReportElement}
    (h : ∀ e, (f e).through L.view = f (e.through L.view)) : L.ChangesSame f f := by
  intro e e' same
  rw [h, same, h]

/-- The current report is changed in parallel. -/
theorem parallel_modifyReport {f g : ReportElement → ReportElement} (h : L.ChangesSame f g) :
    L.Parallel Eq (modifyReport f) (modifyReport g) := by
  refine parallel_get fun c d alike => ?_
  rw [alike.report]
  refine (steady_orFail _ _).andThen fun index => ?_
  refine (parallel_orFail _ alike.project).bind fun p q same => ?_
  refine (parallel_orFail _ (Project.rel_reports same index)).bind fun _ _ _ => ?_
  refine parallel_setProject (Project.through_modify_reports same index fun r s same => ?_)
  -- kind and name of a report are the same, and its element looks the same
  have element : s.element.through L.view = r.element.through L.view :=
    (congrArg Report.element same :)
  show { s.through L.view with element := (g s.element).through L.view } =
    { r.through L.view with element := (f r.element).through L.view }
  rw [same, h r.element s.element element]

/-- A rule has the same number. -/
theorem steady_ruleId (name : String) : L.Steady (ruleId name) := by
  refine parallel_read fun env env' he => ?_
  rw [L.grammar he]
  split
  · exact parallel_pure rfl
  · exact parallel_failNext _

end

end RunRelation

end Planfile
