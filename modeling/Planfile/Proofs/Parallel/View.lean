import Planfile.Meaning

/-!
# Planfile — what is seen of expressions

An expression knows the place where it is written, and nothing else that is built does. A view says how
much of an expression is looked at: all but its place, or all but its line. Whatever holds expressions is
seen through a view by looking at each of them through it.

Main results:

* `Plan.Project.through`, `Value.through` — projects and values through a view.
* `Value.Blind.typed` — what does not look at expressions is taken for the same.
-/

namespace Planfile

/-- Where two values, if there are any, look the same, both are there or none is. -/
theorem rel_of_map_eq {f : α → γ} {a b : Option α} (h : b.map f = a.map f) :
    Option.Rel (fun x y => f y = f x) a b := by
  cases a with
  | none =>
    obtain rfl := Option.map_eq_none_iff.mp h
    exact .none
  | some x =>
    obtain ⟨y, rfl, same⟩ := Option.map_eq_some_iff.mp h
    exact .some same

namespace Plan

/-- What is seen of an expression. -/
abbrev View := LogicalExpression → LogicalExpression

/-- An element through a view. -/
def ReportElement.through (view : View) (e : ReportElement) : ReportElement :=
  { e with
    hideResource := e.hideResource.map view
    hideTask := e.hideTask.map view
    rollupTask := e.rollupTask.map view }

/-- A report through a view. -/
def Report.through (view : View) (r : Report) : Report :=
  { r with element := r.element.through view }

/-- A project through a view. -/
def Project.through (view : View) (p : Project) : Project :=
  { p with reports := p.reports.map (·.through view) }

variable {view : View}

@[simp] theorem Project.through_setProperties (p : Project) (kind : PropertyKind) (s : PropertySet) :
    (p.setProperties kind s).through view = (p.through view).setProperties kind s := by
  cases kind <;> rfl

/-- Adding a scenario and looking at the project go together. -/
theorem Project.through_addScenario (p : Project) (s : Scenario) :
    (p.through view).addScenario s = (p.addScenario s).map (Project.through view) := by
  have known : (p.through view).scenarioIndex? s.id = p.scenarioIndex? s.id := rfl
  rw [addScenario, addScenario, known]
  cases p.scenarioIndex? s.id <;> rfl

/-- Where there is a report, there is one that looks the same. -/
theorem Project.rel_reports {p q : Project} (same : q.through view = p.through view) (i : Nat) :
    Option.Rel (fun r s => Report.through view s = Report.through view r) p.reports[i]?
      q.reports[i]? := by
  have there := congrArg (·.reports[i]?) same
  simp only [Project.through, List.getElem?_map] at there
  exact rel_of_map_eq there

theorem Project.length_reports {p q : Project} (same : q.through view = p.through view) :
    q.reports.length = p.reports.length := by
  have length := congrArg (·.reports.length) same
  simpa only [Project.through, List.length_map] using length

/-- Reports that look the same still do so if one of them has changed in both lists. -/
theorem Project.through_modify_reports {p q : Project} (same : q.through view = p.through view)
    (i : Nat) {f g : Report → Report}
    (h : ∀ r s, Report.through view s = Report.through view r →
      Report.through view (g s) = Report.through view (f r)) :
    ({ q with reports := q.reports.modify i g } : Project).through view =
      ({ p with reports := p.reports.modify i f } : Project).through view := by
  have reports : (q.reports.modify i g).map (Report.through view) =
      (p.reports.modify i f).map (Report.through view) := by
    refine List.ext_getElem? fun j => ?_
    have related := rel_reports same j
    simp only [List.getElem?_map, List.getElem?_modify]
    generalize p.reports[j]? = r at related ⊢
    generalize q.reports[j]? = s at related ⊢
    cases related with
    | none => rfl
    | some same =>
      by_cases here : i = j
      · simp [here, h _ _ same]
      · simp [here, same]
  show { q.through view with reports := (q.reports.modify i g).map (Report.through view) } =
    { p.through view with reports := (p.reports.modify i f).map (Report.through view) }
  rw [same, reports]

end Plan

/-! ## Values -/

namespace Value

open Plan (View)

mutual

/-- A value through a view. -/
def through (view : View) : Value → Value
  | .expression e => .expression (view e)
  | .list items => .list (allThrough view items)
  | .pair first second => .pair (first.through view) (second.through view)
  | v => v

/-- Values through a view. -/
def allThrough (view : View) : List Value → List Value
  | [] => []
  | v :: rest => v.through view :: allThrough view rest

end

variable {view : View}

/-- Values are looked at one by one. -/
theorem allThrough_eq_map (values : List Value) :
    allThrough view values = values.map (through view) := by
  induction values with
  | nil => rw [allThrough, List.map_nil]
  | cons v rest ih => rw [allThrough, ih, List.map_cons]

@[simp] theorem through_list (items : List Value) :
    (Value.list items).through view = .list (items.map (through view)) := by
  rw [through, allThrough_eq_map]

/-- The items of a value are looked at one by one. -/
theorem items_through (v : Value) : (v.through view).items = v.items.map (through view) := by
  cases v with
  | list items => simp only [through_list, Value.items]
  | _ => simp only [through, Value.items, List.map_cons, List.map_nil]

/-- Whether something that is taken from a value does not look at expressions. -/
def Blind (f : Value → α) : Prop := ∀ view v, f (v.through view) = f v

/-- What does not look at expressions is the same for values that look the same. -/
theorem Blind.eq {f : Value → α} (hf : Blind f) {v w : Value}
    (h : w.through view = v.through view) : f w = f v := by
  rw [← hf view w, h, hf view v]

/-- What is taken from each of several values. -/
theorem Blind.filterMap_map {f : Value → Option α} (hf : Blind f) (values : List Value) :
    (values.map (through view)).filterMap f = values.filterMap f := by
  simp only [List.filterMap_map, Function.comp_def, hf view]

/-- What is taken from each of several values that look the same. -/
theorem Blind.filterMap {f : Value → Option α} (hf : Blind f) {vs ws : List Value}
    (h : ws.map (through view) = vs.map (through view)) : ws.filterMap f = vs.filterMap f := by
  rw [← hf.filterMap_map ws, h, hf.filterMap_map]

/-- What is made of several values that look the same. -/
theorem Blind.foldl {f : β → Value → β} (hf : ∀ b, Blind (f b)) {vs ws : List Value}
    (h : ws.map (through view) = vs.map (through view)) (start : β) :
    ws.foldl f start = vs.foldl f start := by
  -- it does not matter at which step the values are looked at
  have seen (values : List Value) :
      (values.map (through view)).foldl f start = values.foldl f start := by
    simp only [List.foldl_map, hf _ view]
  rw [← seen ws, h, seen]

/-- Whether two values, if there are any, look the same. -/
abbrev Same (view : View) (v w : Option Value) : Prop := w.map (through view) = v.map (through view)

end Value

/-! ## Values of patterns -/

/-- Whether what is taken for something is related, or is of the wrong kind in both cases. -/
inductive Matcher.Taken (R : α → β → Prop) : Except GrammarError α → Except GrammarError β → Prop
  | given {a : α} {b : β} (related : R a b) : Taken R (.ok a) (.ok b)
  | wrong (e : GrammarError) : Taken R (.error e) (.error e)

/-- Whether the values of two patterns look the same, and so does an expression that is made of them and
of the places of the patterns. -/
structure Values.Same (view : Plan.View) (v w : Values) : Prop where
  values : ∀ i, Value.Same view (v.value? i) (w.value? i)
  place : ∀ operation, view ⟨operation, w.location.file, w.location.line⟩ =
    view ⟨operation, v.location.file, v.location.line⟩

namespace Values.Same

variable {view : Plan.View} {v w : Values}

/-- What is taken from a value without looking at expressions. -/
theorem bind (h : v.Same view w) (i : Nat) {f : Value → Option α} (hf : Value.Blind f) :
    (w.value? i).bind f = (v.value? i).bind f := by
  have related := rel_of_map_eq (h.values i)
  generalize v.value? i = a at related ⊢
  generalize w.value? i = b at related ⊢
  cases related with
  | none => rfl
  | some same => exact hf.eq same

/-- Values are taken for the same. -/
theorem typed (h : v.Same view w) (i : Nat) (expected : String) {f : Value → Option α}
    (hf : Value.Blind f) : w.typed i expected f = v.typed i expected f := by
  rw [Values.typed, h.bind i hf, Values.typed]

/-! Each value is taken for the same, whatever it is taken for. -/

theorem string (h : v.Same view w) (i : Nat) : w.string i = v.string i :=
  h.typed i _ fun _ a => by cases a <;> rfl

theorem int (h : v.Same view w) (i : Nat) : w.int i = v.int i :=
  h.typed i _ fun _ a => by cases a <;> rfl

theorem number (h : v.Same view w) (i : Nat) : w.number i = v.number i :=
  h.typed i _ fun _ a => by cases a <;> rfl

theorem date (h : v.Same view w) (i : Nat) : w.date i = v.date i :=
  h.typed i _ fun _ a => by cases a <;> rfl

theorem time (h : v.Same view w) (i : Nat) : w.time i = v.time i :=
  h.typed i _ fun _ a => by cases a <;> rfl

theorem unit (h : v.Same view w) (i : Nat) : w.unit i = v.unit i :=
  h.typed i _ fun _ a => by cases a <;> rfl

theorem interval (h : v.Same view w) (i : Nat) : w.interval i = v.interval i :=
  h.typed i _ fun _ a => by cases a <;> rfl

theorem operand (h : v.Same view w) (i : Nat) : w.operand i = v.operand i :=
  h.typed i _ fun _ a => by cases a <;> rfl

theorem operation (h : v.Same view w) (i : Nat) : w.operation i = v.operation i :=
  h.typed i _ fun _ a => by cases a <;> rfl

/-- A required value is there or missing in both, and where it is there it looks the same. -/
theorem required (h : v.Same view w) (i : Nat) :
    Matcher.Taken (fun a b => b.through view = a.through view) (v.required i) (w.required i) := by
  have related := rel_of_map_eq (h.values i)
  unfold Values.required Values.typed
  generalize v.value? i = a at related ⊢
  generalize w.value? i = b at related ⊢
  cases related with
  | none => exact .wrong _
  | some same => exact .given same

/-- An expression is taken as such, and it looks the same. -/
theorem expression (h : v.Same view w) (i : Nat) :
    Matcher.Taken (fun e f => view f = view e) (v.expression i) (w.expression i) := by
  have related := rel_of_map_eq (h.values i)
  unfold Values.expression Values.typed
  generalize v.value? i = a at related ⊢
  generalize w.value? i = b at related ⊢
  cases related with
  | none => exact .wrong _
  | @some a b same =>
    -- through a view a value is still an expression, and nothing else becomes one
    cases a with
    | expression e =>
      cases b with
      | expression f => exact .given (by simpa only [Value.through, Value.expression.injEq] using same)
      | _ => simp [Value.through] at same
    | _ =>
      cases b with
      | expression f => simp [Value.through] at same
      | _ => exact .wrong _

/-- The items of lists look the same. -/
theorem list (h : v.Same view w) (i : Nat) :
    (w.list i).map (Value.through view) = (v.list i).map (Value.through view) := by
  have related := rel_of_map_eq (h.values i)
  unfold Values.list
  generalize v.value? i = a at related ⊢
  generalize w.value? i = b at related ⊢
  cases related with
  | none => rfl
  | @some a b same =>
    show b.items.map (Value.through view) = a.items.map (Value.through view)
    rw [← Value.items_through, same, Value.items_through]

theorem strings (h : v.Same view w) (i : Nat) : strings (w.list i) = strings (v.list i) :=
  Value.Blind.filterMap (fun _ a => by cases a <;> rfl) (h.list i)

theorem intervals (h : v.Same view w) (i : Nat) : intervals (w.list i) = intervals (v.list i) :=
  Value.Blind.filterMap (fun _ a => by cases a <;> rfl) (h.list i)

/-- As many values are there. -/
theorem isPresent (h : v.Same view w) (i : Nat) : w.isPresent i = v.isPresent i := by
  have same := congrArg Option.isSome (h.values i)
  simpa [Values.isPresent] using same

end Values.Same

end Planfile
