import Planfile.Proofs.Matching.Postcondition
import Planfile.Proofs.Reference.Value
import Planfile.Proofs.Schema.Conformance
import Planfile.Proofs.Source.Place
import Planfile.Proofs.Token.Form
import Planfile.Proofs.Typing.Perform

/-!
# Planfile — values that are in order

Before a time is stored in a project it is in a value: the lexer makes times of the day, and actions put
them together to ranges and intervals. A value is in order if this is so of the time, the range or the
interval in it; a list is in order if its items are. Some actions make sure of more: that a date lies
within the project, or that a name starts with a capital letter. They guard their value.

Main results:

* `Plan.Project.inRange_initial` — a project starts in range if its time is in order.
* `Plan.PropertySet.InRange.add?`, `Plan.Project.InRange.setProperties` and their like — the steps.
* `Plan.Project.InRange.ranged` — what this means for a project whose values are of the kinds of their schemas.
* `TokenSource.Anchored.formed_peek` — the tokens that are read are formed, so their values are in order.
* `Action.gives_inOrder` — an action that gets values in order gives one that is.
-/

/-!
## Projects whose numbers and times are in range

Nothing in the types of a project keeps its times in order or its numbers within bounds. Here it is said
what this means for each part of a project, in relation to the time that the project covers, and that the
steps by which projects are built keep to it: a value that is set has to be in range itself, and a value
that is inherited was in range where it came from.
-/

namespace Planfile

/-! ## Times -/

namespace Calendar

theorem DateTime.le_refl (a : DateTime) : a ≤ a := Int.le_refl a.toSeconds

theorem DateTime.le_of_lt {a b : DateTime} (h : a < b) : a ≤ b :=
  Int.le_of_lt (show a.toSeconds < b.toSeconds from h)

theorem DateTime.not_le {a b : DateTime} : ¬a ≤ b ↔ b < a :=
  Int.not_le (a := a.toSeconds) (b := b.toSeconds)

theorem DateTime.not_lt {a b : DateTime} : ¬a < b ↔ b ≤ a :=
  Int.not_lt (a := a.toSeconds) (b := b.toSeconds)

/-- The seconds of a day. -/
def secondsPerDay : Nat := 24 * 3600

/-- Whether an interval ends after it starts. -/
def Interval.InOrder (i : Interval) : Prop := i.start < i.stop

/-- Whether an interval lies in another one, ends included. -/
def Interval.Covers (time i : Interval) : Prop :=
  time.contains i.start = true ∧ time.contains i.stop = true

/-- Whether a range of the day ends after it starts, and not after the day. -/
structure TimeRange.InOrder (r : TimeRange) : Prop where
  forward : r.start < r.stop
  within : r.stop ≤ secondsPerDay

/-- Whether the ranges of every day are in order. -/
def WorkingHours.InOrder (w : WorkingHours) : Prop := ∀ day, ∀ r ∈ w.on day, r.InOrder

/-- A time that is in order covers itself. -/
theorem Interval.InOrder.covers_self {time : Interval} (h : time.InOrder) : time.Covers time :=
  ⟨contains_iff.mpr ⟨DateTime.le_refl _, DateTime.le_of_lt h⟩,
    contains_iff.mpr ⟨DateTime.le_of_lt h, DateTime.le_refl _⟩⟩

namespace WorkingHours

theorem inOrder_office : office.InOrder := by
  intro day r hr
  -- the days of the week are looked at one by one, and no other day has ranges
  have ranges : ∀ day < 7, ∀ r ∈ office.on day, r.start < r.stop ∧ r.stop ≤ secondsPerDay := by decide
  by_cases known : day < 7
  · obtain ⟨forward, within⟩ := ranges day known r hr
    exact ⟨forward, within⟩
  · rw [on, Vector.getElem?_eq_none (Nat.le_of_not_lt known)] at hr
    cases hr

/-- Hours that are set in order are in order. -/
theorem InOrder.setAll {w : WorkingHours} (h : w.InOrder) (days : DaySet) {ranges : List TimeRange}
    (new : ∀ r ∈ ranges, r.InOrder) : (w.setAll days ranges).InOrder := by
  intro day r hr
  by_cases known : day < 7
  · rw [on_setAll known] at hr
    split at hr
    · exact new r hr
    · exact h day r hr
  · rw [on, Vector.getElem?_eq_none (Nat.le_of_not_lt known)] at hr
    cases hr

end WorkingHours

end Calendar

namespace Plan

open Calendar (Interval)

/-! ## What is in range -/

/-- Whether a value can be that of an attribute of some name in a project over some time. -/
def AttributeValue.InRange (time : Interval) (id : String) : AttributeValue → Prop
  | .date d => id = "start" ∨ id = "end" → time.contains d = true
  | .integer n => 0 ≤ n ∧ n ≤ 1000
  | .intervals items => ∀ i ∈ items, i.InOrder
  | .workingHours hours => hours.InOrder
  | _ => True

/-- Whether all values of a task or a resource are in range, those of scenarios included. -/
def Property.InRange (time : Interval) (q : Property) : Prop :=
  ∀ id value, q.Stores id value → value.InRange time id

/-- Whether all tasks or all resources of a set are in range. -/
def PropertySet.InRange (time : Interval) (s : PropertySet) : Prop :=
  ∀ q ∈ s.properties, q.InRange time

/-- Whether the settings of a project are in range. -/
structure Settings.InRange (s : Settings) : Prop where
  granularity : 300 ≤ s.scheduleGranularity ∧ s.scheduleGranularity ≤ 3600
  vacations : ∀ i ∈ s.vacations, i.InOrder
  workingHours : s.workingHours.InOrder

/-- Whether a report starts and ends within some time. -/
def ReportElement.InRange (time : Interval) (e : ReportElement) : Prop := time.Covers ⟨e.start, e.stop⟩

/-- Whether the time of a project is in order, and all that is in it is in range. -/
structure Project.InRange (p : Project) : Prop where
  time : p.interval.InOrder
  settings : p.settings.InRange
  properties : ∀ kind, (p.properties kind).InRange p.interval
  reports : ∀ r ∈ p.reports, r.element.InRange p.interval

/-! ## Steps -/

variable {time : Interval}

namespace Property.InRange

variable {q parent : Property} {id : String} {value : AttributeValue}

theorem set (h : q.InRange time) (hv : value.InRange time id) : (q.set id value).InRange time := by
  intro other stored holds
  rcases stores_set holds with new | old
  · cases new
    exact hv
  · exact h other stored old

theorem setScenario (h : q.InRange time) (scenario : Nat) (hv : value.InRange time id) :
    (q.setScenario scenario id value).InRange time := by
  intro other stored holds
  rcases stores_setScenario holds with new | old
  · cases new
    exact hv
  · exact h other stored old

/-- What is inherited was in range where it came from. -/
theorem inheritFrom (h : q.InRange time) (hp : parent.InRange time)
    (definitions : List AttributeDefinition) : (q.inheritFrom parent definitions).InRange time := by
  intro other stored holds
  rcases stores_inheritFrom holds with own | inherited
  · exact h other stored own
  · exact hp other stored inherited

end Property.InRange

namespace PropertySet.InRange

variable {s grown : PropertySet}

theorem modify (h : s.InRange time) (i : Nat) {f : Property → Property}
    (hf : ∀ q, q.InRange time → (f q).InRange time) : (s.modify i f).InRange time :=
  forall_modify h fun q _ hq => hf q hq

/-- What is added stores nothing but what it inherits. -/
theorem add? (h : s.InRange time) {id name : String} {parent : Option Nat}
    (added : s.add? id name parent = .ok grown) (index : Nat) :
    (grown.inheritAttributes index).InRange time := by
  rw [eq_append_of_add? added]
  refine forall_inheritAttributes (motive := fun q => q.InRange time) ?_ fun q parent hq hparent =>
    hq.inheritFrom hparent _
  exact forall_append (motive := fun q => q.InRange time) h (fun q _ hq => hq)
    fun id value stored => absurd stored Property.not_stores_new

theorem define? (h : s.InRange time) {d : AttributeDefinition} (added : s.define? d = .ok grown) :
    grown.InRange time := by
  obtain ⟨-, rfl⟩ := definitions_of_define? added
  exact h

end PropertySet.InRange

theorem Settings.inRange_initial : initial.InRange where
  granularity := by decide
  vacations _ hi := absurd hi List.not_mem_nil
  workingHours := Calendar.WorkingHours.inOrder_office

namespace Project

/-- A project starts in range if its time is in order. -/
theorem inRange_initial {time : Interval} (h : time.InOrder) (id name version : String) :
    (initial id name version time).InRange where
  time := h
  settings := Settings.inRange_initial
  properties kind q hq := by cases kind <;> exact absurd hq (Array.not_mem_empty q)
  reports r hr := absurd hr List.not_mem_nil

namespace InRange

variable {p : Project} (h : p.InRange)

include h

theorem modifySettings {f : Settings → Settings} (hf : (f p.settings).InRange) :
    (p.modifySettings f).InRange := ⟨h.time, hf, h.properties, h.reports⟩

theorem setProperties {kind : PropertyKind} {s : PropertySet} (hs : s.InRange p.interval) :
    (p.setProperties kind s).InRange := by
  have others : ∀ other, ((p.setProperties kind s).properties other).InRange p.interval := by
    intro other
    rw [properties_setProperties]
    split
    · exact hs
    · exact h.properties other
  cases kind <;> exact ⟨h.time, h.settings, others, h.reports⟩

theorem withReports {reports : List Report} (hr : ∀ r ∈ reports, r.element.InRange p.interval) :
    ({ p with reports } : Project).InRange := ⟨h.time, h.settings, h.properties, hr⟩

/-- A new report covers the time of the project. -/
theorem element_over : (ReportElement.over p.start p.stop).InRange p.interval := h.time.covers_self

end InRange

/-! ## What this means -/

/-- Whether the values of a project are within their bounds. -/
structure Ranged (p : Project) : Prop where
  time : p.start < p.stop
  granularity : 300 ≤ p.settings.scheduleGranularity ∧ p.settings.scheduleGranularity ≤ 3600
  priorities : ∀ q ∈ p.tasks.properties, ∀ v, q.Stores "priority" v →
    ∃ n, v = .integer n ∧ 0 ≤ n ∧ n ≤ 1000
  tasks : ∀ q ∈ p.tasks.properties, ∀ id ∈ ["start", "end"], ∀ v, q.Stores id v →
    ∃ d, v = .date d ∧ p.start ≤ d ∧ d ≤ p.stop
  reports : ∀ r ∈ p.reports, (p.start ≤ r.element.start ∧ r.element.start ≤ p.stop) ∧
    p.start ≤ r.element.stop ∧ r.element.stop ≤ p.stop
  vacations : ∀ i ∈ p.settings.vacations, i.start < i.stop
  resourceVacations : ∀ q ∈ p.resources.properties, ∀ v, q.Stores "vacations" v →
    ∃ items, v = .intervals items ∧ ∀ i ∈ items, i.start < i.stop
  workingHours : ∀ day, ∀ r ∈ p.settings.workingHours.on day, r.start < r.stop ∧ r.stop ≤ 86400
  resourceHours : ∀ q ∈ p.resources.properties, ∀ v, q.Stores "workinghours" v →
    ∃ hours, v = .workingHours hours ∧ ∀ day, ∀ r ∈ hours.on day, r.start < r.stop ∧ r.stop ≤ 86400

/-- A value under the name of a builtin attribute is of its kind. -/
theorem Conforms.kind_of_stores {p : Project} (h : p.Conforms) (kind : PropertyKind) {id : String}
    {d : AttributeDefinition} (builtin : (builtinDefinitions kind).find? (·.id == id) = some d)
    {q : Property} (hq : q ∈ (p.properties kind).properties) {v : AttributeValue}
    (stored : q.Stores id v) : v.kind = d.kind := by
  obtain ⟨e, he, same, is, -⟩ := (h.sets kind).exists_definition hq stored
  have own := List.find?_some builtin
  rw [beq_iff_eq] at own
  have hd := h.builtin kind (List.mem_of_find?_eq_some builtin)
  rw [← is, (h.sets kind).eq_of_id he hd (same.trans own.symm)]

/-- In a project in range whose values are of the kinds of their schemas they are within their bounds. -/
theorem InRange.ranged {p : Project} (h : p.InRange) (hc : p.Conforms) : p.Ranged where
  time := h.time
  granularity := h.settings.granularity
  priorities q hq v stored := by
    have kind : v.kind = .integer := hc.kind_of_stores .task rfl hq stored
    -- the schema says which kind the value has, and the range what its bounds are
    have bounded := h.properties .task q hq "priority" v stored
    cases v with
    | integer n => exact ⟨n, rfl, bounded⟩
    | _ => cases kind
  tasks q hq id among v stored := by
    have among := List.mem_pair.mp among
    have kind : v.kind = .date := by
      rcases among with rfl | rfl
      · exact hc.kind_of_stores .task rfl hq stored
      · exact hc.kind_of_stores .task rfl hq stored
    have within := h.properties .task q hq id v stored
    cases v with
    | date d =>
      have bounds := Interval.contains_iff.mp (within among)
      exact ⟨d, rfl, bounds⟩
    | _ => cases kind
  reports r hr := by
    obtain ⟨start, stop⟩ := h.reports r hr
    have start := Interval.contains_iff.mp start
    have stop := Interval.contains_iff.mp stop
    exact ⟨start, stop⟩
  vacations := h.settings.vacations
  resourceVacations q hq v stored := by
    have kind : v.kind = .intervals := hc.kind_of_stores .resource rfl hq stored
    have inOrder := h.properties .resource q hq "vacations" v stored
    cases v with
    | intervals items => exact ⟨items, rfl, inOrder⟩
    | _ => cases kind
  workingHours day r hr := by
    obtain ⟨forward, within⟩ := h.settings.workingHours day r hr
    exact ⟨forward, within⟩
  resourceHours q hq v stored := by
    have kind : v.kind = .workingHours := hc.kind_of_stores .resource rfl hq stored
    have inOrder := h.properties .resource q hq "workinghours" v stored
    cases v with
    | workingHours hours =>
      refine ⟨hours, rfl, fun day r hr => ?_⟩
      obtain ⟨forward, within⟩ := inOrder day r hr
      exact ⟨forward, within⟩
    | _ => cases kind

end Project

end Plan

end Planfile

namespace Planfile

open Matcher
open Calendar (Interval TimeRange secondsPerDay)

/-! ## Values -/

namespace Value

/-- Whether the time, the range or the interval that a value is, if it is one, is in order. -/
def InOrder : Value → Prop
  | .time seconds => seconds ≤ secondsPerDay
  | .interval i => i.InOrder
  | .timeRange r => r.InOrder
  | _ => True

/-- Whether the items of a value, if there is one, are in order. -/
def ItemsInOrder (v : Option Value) : Prop := ∀ x ∈ v, ∀ y ∈ x.items, y.InOrder

theorem itemsInOrder_none : ItemsInOrder none := by
  intro x hx
  cases hx

theorem itemsInOrder_list {items : List Value} :
    ItemsInOrder (some (.list items)) ↔ ∀ y ∈ items, y.InOrder := by
  simp [ItemsInOrder, Value.items]

/-- What is no list is its one item. -/
theorem itemsInOrder_self {x : Value} (single : x.items = [x]) (h : x.InOrder) :
    ItemsInOrder (some x) := by
  intro y hy
  cases hy
  rw [single]
  exact List.forall_mem_singleton.mpr h

/-- A value of which the items are in order is in order itself. -/
theorem ItemsInOrder.inOrder {x : Value} (h : ItemsInOrder (some x)) : x.InOrder := by
  cases x with
  | list items => trivial
  | _ => exact h _ rfl _ (List.mem_singleton_self _)

/-- What is collected is in order if all that is collected is. -/
theorem itemsInOrder_collected {items : List Value} (h : ∀ x ∈ items, ItemsInOrder (some x)) :
    ItemsInOrder (collected items) := by
  unfold collected
  split
  · exact itemsInOrder_none
  · exact itemsInOrder_list.mpr fun x hx => (h x (List.mem_reverse.mp hx)).inOrder

/-- A time of day is not behind the end of the day. -/
theorem itemsInOrder_ofToken? {token : Token} (h : Lexer.Formed token) :
    ItemsInOrder (ofToken? token) := by
  cases token with
  | time seconds =>
    obtain ⟨hour, minute, rfl, small, early⟩ := h
    have within : hour * 3600 + minute * 60 ≤ secondsPerDay := by
      unfold secondsPerDay
      omega
    exact itemsInOrder_self rfl within
  | comment s | eof => exact itemsInOrder_none
  | _ => exact itemsInOrder_self rfl trivial

end Value

/-- The tokens of a text that has been split are formed if those of the main one are. -/
theorem TokenSource.Splits.formed {p : Settings.Preferences} {fs : File.System} {start : TokenSource}
    {included : List String} {name : String} {tokens : List SpannedToken}
    (h : Splits p fs start included name tokens)
    (main : ∀ t ∈ start.top.stream.all, Lexer.Formed t.token) : ∀ t ∈ tokens, Lexer.Formed t.token := by
  intro t ht
  cases h with
  | main => exact main t ht
  | file _ _ lexed => exact Lexer.formed_of_produces ⟨_, _, tokens, t.span, lexed, ht⟩

/-- Wherever a parse gets, the next token is formed. -/
theorem TokenSource.Anchored.formed_peek {p : Settings.Preferences} {fs : File.System}
    {start s : TokenSource} (h : Anchored p fs start s)
    (main : ∀ t ∈ start.top.stream.all, Lexer.Formed t.token) : Lexer.Formed s.peek := by
  obtain ⟨tokens, splits, ends⟩ := h.frames s.top List.mem_cons_self
  obtain ⟨t, current, mem, -⟩ := ends.exists_current
  have next : s.peek = t.token := by
    have next : s.peekSpanned = some t := current
    rw [peek, next]
    rfl
  rw [next]
  exact splits.formed main t mem

/-! ## The values of a pattern -/

/-- Whether the values of a pattern are in order. -/
def Values.InOrder (v : Values) : Prop := ∀ i, Value.ItemsInOrder (v.value? i)

namespace Values.InOrder

variable {v : Values} (h : v.InOrder) {i : Nat}

include h

theorem list : ∀ x ∈ v.list i, x.InOrder := by
  intro x hx
  unfold Values.list at hx
  cases found : v.value? i with
  | none =>
    rw [found] at hx
    cases hx
  | some y =>
    rw [found] at hx
    exact h i y found x hx

theorem intervals : ∀ j ∈ intervals (v.list i), j.InOrder := by
  intro j hj
  obtain ⟨x, mem, is⟩ := List.mem_filterMap.mp hj
  have inOrder := h.list x mem
  cases x <;> cases is
  exact inOrder

theorem timeRanges : ∀ r ∈ (v.list i).filterMap (·.timeRange?), r.InOrder := by
  intro r hr
  obtain ⟨x, mem, is⟩ := List.mem_filterMap.mp hr
  have inOrder := h.list x mem
  cases x <;> cases is
  exact inOrder

theorem typed {expected : String} {take : Value → Option α} {a : α}
    (taken : v.typed i expected take = .ok a) : ∃ x, take x = some a ∧ x.InOrder := by
  obtain ⟨x, found, is⟩ := exists_of_typed taken
  have items := h i
  rw [found] at items
  exact ⟨x, is, items.inOrder⟩

theorem time {seconds : Nat} (taken : v.time i = .ok seconds) : seconds ≤ secondsPerDay := by
  obtain ⟨x, is, inOrder⟩ := h.typed taken
  cases x <;> cases is
  exact inOrder

theorem interval {j : Interval} (taken : v.interval i = .ok j) : j.InOrder := by
  obtain ⟨x, is, inOrder⟩ := h.typed taken
  cases x <;> cases is
  exact inOrder

end Values.InOrder

/-! ## What actions give -/

/-- An interval that has been made ends after it starts. -/
theorem inOrder_of_intervalOf {start : Calendar.DateTime} {stop : Value} {i : Interval}
    (h : intervalOf start stop = .ok i) : i.InOrder := by
  unfold intervalOf at h
  cases ends : endOf start stop with
  | error e =>
    rw [ends] at h
    cases h
  | ok moment =>
    rw [ends] at h
    change (if moment ≤ start then _ else _) = _ at h
    split at h
    · cases h
    · next later =>
      cases h
      exact Calendar.DateTime.not_le.mp later

namespace Matcher

/-- Whether a computation that comes to its end gives what is asked. -/
def Gives (ask : α → Prop) (m : Matcher α) : Prop := ∀ env c a d, m env c = (.ok a, d) → ask a

section
variable {ask : α → Prop}

theorem gives_pure {a : α} (h : ask a) : Gives ask (pure a : Matcher α) := by
  intro env c b d run
  cases run
  exact h

theorem gives_fail (fault : SemanticFault) : Gives ask (fail fault : Matcher α) := by
  intro env c b d run
  cases run

/-- What is given last does not depend on what has been given before, or only on what is known of it. -/
theorem Gives.bind {mid : β → Prop} {m : Matcher β} {f : β → Matcher α} (hm : Gives mid m)
    (hf : ∀ b, mid b → Gives ask (f b)) : Gives ask (m >>= f) := by
  intro env c a d run
  obtain ⟨b, x, first, rest⟩ := exists_of_run_bind run
  exact hf b (hm env c b x first) env x a d rest

theorem gives_bind {m : Matcher β} {f : β → Matcher α} (hf : ∀ b, Gives ask (f b)) :
    Gives ask (m >>= f) :=
  Gives.bind (fun _ _ _ _ _ => trivial : Gives (fun _ => True) m) fun b _ => hf b

/-- What is taken from a value is there. -/
theorem gives_take (v : Values) (a : Except GrammarError α) : Gives (fun x => a = .ok x) (take v a) := by
  intro env c x d run
  cases a with
  | error e => cases run
  | ok y =>
    cases run
    rfl

end

end Matcher

/-- Whether a value is no time, no range and no interval, and no list of them. -/
def Value.isPlain : Value → Bool
  | .time _ | .interval _ | .timeRange _ | .list _ => false
  | _ => true

theorem Value.itemsInOrder_of_isPlain {x : Value} (h : x.isPlain = true) : ItemsInOrder (some x) := by
  cases x with
  | time _ | interval _ | timeRange _ | list _ => cases h
  | _ => exact itemsInOrder_self rfl trivial

/-- A value of a plain kind is in order. -/
theorem Matcher.gives_plain {x : Value} (h : x.isPlain = true) :
    Gives Value.ItemsInOrder (pure (some x) : Matcher (Option Value)) :=
  gives_pure (Value.itemsInOrder_of_isPlain h)

theorem Matcher.gives_none : Gives Value.ItemsInOrder (pure none : Matcher (Option Value)) :=
  gives_pure Value.itemsInOrder_none

section
variable (v : Values)

theorem ScenarioAction.gives_inOrder (a : ScenarioAction) : Gives Value.ItemsInOrder (a.perform v) := by
  cases a with
  | header | close | enable enabled => exact gives_bind fun _ => gives_none
  | select => exact gives_bind fun _ => gives_bind fun _ => gives_bind fun _ => gives_none
  | index => exact gives_bind fun _ => gives_bind fun _ => gives_plain rfl

theorem PropertyAction.gives_inOrder (a : PropertyAction) : Gives Value.ItemsInOrder (a.perform v) := by
  cases a with
  | header kind =>
    exact gives_bind fun _ => gives_bind fun _ => gives_bind fun _ => gives_bind fun _ => gives_none
  | close | leaveScenario | allocate | depends | flags | vacation => exact gives_bind fun _ => gives_none
  | ticks id => exact gives_bind fun _ => gives_bind fun _ => gives_none
  | start | stop => exact gives_bind fun _ => gives_bind fun _ => gives_bind fun _ => gives_none
  | priority =>
    refine gives_bind fun priority => ?_
    dsimp only
    split
    · exact gives_bind fun _ => gives_bind fun _ => gives_none
    · exact gives_bind fun _ => gives_none
  | relativeId | resourceId => exact gives_bind fun _ => gives_bind fun _ => gives_plain rfl
  | allocation => exact gives_bind fun _ => gives_plain rfl
  | alternatives => exact gives_plain rfl
  | selectMode =>
    refine gives_bind fun word => ?_
    split
    · exact gives_plain rfl
    · exact gives_fail _

theorem ExtendAction.gives_inOrder (a : ExtendAction) : Gives Value.ItemsInOrder (a.perform v) := by
  cases a with
  | target => exact gives_bind fun _ => gives_bind fun _ => gives_none
  | close | declare kind => exact gives_bind fun _ => gives_none
  | id => exact gives_bind fun _ => gives_bind fun _ => gives_plain rfl
  | store name kind specific =>
    refine gives_bind fun value => ?_
    split
    · exact gives_bind fun _ => gives_none
    · exact gives_bind fun _ => gives_none

theorem ReportAction.gives_inOrder (a : ReportAction) : Gives Value.ItemsInOrder (a.perform v) := by
  cases a with
  | header => exact gives_bind fun _ => gives_bind fun _ => gives_bind fun _ => gives_none
  | close => exact gives_bind fun _ => gives_none
  | column =>
    refine gives_bind fun column => ?_
    cases column with
    | none => exact gives_none
    | some given => exact gives_plain rfl
  | columnId | columnTitle => exact gives_bind fun _ => gives_bind fun _ => gives_none
  | sortPath => exact gives_bind fun _ => gives_bind fun _ => gives_plain rfl
  | sortTree =>
    refine gives_bind fun word => ?_
    split
    · exact gives_plain rfl
    · exact gives_fail _
  | _ => exact gives_bind fun _ => gives_bind fun _ => gives_none

/-- An interval that has been made ends after it starts, also if it has to lie within the project. -/
theorem Matcher.gives_matchedInterval : Gives Interval.InOrder (matchedInterval v) := by
  refine gives_bind fun start => gives_bind fun stop => ?_
  split
  · next made => exact gives_pure (inOrder_of_intervalOf made)
  · exact gives_fail _

theorem Matcher.gives_projectInterval : Gives Interval.InOrder (projectInterval v) := by
  refine (gives_matchedInterval v).bind fun i inOrder => gives_bind fun p => ?_
  split
  · exact gives_fail _
  · split
    · exact gives_fail _
    · exact gives_pure inOrder

variable {v} (hv : v.InOrder)

include hv

theorem LogicalAction.gives_inOrder (a : LogicalAction) : Gives Value.ItemsInOrder (a.perform v) := by
  cases a with
  | expression | nested | negation | date | integer | string =>
    exact gives_bind fun _ => gives_plain rfl
  | operation | attributeOf | flag => exact gives_bind fun _ => gives_bind fun _ => gives_plain rfl
  | name =>
    refine gives_bind fun id => ?_
    dsimp only
    split
    · exact gives_bind fun _ => gives_plain rfl
    · exact gives_bind fun _ => gives_plain rfl
  | arguments => exact gives_pure (Value.itemsInOrder_list.mpr hv.list)

/-- The two times of a range have been compared, and the lexer has made both. -/
theorem Matcher.gives_timeRange : Gives TimeRange.InOrder (timeRange v) := by
  refine gives_bind fun start => (gives_take v _).bind fun stop taken => ?_
  split
  · exact gives_fail _
  · next later => exact gives_pure ⟨Nat.lt_of_not_le later, hv.time taken⟩

theorem CalendarAction.gives_inOrder (a : CalendarAction) : Gives Value.ItemsInOrder (a.perform v) := by
  cases a with
  | interval =>
    exact (gives_matchedInterval v).bind fun i inOrder => gives_pure (Value.itemsInOrder_self rfl inOrder)
  | projectInterval =>
    exact (gives_projectInterval v).bind fun i inOrder => gives_pure (Value.itemsInOrder_self rfl inOrder)
  | timeRange =>
    exact (gives_timeRange hv).bind fun r inOrder => gives_pure (Value.itemsInOrder_self rfl inOrder)
  | workingHours => exact gives_bind fun _ => gives_none
  | noTimes => exact gives_pure (Value.itemsInOrder_list.mpr fun y hy => absurd hy List.not_mem_nil)
  | daySet => exact gives_plain rfl
  | endDate | endSeconds | projectDate | dayRange => exact gives_bind fun _ => gives_plain rfl
  | unit => exact gives_bind fun _ => gives_bind fun _ => gives_plain rfl
  | calendarTicks | workingTicks =>
    exact gives_bind fun _ => gives_bind fun _ => gives_bind fun _ => gives_plain rfl
  | intervalSeconds => exact gives_bind fun _ => gives_bind fun _ => gives_plain rfl

/-- An action that gets values in order gives one that is. -/
theorem Action.gives_inOrder {a : Action} {shapes : List Shape} {s : Shape}
    (judged : a.gives? shapes = some s) {matchRule : RuleId → Matcher (Option Value)} :
    Gives Value.ItemsInOrder (a.perform matchRule v) := by
  cases a with
  | value i => exact gives_pure (hv i)
  | collect =>
    refine gives_pure (Value.itemsInOrder_list.mpr fun y hy => ?_)
    rcases List.mem_append.mp hy with first | more
    · have items := hv 0
      rw [Option.mem_toList.mp first] at items
      exact items.inOrder
    · exact hv.list y more
  | pair i => exact gives_bind fun _ => gives_bind fun _ => gives_plain rfl
  | includeFile i => exact gives_bind fun _ => gives_bind fun _ => gives_none
  | nothing => exact gives_none
  | project a => exact gives_bind fun _ => gives_none
  | scenario a => exact a.gives_inOrder v
  | property a => exact a.gives_inOrder v
  | extend a => exact a.gives_inOrder v
  | report a => exact a.gives_inOrder v
  | logical a => exact a.gives_inOrder hv
  | calendar a => exact a.gives_inOrder hv
  | _ => cases judged

end

end Planfile
