import Planfile.Grammar.Rule
import Planfile.Grammar.Table
import Planfile.Grammar.Value

/-!
# Planfile — the shapes of values

Values carry their kind only while a plan is read. A shape says in advance what a value can be, so a
pattern and its action can be checked without a plan: the shapes of the symbols have to be those that
the action takes, and then the shape that it gives is known.

Main results:

* `Shape.has_of_fits` — what has a shape has all wider ones.
* `Shape.has_matched` — what a terminal matches has its shape.
* `Suits.string`, `Suits.int` and their like — a value of the right shape is never of the wrong kind.
-/

namespace Planfile

open Plan (Operator ReportKind)

/-- What the value of a symbol or of a rule can be. -/
inductive Shape where
  | any
  /-- No value. -/
  | absent
  | literal (word : String)
  | text
  /-- A text that is not empty. -/
  | name
  /-- The keyword of a report. -/
  | reportWord
  | int
  | number
  | date
  | time
  | unit
  | interval
  | intervalEnd
  | weekDays
  | operand
  | operation
  | expression
  /-- An operator and the operand behind it, if there is one. -/
  | chain
  deriving DecidableEq, Repr

namespace Shape

/-- Whether a value, or none, has a shape. -/
def Has : Shape → Option Value → Prop
  | .any, _ => True
  | .absent, v => v = none
  | .literal word, v => v = some (.str word)
  | .text, v => ∃ s, v = some (.str s)
  | .name, v => ∃ s, v = some (.str s) ∧ s ≠ ""
  | .reportWord, v => ∃ s, v = some (.str s) ∧ (ReportKind.ofWord? s).isSome
  | .int, v => ∃ n, v = some (.int n)
  | .number, v => (∃ n, v = some (.int n)) ∨ ∃ x, v = some (.float x)
  | .date, v => ∃ d, v = some (.date d)
  | .time, v => ∃ n, v = some (.time n)
  | .unit, v => ∃ u, v = some (.unit u)
  | .interval, v => ∃ i, v = some (.interval i)
  | .intervalEnd, v => ∃ e, v = some (.intervalEnd e)
  | .weekDays, v => ∃ days, v = some (.weekDays days)
  | .operand, v => ∃ o, v = some (.operand o)
  | .operation, v => ∃ o, v = some (.operation o)
  | .expression, v => ∃ e, v = some (.expression e)
  | .chain, v => v = none ∨
      ∃ symbol o, v = some (.pair (.str symbol) (.operand o)) ∧ (Operator.ofSymbol? symbol).isSome

/-- Whether all values of a shape have another one. -/
def fits (a b : Shape) : Bool :=
  a == b || match a, b with
    | _, .any | .absent, .chain | .literal _, .text | .name, .text | .int, .number => true
    | .literal word, .reportWord => (ReportKind.ofWord? word).isSome
    | _, _ => false

/-- What has a shape has all wider ones. -/
theorem has_of_fits {a b : Shape} (h : a.fits b = true) {v : Option Value} (hv : a.Has v) :
    b.Has v := by
  unfold fits at h
  rw [Bool.or_eq_true, beq_iff_eq] at h
  rcases h with rfl | h
  · exact hv
  · split at h
    · trivial
    · exact .inl hv
    · exact ⟨_, hv⟩
    · obtain ⟨s, hs, _⟩ := hv
      exact ⟨s, hs⟩
    · exact .inl hv
    · exact ⟨_, hv, h⟩
    · cases h

/-- The shape of a terminal. -/
def ofTerminal : Terminal → Shape
  | .literal word => .literal word
  | .tokenClass .integer => .int
  | .tokenClass .float => .number
  | .tokenClass .date => .date
  | .tokenClass .time => .time
  | .tokenClass _ => .text

/-- The shape of a symbol, where the shapes of rules are known. -/
def ofSymbol (ofRule : RuleId → Shape) : Symbol → Shape
  | .literal word => ofTerminal (.literal word)
  | .tokenClass c => ofTerminal (.tokenClass c)
  | .rule id => ofRule id

/-- A token of a class has the shape of the class. -/
theorem has_ofToken? {token : Token} {c : TokenClass} (h : token.class? = some c) :
    (ofTerminal (.tokenClass c)).Has (Value.ofToken? token) := by
  cases token with
  | id s | idWithColon s | absoluteId s | relativeId s | string s =>
    cases h
    exact ⟨s, rfl⟩
  | integer n =>
    cases h
    exact ⟨n, rfl⟩
  | float x =>
    cases h
    exact .inr ⟨x, rfl⟩
  | date d =>
    cases h
    exact ⟨d, rfl⟩
  | time n =>
    cases h
    exact ⟨n, rfl⟩
  | mark m | comment s | eof => cases h

end Shape

/-! ## Matched patterns -/

/-- Whether the value of every symbol has its shape. -/
def Suits (v : Values) (shapes : List Shape) : Prop :=
  ∀ i, ((shapes[i]?).getD Shape.absent).Has (v.value? i)

/-- Whether the value of a symbol has a shape, as far as the shapes tell. -/
def offers (shapes : List Shape) (i : Nat) (s : Shape) : Bool :=
  ((shapes[i]?).getD Shape.absent).fits s

namespace Suits

variable {v : Values} {shapes : List Shape}

/-- What the shapes tell of a symbol is true of its value. -/
theorem has (hv : Suits v shapes) {i : Nat} {s : Shape} (h : offers shapes i s = true) :
    s.Has (v.value? i) :=
  Shape.has_of_fits h (hv i)

/-- A value is never of the wrong kind if its shape is one that the getter takes. -/
theorem typed (hv : Suits v shapes) {i : Nat} {s : Shape} (h : offers shapes i s = true)
    {take : Value → Option α} (ht : ∀ x, s.Has x → ∃ a, x.bind take = some a) (expected : String) :
    ∃ a, v.typed i expected take = .ok a := by
  obtain ⟨a, ha⟩ := ht _ (hv.has h)
  exact ⟨a, by rw [Values.typed, ha]⟩

/-- A text that is not empty is taken as such. -/
theorem name (hv : Suits v shapes) {i : Nat} (h : offers shapes i .name = true) :
    ∃ s, v.string i = .ok s ∧ s ≠ "" := by
  obtain ⟨s, hs, full⟩ := hv.has h
  exact ⟨s, by rw [Values.string, Values.typed, hs]; rfl, full⟩

/-- The keyword of a report is taken as such. -/
theorem reportWord (hv : Suits v shapes) {i : Nat} (h : offers shapes i .reportWord = true) :
    ∃ s, v.string i = .ok s ∧ (ReportKind.ofWord? s).isSome := by
  obtain ⟨s, hs, known⟩ := hv.has h
  exact ⟨s, by rw [Values.string, Values.typed, hs]; rfl, known⟩

/-- A text is taken as such. -/
theorem string (hv : Suits v shapes) {i : Nat} (h : offers shapes i .text = true) :
    ∃ a, v.string i = .ok a :=
  hv.typed h (by rintro _ ⟨a, rfl⟩; exact ⟨a, rfl⟩) _

/-- An integer is taken as such. -/
theorem int (hv : Suits v shapes) {i : Nat} (h : offers shapes i .int = true) :
    ∃ a, v.int i = .ok a :=
  hv.typed h (by rintro _ ⟨a, rfl⟩; exact ⟨a, rfl⟩) _

/-- A number of either kind is taken as such. -/
theorem number (hv : Suits v shapes) {i : Nat} (h : offers shapes i .number = true) :
    ∃ a, v.number i = .ok a := by
  refine hv.typed h ?_ _
  rintro _ (⟨n, rfl⟩ | ⟨x, rfl⟩)
  · exact ⟨Float.ofInt n, rfl⟩
  · exact ⟨x, rfl⟩

/-- A date is taken as such. -/
theorem date (hv : Suits v shapes) {i : Nat} (h : offers shapes i .date = true) :
    ∃ a, v.date i = .ok a :=
  hv.typed h (by rintro _ ⟨a, rfl⟩; exact ⟨a, rfl⟩) _

/-- A time of day is taken as such. -/
theorem time (hv : Suits v shapes) {i : Nat} (h : offers shapes i .time = true) :
    ∃ a, v.time i = .ok a :=
  hv.typed h (by rintro _ ⟨a, rfl⟩; exact ⟨a, rfl⟩) _

/-- A unit is taken as such. -/
theorem unit (hv : Suits v shapes) {i : Nat} (h : offers shapes i .unit = true) :
    ∃ a, v.unit i = .ok a :=
  hv.typed h (by rintro _ ⟨a, rfl⟩; exact ⟨a, rfl⟩) _

/-- An interval is taken as such. -/
theorem interval (hv : Suits v shapes) {i : Nat} (h : offers shapes i .interval = true) :
    ∃ a, v.interval i = .ok a :=
  hv.typed h (by rintro _ ⟨a, rfl⟩; exact ⟨a, rfl⟩) _

/-- An operand is taken as such. -/
theorem operand (hv : Suits v shapes) {i : Nat} (h : offers shapes i .operand = true) :
    ∃ a, v.operand i = .ok a :=
  hv.typed h (by rintro _ ⟨a, rfl⟩; exact ⟨a, rfl⟩) _

/-- An operation is taken as such. -/
theorem operation (hv : Suits v shapes) {i : Nat} (h : offers shapes i .operation = true) :
    ∃ a, v.operation i = .ok a :=
  hv.typed h (by rintro _ ⟨a, rfl⟩; exact ⟨a, rfl⟩) _

/-- An expression is taken as such. -/
theorem expression (hv : Suits v shapes) {i : Nat} (h : offers shapes i .expression = true) :
    ∃ a, v.expression i = .ok a :=
  hv.typed h (by rintro _ ⟨a, rfl⟩; exact ⟨a, rfl⟩) _

end Suits

end Planfile
