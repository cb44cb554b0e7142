import Planfile.Proofs.Matching.EntryState
import Planfile.Proofs.Words.Derivation

/-!
# Planfile — the statements of a text

A text that is a word of a grammar is made of statements, and a statement encloses those in its body.
`LiveGrammar.Tells` reads them off a derivation. Include statements have given way to the tokens of
their files, so where one could stand there is nothing.

Main results:

* `Forest.headings_append` — statements behind others are entered behind these.
* `Forest.length_headings` — each statement is entered once.
* `Contents.append_assoc` — statements can be read off in parts.
* `LiveGrammar.Tells.append` — the statements of parts are those of the whole.
-/

/-!
## Statements and what they enter

Statements that add tasks or resources stand one behind the other, each with those in its body, so they
make a forest. What each of them enters depends on where it stands: entries are numbered in the order of
the statements, the entry of a statement is below that of the statement around it, and the id of a task
is the path of ids that leads to it.
-/

namespace Planfile

open Plan (PropertyKind ReportKind)

/-- Statements one behind the other, each with the id and the name that it gives and with those in its
body. -/
inductive Forest where
  | nil
  | node (id name : String) (body rest : Forest)
  deriving DecidableEq, Repr

namespace Forest

/-- Statements behind others. -/
protected def append : Forest → Forest → Forest
  | .nil, g => g
  | .node id name body rest, g => .node id name body (rest.append g)

instance : Append Forest := ⟨Forest.append⟩

@[simp] theorem node_append (id name : String) (body rest f : Forest) :
    node id name body rest ++ f = node id name body (rest ++ f) := rfl

@[simp] theorem append_nil (f : Forest) : f ++ nil = f := by
  induction f with
  | nil => rfl
  | node id name body rest _ ih => rw [node_append, ih]

theorem append_assoc (f g h : Forest) : f ++ g ++ h = f ++ (g ++ h) := by
  induction f with
  | nil => rfl
  | node id name body rest _ ih => simp only [node_append, ih]

/-- The number of statements, those in bodies included. -/
def size : Forest → Nat
  | .nil => 0
  | .node _ _ body rest => 1 + body.size + rest.size

/-- The id of the entry of a statement: that of a task below another one is a path. -/
def fullId (kind : PropertyKind) (above : Option String) (id : String) : String :=
  match kind, above with
  | .task, some around => around ++ "." ++ id
  | _, _ => id

/-- The entries of some statements in the order of the statements, where `next` entries stand before
them. The statement around them, if there is one, has an entry with a number and an id. -/
def headings (kind : PropertyKind) : Option (Nat × String) → Nat → Forest → List Heading
  | _, _, .nil => []
  | above, next, .node id name body rest =>
    let full := fullId kind (above.map (·.2)) id
    ⟨full, name, above.map (·.1)⟩ ::
      (headings kind (some (next, full)) (next + 1) body ++
        headings kind above (next + 1 + body.size) rest)

/-- Each statement is entered once. -/
theorem length_headings (kind : PropertyKind) (above : Option (Nat × String)) (next : Nat) (f : Forest) :
    (f.headings kind above next).length = f.size := by
  induction f generalizing above next with
  | nil => rfl
  | node id name body rest ih ih' =>
    simp only [headings, List.length_cons, List.length_append, ih, ih', size]
    omega

/-- Statements behind others are entered behind these. -/
theorem headings_append (kind : PropertyKind) (above : Option (Nat × String)) (next : Nat)
    (f g : Forest) : (f ++ g).headings kind above next =
      f.headings kind above next ++ g.headings kind above (next + f.size) := by
  induction f generalizing next with
  | nil => rfl
  | node id name body rest _ ih =>
    simp only [node_append, headings, ih, size, List.cons_append, List.append_assoc]
    congr 4
    omega

/-- A task inside another one gets a path for its id and is below it, and a task behind both is not. -/
example : (node "a" "A" (node "b" "B" .nil .nil) (node "c" "C" .nil .nil)).headings .task none 0 =
    [⟨"a", "A", none⟩, ⟨"a.b", "B", some 0⟩, ⟨"c", "C", none⟩] := by decide

end Forest

/-! ## Statements of all kinds -/

/-- The statements of a text: those that add tasks, those that add resources, and the kinds and names of
reports. -/
@[ext] structure Contents where
  forest : PropertyKind → Forest
  reports : List (ReportKind × String)

namespace Contents

/-- No statements. -/
def none : Contents := ⟨fun _ => .nil, []⟩

/-- A report. -/
def report (kind : ReportKind) (name : String) : Contents := ⟨fun _ => .nil, [(kind, name)]⟩

/-- A statement that adds a task or a resource, with what is in its body. -/
def enclose (kind : PropertyKind) (id name : String) (body : Contents) : Contents where
  forest other := if other = kind then .node id name (body.forest kind) .nil else body.forest other
  reports := body.reports

theorem forest_enclose (kind : PropertyKind) (id name : String) (body : Contents) :
    (enclose kind id name body).forest kind = .node id name (body.forest kind) .nil :=
  if_pos rfl

theorem forest_enclose_ne {kind other : PropertyKind} (h : other ≠ kind) (id name : String)
    (body : Contents) : (enclose kind id name body).forest other = body.forest other :=
  if_neg h

instance : Append Contents :=
  ⟨fun a b => ⟨fun kind => a.forest kind ++ b.forest kind, a.reports ++ b.reports⟩⟩

@[simp] theorem forest_append (a b : Contents) (kind : PropertyKind) :
    (a ++ b).forest kind = a.forest kind ++ b.forest kind := rfl

@[simp] theorem reports_append (a b : Contents) : (a ++ b).reports = a.reports ++ b.reports := rfl

@[simp] theorem append_none (a : Contents) : a ++ none = a :=
  Contents.ext (funext fun _ => Forest.append_nil _) (List.append_nil _)

/-- Statements can be read off in parts. -/
theorem append_assoc (a b c : Contents) : a ++ b ++ c = a ++ (b ++ c) :=
  Contents.ext (funext fun _ => Forest.append_assoc _ _ _) (List.append_assoc _ _ _)

end Contents

end Planfile

/-! ## The statements of a word -/

namespace Planfile

open Plan (PropertyKind ReportKind)

/-- What the rules of a grammar are for, as far as statements that make entries are concerned. -/
inductive Clause where
  | plain
  /-- An include statement. -/
  | inclusion
  /-- The header of a report. -/
  | report
  /-- A statement that adds a task or a resource: a header and a body. -/
  | statement (kind : PropertyKind)
  /-- The header of such a statement. -/
  | header (kind : PropertyKind)
  deriving DecidableEq

namespace LiveGrammar

/-- The tokens of the header of a statement that adds a task or a resource. -/
def headerText (kind : PropertyKind) (id name : String) : List Token :=
  [.id kind.word, .id id, .string name]

/-- Whether some tokens are a word of some symbols, with some statements in it. -/
inductive Tells (g : LiveGrammar) (clauses : RuleId → Clause) :
    List Symbol → List Token → Contents → Prop
  | nil : Tells g clauses [] [] .none
  | terminal {s : Symbol} {a : Terminal} {token : Token} {symbols : List Symbol} {text : List Token}
    {contents : Contents} (hs : s.terminal? = some a) (fits : a.accepts token = true)
    (rest : Tells g clauses symbols text contents) :
    Tells g clauses (s :: symbols) (token :: text) contents
  | absent {id : RuleId} {symbols : List Symbol} {text : List Token} {contents : Contents}
    (optional : (g.table.rule id).optional = true) (rest : Tells g clauses symbols text contents) :
    Tells g clauses (.rule id :: symbols) text contents
  | once {id : RuleId} {p : Pattern} {symbols : List Symbol} {first text : List Token}
    {inner contents : Contents} (plain : clauses id = .plain) (mem : p ∈ g.patterns id)
    (pattern : Tells g clauses p.symbols first inner) (rest : Tells g clauses symbols text contents) :
    Tells g clauses (.rule id :: symbols) (first ++ text) (inner ++ contents)
  | again {id : RuleId} {p : Pattern} {symbols : List Symbol} {first text : List Token}
    {inner contents : Contents} (plain : clauses id = .plain)
    (repeatable : (g.table.rule id).repeatable = true) (mem : p ∈ g.patterns id)
    (pattern : Tells g clauses p.symbols first inner)
    (rest : Tells g clauses (.rule id :: symbols) text contents) :
    Tells g clauses (.rule id :: symbols) (first ++ text) (inner ++ contents)
  /-- Of an include statement nothing is left. -/
  | included {id : RuleId} {symbols : List Symbol} {text : List Token} {contents : Contents}
    (inclusion : clauses id = .inclusion) (rest : Tells g clauses symbols text contents) :
    Tells g clauses (.rule id :: symbols) text contents
  /-- A report is known from its header. -/
  | report {id : RuleId} {symbols : List Symbol} {text : List Token} {contents : Contents}
    {kind : ReportKind} {name : String} (header : clauses id = .report)
    (heading : g.Derives [.rule id] [.id kind.word, .string name])
    (rest : Tells g clauses symbols text contents) :
    Tells g clauses (.rule id :: symbols) (.id kind.word :: .string name :: text)
      (.report kind name ++ contents)
  /-- A task or a resource encloses what is between its header and its end. -/
  | statement {id : RuleId} {p : Pattern} {header : RuleId} {body symbols : List Symbol}
    {kind : PropertyKind} {own name : String} {first text : List Token} {inner contents : Contents}
    (adds : clauses id = .statement kind) (mem : p ∈ g.patterns id)
    (parts : p.symbols = .rule header :: body) (heads : clauses header = .header kind)
    (heading : g.Derives [.rule header] (headerText kind own name))
    (inside : Tells g clauses body first inner) (rest : Tells g clauses symbols text contents) :
    Tells g clauses (.rule id :: symbols) (headerText kind own name ++ first ++ text)
      (inner.enclose kind own name ++ contents)

namespace Tells

variable {g : LiveGrammar} {clauses : RuleId → Clause}

/-- The statements of parts are those of the whole. -/
theorem append {xs ys : List Symbol} {first second : List Token} {a b : Contents}
    (h : g.Tells clauses xs first a) (hs : g.Tells clauses ys second b) :
    g.Tells clauses (xs ++ ys) (first ++ second) (a ++ b) := by
  induction h with
  | nil => exact hs
  | terminal found fits _ ih => exact .terminal found fits ih
  | absent optional _ ih => exact .absent optional ih
  | once plain mem pattern _ _ ih =>
    rw [List.append_assoc, Contents.append_assoc]
    exact .once plain mem pattern ih
  | again plain repeatable mem pattern _ _ ih =>
    rw [List.append_assoc, Contents.append_assoc]
    exact .again plain repeatable mem pattern ih
  | included inclusion _ ih => exact .included inclusion ih
  | report header heading _ ih =>
    rw [List.cons_append, List.cons_append, Contents.append_assoc]
    exact .report header heading ih
  | statement adds mem parts heads heading inside _ _ ih =>
    rw [List.append_assoc, Contents.append_assoc]
    exact .statement adds mem parts heads heading inside ih

/-- The statements of an alternative are those of the rule. -/
theorem alternative {id : RuleId} {p : Pattern} {text : List Token} {contents : Contents}
    (plain : clauses id = .plain) (mem : p ∈ g.patterns id)
    (h : g.Tells clauses p.symbols text contents) : g.Tells clauses [.rule id] text contents := by
  rw [← List.append_nil text, ← Contents.append_none contents]
  exact .once plain mem h .nil

end Tells

end LiveGrammar

end Planfile
