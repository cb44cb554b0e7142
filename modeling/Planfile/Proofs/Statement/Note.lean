import Planfile.Proofs.Statement.Clause

/-!
# Planfile — the notes of a text

Of most matters a few rules speak, and all others only lead to these. What a text has to say of such a
matter is a list of notes: some rules are notes word by word, and the ends of some alternatives are
notes. `LiveGrammar.Recounts` reads the notes off a derivation. Include statements have given way to the
tokens of their files, so where one could stand there is nothing.

Where a statement has a body, one note stands at its start and one at its end. The notes of a text are
then those of a nest of statements, whatever the rules are between them.

Main results:

* `LiveGrammar.Recounts.append` — the notes of parts are those of the whole.
* `Nest.notes_append` — the notes of statements one behind the other.
* `LiveGrammar.Recounts.exists_nest` — the notes of a word are those of a nest.
-/

/-! ## Notes -/

namespace Planfile

open Matcher

/-- What the rules of a grammar are for, as far as some matter is concerned. -/
structure Concern (α : Type) where
  /-- How the words of a rule are read each of which is a note. -/
  words : RuleId → Option (List Token → α → Prop)
  /-- The note at the end of an alternative with some action. -/
  coda : Action → Option α
  /-- What the alternatives of all other rules may do. -/
  allows : Action → Bool

namespace GrammarTable

/-- Whether a rule is for include statements. -/
def isInclusion (t : GrammarTable) (id : RuleId) : Bool :=
  t.isSingle id && (t.rule id).patterns.all (· == includeStatement)

variable {α : Type} (t : GrammarTable) (concern : Concern α)

/-- Whether the notes of a rule are those of its symbols and the ends of its alternatives. -/
def isPlain (id : RuleId) : Bool := (concern.words id).isNone && !t.isInclusion id

/-- Whether rules that are no notes do what they may. -/
def Attends : Prop :=
  ∀ id, t.isPlain concern id = true → ∀ p, t.Offers id p → ∀ a, p.action = some a → concern.allows a = true

/-- Whether this is found of the rules. -/
def checkAttends : Bool :=
  (List.range t.rules.size).all fun i =>
    !t.isPlain concern ⟨i⟩ || (t.rule ⟨i⟩).patterns.all (·.action.all concern.allows)

variable {t concern}

/-- Where the check passes, rules do what they may, if storing an added attribute is among it. -/
theorem attends_of_check
    (stores : ∀ id kind specific, concern.allows (.extend (.store id kind specific)) = true)
    (h : t.checkAttends concern = true) : t.Attends concern := by
  have checked := @rule_eq_default_or_of_all t
    (fun id => !t.isPlain concern id || (t.rule id).patterns.all (·.action.all concern.allows))
    fun i known => List.all_eq_true.mp h i (List.mem_range.mpr known)
  rintro id plain p (declared | ⟨-, e, -, -, storing⟩) a action
  · rcases checked id with absent | passed
    · rw [absent] at declared
      cases declared
    · rw [plain] at passed
      have found := List.all_eq_true.mp passed p declared
      rwa [action, Option.all_some] at found
  · cases action.symm.trans storing
    exact stores _ _ _

end GrammarTable

namespace LiveGrammar

variable {α : Type}

/-- Whether some tokens are a word of some symbols, with some notes in it. -/
inductive Recounts (g : LiveGrammar) (concern : Concern α) :
    List Symbol → List Token → List α → Prop
  | nil : Recounts g concern [] [] []
  | terminal {s : Symbol} {a : Terminal} {token : Token} {symbols : List Symbol} {text : List Token}
    {notes : List α} (hs : s.terminal? = some a) (fits : a.accepts token = true)
    (rest : Recounts g concern symbols text notes) :
    Recounts g concern (s :: symbols) (token :: text) notes
  | absent {id : RuleId} {symbols : List Symbol} {text : List Token} {notes : List α}
    (optional : (g.table.rule id).optional = true) (rest : Recounts g concern symbols text notes) :
    Recounts g concern (.rule id :: symbols) text notes
  | once {id : RuleId} {p : Pattern} {symbols : List Symbol} {first text : List Token}
    {inner notes : List α} (plain : g.table.isPlain concern id = true) (mem : p ∈ g.patterns id)
    (pattern : Recounts g concern p.symbols first inner)
    (rest : Recounts g concern symbols text notes) :
    Recounts g concern (.rule id :: symbols) (first ++ text)
      (inner ++ (p.action.bind concern.coda).toList ++ notes)
  | again {id : RuleId} {p : Pattern} {symbols : List Symbol} {first text : List Token}
    {inner notes : List α} (plain : g.table.isPlain concern id = true)
    (repeatable : (g.table.rule id).repeatable = true) (mem : p ∈ g.patterns id)
    (pattern : Recounts g concern p.symbols first inner)
    (rest : Recounts g concern (.rule id :: symbols) text notes) :
    Recounts g concern (.rule id :: symbols) (first ++ text)
      (inner ++ (p.action.bind concern.coda).toList ++ notes)
  /-- Of an include statement nothing is left. -/
  | included {id : RuleId} {symbols : List Symbol} {text : List Token} {notes : List α}
    (inclusion : g.table.isInclusion id = true) (rest : Recounts g concern symbols text notes) :
    Recounts g concern (.rule id :: symbols) text notes
  /-- A word of a rule is a note. -/
  | word {id : RuleId} {symbols : List Symbol} {first text : List Token} {notes : List α} {note : α}
    {reads : List Token → α → Prop} (reading : concern.words id = some reads)
    (derived : g.Derives [.rule id] first) (read : reads first note)
    (rest : Recounts g concern symbols text notes) :
    Recounts g concern (.rule id :: symbols) (first ++ text) (note :: notes)

namespace Recounts

variable {g : LiveGrammar} {concern : Concern α}

/-- The notes of parts are those of the whole. -/
theorem append {xs ys : List Symbol} {first second : List Token} {a b : List α}
    (h : g.Recounts concern xs first a) (hs : g.Recounts concern ys second b) :
    g.Recounts concern (xs ++ ys) (first ++ second) (a ++ b) := by
  induction h with
  | nil => exact hs
  | terminal found fits _ ih => exact .terminal found fits ih
  | absent optional _ ih => exact .absent optional ih
  | once plain mem pattern _ _ ih =>
    rw [List.append_assoc, List.append_assoc]
    exact .once plain mem pattern ih
  | again plain repeatable mem pattern _ _ ih =>
    rw [List.append_assoc, List.append_assoc]
    exact .again plain repeatable mem pattern ih
  | included inclusion _ ih => exact .included inclusion ih
  | word reading derived read _ ih =>
    rw [List.append_assoc]
    exact .word reading derived read ih

/-- The notes of an alternative and of its end are those of the rule. -/
theorem alternative {id : RuleId} {p : Pattern} {text : List Token} {notes : List α}
    (plain : g.table.isPlain concern id = true) (mem : p ∈ g.patterns id)
    (h : g.Recounts concern p.symbols text notes) :
    g.Recounts concern [.rule id] text (notes ++ (p.action.bind concern.coda).toList) := by
  rw [← List.append_nil text, ← List.append_nil (notes ++ _)]
  exact .once plain mem h .nil

end Recounts

end LiveGrammar

end Planfile

/-! ## Nests -/

namespace Planfile

/-- A note on statements that have bodies. -/
inductive Note (β γ : Type) where
  /-- A statement starts, and its body is read. -/
  | opens (head : β)
  /-- Something is said in the body that is read. -/
  | tells (s : γ)
  /-- A body has come to its end. -/
  | closes
  deriving DecidableEq, Repr

/-- Statements one behind the other, each with its body, and what is said beside them. -/
inductive Nest (β γ : Type) where
  | nil
  | tells (s : γ) (rest : Nest β γ)
  | node (head : β) (body rest : Nest β γ)
  deriving DecidableEq, Repr

namespace Nest

variable {β γ : Type}

/-- Statements behind others. -/
protected def append : Nest β γ → Nest β γ → Nest β γ
  | .nil, n => n
  | .tells s rest, n => .tells s (rest.append n)
  | .node head body rest, n => .node head body (rest.append n)

instance : Append (Nest β γ) := ⟨Nest.append⟩

@[simp] theorem tells_append (s : γ) (rest n : Nest β γ) : tells s rest ++ n = tells s (rest ++ n) := rfl

@[simp] theorem node_append (head : β) (body rest n : Nest β γ) :
    node head body rest ++ n = node head body (rest ++ n) := rfl

/-- The notes of some statements. -/
def notes : Nest β γ → List (Note β γ)
  | .nil => []
  | .tells s rest => .tells s :: rest.notes
  | .node head body rest => .opens head :: (body.notes ++ .closes :: rest.notes)

/-- The notes of statements one behind the other. -/
theorem notes_append (m n : Nest β γ) : (m ++ n).notes = m.notes ++ n.notes := by
  induction m with
  | nil => rfl
  | tells s rest ih => rw [tells_append, notes, notes, ih, List.cons_append]
  | node head body rest _ ih =>
    rw [node_append, notes, notes, ih, List.cons_append, List.append_assoc, List.cons_append]

section
variable {σ : Type} {step : σ → Note β γ → Option σ} {s t : σ}

/-- What is said comes before what follows. -/
theorem exists_of_run_tells {told : γ} {rest : Nest β γ}
    (run : (tells told rest).notes.foldlM step s = some t) :
    ∃ u, step s (.tells told) = some u ∧ rest.notes.foldlM step u = some t :=
  Option.bind_eq_some_iff.mp run

/-- A statement starts, its body comes, it ends, and then comes what follows. -/
theorem exists_of_run_node {head : β} {body rest : Nest β γ}
    (run : (node head body rest).notes.foldlM step s = some t) :
    ∃ u v w, step s (.opens head) = some u ∧ body.notes.foldlM step u = some v ∧
      step v .closes = some w ∧ rest.notes.foldlM step w = some t := by
  obtain ⟨u, opens, run⟩ := Option.bind_eq_some_iff.mp run
  rw [List.foldlM_append] at run
  obtain ⟨v, within, run⟩ := Option.bind_eq_some_iff.mp run
  obtain ⟨w, closes, run⟩ := Option.bind_eq_some_iff.mp run
  exact ⟨u, v, w, opens, within, closes, run⟩

end

/-- What is said beside the statements, and not in the body of any. -/
def direct : Nest β γ → List γ
  | .nil => []
  | .tells s rest => s :: rest.direct
  | .node _ _ rest => rest.direct

/-- The number of statements with bodies, those in bodies included. -/
def size : Nest β γ → Nat
  | .nil => 0
  | .tells _ rest => rest.size
  | .node _ body rest => 1 + body.size + rest.size

end Nest

/-! ## Where bodies start and end -/

section
variable {β γ : Type} (starts : RuleId → Bool)

/-- Whether no rule that starts a statement is among some symbols. -/
def startless (symbols : List Symbol) : Bool :=
  symbols.all fun s => match s with
    | .rule id => !starts id
    | _ => true

/-- Whether an alternative goes in and out of bodies as it should: it starts a statement and ends it, or
does neither. -/
def Concern.nests (concern : Concern (Note β γ)) (p : Pattern) : Bool :=
  match p.action.bind concern.coda with
  | some (.opens _) => false
  | some .closes =>
    match p.symbols with
    | .rule start :: body => starts start && startless starts body
    | _ => false
  | _ => startless starts p.symbols

/-- Whether statements start and end in pairs in a grammar: a rule that starts one is a note that says
so, and no other rule is one. -/
structure LiveGrammar.Nests (g : LiveGrammar) (concern : Concern (Note β γ)) : Prop where
  opens : ∀ id, starts id = true → ∀ reads, concern.words id = some reads → ∀ text note,
    reads text note → ∃ head, note = .opens head
  tells : ∀ id, starts id = false → ∀ reads, concern.words id = some reads → ∀ text note,
    reads text note → ∃ s, note = .tells s
  words : ∀ id, starts id = true → (concern.words id).isSome = true
  single : ∀ id, starts id = true → g.table.isSingle id = true
  present : ∀ id, starts id = true → g.table.isInclusion id = false
  patterns : ∀ id, g.table.isPlain concern id = true → ∀ p ∈ g.patterns id,
    concern.nests starts p = true

variable {starts} {g : LiveGrammar} {concern : Concern (Note β γ)}

/-- A rule that is no note starts no statement. -/
theorem LiveGrammar.Nests.not_starts (h : g.Nests starts concern) {id : RuleId}
    (plain : g.table.isPlain concern id = true) : starts id = false := by
  by_contra other
  have isWord := h.words id (by simpa using other)
  rw [GrammarTable.isPlain, Option.isNone_eq_false_iff.mpr isWord] at plain
  cases plain

/-- Whether some notes are those of a nest. -/
def IsNested (notes : List (Note β γ)) : Prop := ∃ n : Nest β γ, notes = n.notes

theorem IsNested.append {a b : List (Note β γ)} (ha : IsNested a) (hb : IsNested b) :
    IsNested (a ++ b) := by
  obtain ⟨m, rfl⟩ := ha
  obtain ⟨n, rfl⟩ := hb
  exact ⟨m ++ n, (m.notes_append n).symm⟩

/-- Whether some notes go into one body more than they leave. -/
def IsStarted (notes : List (Note β γ)) : Prop := ∃ head, ∃ n : Nest β γ, notes = .opens head :: n.notes

/-- An alternative with its end is nested, if its symbols are whatever they can be. -/
theorem Concern.isNested_of_nests {p : Pattern} (h : concern.nests starts p = true)
    {inner : List (Note β γ)} (nested : startless starts p.symbols = true → IsNested inner)
    (started : ∀ start body, p.symbols = .rule start :: body → starts start = true →
      startless starts body = true → IsStarted inner) :
    IsNested (inner ++ (p.action.bind concern.coda).toList) := by
  unfold nests at h
  split at h
  · cases h
  · next closes =>
    split at h
    · next start body parts =>
      obtain ⟨starting, others⟩ := Bool.and_eq_true_iff.mp h
      obtain ⟨head, n, rfl⟩ := started start body parts starting others
      rw [closes]
      exact ⟨.node head n .nil, rfl⟩
    · cases h
  · next opening closing =>
    refine (nested h).append ?_
    rcases coda : p.action.bind concern.coda with _ | note
    · exact ⟨.nil, rfl⟩
    · cases note with
      | opens head => exact absurd coda (opening head)
      | closes => exact absurd coda closing
      | tells s => exact ⟨.tells s .nil, rfl⟩

/-- The notes of a word are nested, but that of symbols the first of which starts a statement, a body is
left that has not come to its end. -/
theorem LiveGrammar.Recounts.nested (h : g.Nests starts concern) {symbols : List Symbol}
    {text : List Token} {notes : List (Note β γ)} (told : g.Recounts concern symbols text notes) :
    (startless starts symbols = true → IsNested notes) ∧
      ∀ start body, symbols = .rule start :: body → starts start = true →
        startless starts body = true → IsStarted notes := by
  -- by the derivation; the second part is for alternatives whose end goes out of the body that they start
  induction told with
  | nil => exact ⟨fun _ => ⟨.nil, rfl⟩, fun _ _ same => by cases same⟩
  | terminal hs _ _ ih =>
    refine ⟨fun none => ih.1 (Bool.and_eq_true_iff.mp none).2, fun _ _ same => ?_⟩
    cases same
    cases hs
  | absent optional _ ih =>
    refine ⟨fun none => ih.1 (Bool.and_eq_true_iff.mp none).2, fun _ _ same starting => ?_⟩
    cases same
    -- a rule that starts a statement has to be there
    rw [GrammarTable.optional_of_isSingle (h.single _ starting)] at optional
    cases optional
  | once plain mem _ _ ih ih' =>
    have piece := Concern.isNested_of_nests (h.patterns _ plain _ mem) ih.1 ih.2
    refine ⟨fun none => piece.append (ih'.1 (Bool.and_eq_true_iff.mp none).2),
      fun _ _ same starting => ?_⟩
    cases same
    rw [h.not_starts plain] at starting
    cases starting
  | again plain _ mem _ _ ih ih' =>
    have piece := Concern.isNested_of_nests (h.patterns _ plain _ mem) ih.1 ih.2
    refine ⟨fun none => piece.append (ih'.1 none), fun _ _ same starting => ?_⟩
    cases same
    rw [h.not_starts plain] at starting
    cases starting
  | included inclusion _ ih =>
    refine ⟨fun none => ih.1 (Bool.and_eq_true_iff.mp none).2, fun _ _ same starting => ?_⟩
    cases same
    rw [h.present _ starting] at inclusion
    cases inclusion
  | @word id _ _ _ _ _ _ reading _ read _ ih =>
    -- either it says something in the body that is read, or it goes into one
    refine ⟨fun none => ?_, fun _ _ same starting others => ?_⟩
    · obtain ⟨first, others⟩ := Bool.and_eq_true_iff.mp none
      obtain ⟨s, rfl⟩ := h.tells id (by simpa using first) _ reading _ _ read
      obtain ⟨n, rfl⟩ := ih.1 others
      exact ⟨.tells s n, rfl⟩
    · cases same
      obtain ⟨head, rfl⟩ := h.opens _ starting _ reading _ _ read
      obtain ⟨n, rfl⟩ := ih.1 others
      exact ⟨head, n, rfl⟩

/-! ## Checking a grammar -/

/-- Whether the rules of a table are found to start and end statements in pairs. -/
def GrammarTable.checkPairs (t : GrammarTable) (starts : RuleId → Bool)
    (concern : Concern (Note β γ)) : Bool :=
  (List.range t.rules.size).all fun i =>
    (!starts ⟨i⟩ || ((concern.words ⟨i⟩).isSome && t.isSingle ⟨i⟩ && !t.isInclusion ⟨i⟩)) &&
      (!t.isPlain concern ⟨i⟩ || (t.rule ⟨i⟩).patterns.all (concern.nests starts))

/-- Where the check passes, the rules start and end statements in pairs, and so they do where a plan has
added what it can, if an added attribute has to do with neither. -/
theorem LiveGrammar.nests_of_check {t : GrammarTable} (h : t.checkPairs starts concern = true)
    (opens : ∀ id, starts id = true → ∀ reads, concern.words id = some reads → ∀ text note,
      reads text note → ∃ head, note = .opens head)
    (tells : ∀ id, starts id = false → ∀ reads, concern.words id = some reads → ∀ text note,
      reads text note → ∃ s, note = .tells s)
    (known : ∀ id, starts id = true → t.rule id ≠ default)
    {reference : RuleId} (body : t.ruleId? "referenceBody" = some reference)
    (other : starts reference = false)
    (stores : ∀ id kind specific, concern.coda (.extend (.store id kind specific)) = none)
    {added : List (RuleId × Pattern)}
    (offers : ∀ id, ∀ p ∈ LiveGrammar.patterns ⟨t, added⟩ id, t.Offers id p) :
    LiveGrammar.Nests starts ⟨t, added⟩ concern := by
  have checked := @GrammarTable.rule_eq_default_or_of_all t
    (fun id => (!starts id || ((concern.words id).isSome && t.isSingle id && !t.isInclusion id)) &&
      (!t.isPlain concern id || (t.rule id).patterns.all (concern.nests starts)))
    fun i known => List.all_eq_true.mp h i (List.mem_range.mpr known)
  have start {id : RuleId} (starting : starts id = true) : (concern.words id).isSome = true ∧
      t.isSingle id = true ∧ t.isInclusion id = false := by
    have passed := (checked id).resolve_left (known id starting)
    simpa [starting, and_assoc] using (Bool.and_eq_true_iff.mp passed).1
  refine ⟨opens, tells, fun id starting => (start starting).1, fun id starting => (start starting).2.1,
    fun id starting => (start starting).2.2, fun id plain p mem => ?_⟩
  rcases offers id p mem with declared | ⟨-, e, full, resolved, storing⟩
  · rcases checked id with absent | passed
    · rw [absent] at declared
      cases declared
    · have all := (Bool.and_eq_true_iff.mp passed).2
      rw [plain] at all
      exact List.all_eq_true.mp all p declared
  · -- of the symbols of an added attribute only the body of a reference is a rule
    rw [e.mapM_symbols full body] at resolved
    have coda : p.action.bind concern.coda = none := by
      rw [storing]
      exact stores _ _ _
    rw [Concern.nests, coda, ← Except.ok.inj resolved]
    unfold AttributeExtension.tailSymbols
    cases e.kind <;> simp [startless, other]

/-- The notes of a word are those of a nest. -/
theorem LiveGrammar.Recounts.exists_nest (h : g.Nests starts concern) {id : RuleId} {text : List Token}
    {notes : List (Note β γ)} (other : starts id = false)
    (told : g.Recounts concern [.rule id] text notes) : ∃ n : Nest β γ, notes = n.notes :=
  (told.nested h).1 (by simp [startless, other])

end

end Planfile
