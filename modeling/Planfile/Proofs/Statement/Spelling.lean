import Planfile.Proofs.Statement.Clause

/-!
# Planfile — how lists are read

Much of what a statement says is read by rules that do nothing but give its value: single words, things one
after the other, and lists with commas. The rules above put the values together until the action of the
statement finds them. Here it is said what it means that a rule reads texts about some things and gives their
values, and it is shown for repetitions and for lists, whatever their elements are.

Main results:

* `Course.strung_of_rule` — a repeated rule reads one thing after the other.
* `Spells.commaList` — a list with commas is read element by element.
* `Course.readsWord` — rules that only look read a word, and do nothing else.
-/

namespace Planfile

open Matcher

/-! ## Texts -/

/-- Things one after the other. -/
inductive Strung {α : Type} (writes : α → List Token → Prop) : List α → List Token → Prop
  | nil : Strung writes [] []
  | cons {x : α} {xs : List α} {text behind : List Token} (first : writes x text)
    (rest : Strung writes xs behind) : Strung writes (x :: xs) (text ++ behind)

/-- Things one after the other, with commas between them. -/
inductive Listed {α : Type} (writes : α → List Token → Prop) : List α → List Token → Prop
  | last {x : α} {text : List Token} (first : writes x text) : Listed writes [x] text
  | more {x : α} {xs : List α} {text behind : List Token} {comma : Token} (first : writes x text)
    (isComma : comma.matchesLiteral "," = true) (rest : Listed writes xs behind) :
    Listed writes (x :: xs) (text ++ comma :: behind)

/-- Something behind a comma. -/
inductive BehindComma {α : Type} (writes : α → List Token → Prop) : α → List Token → Prop
  | comma {x : α} {text : List Token} {comma : Token} (isComma : comma.matchesLiteral "," = true)
    (own : writes x text) : BehindComma writes x (comma :: text)

/-- A list is its first element with others behind commas. -/
theorem Strung.listed {α : Type} {writes : α → List Token → Prop} {xs : List α} {text : List Token}
    (rest : Strung (BehindComma writes) xs text) {x : α} {own : List Token} (first : writes x own) :
    Listed writes (x :: xs) (own ++ text) := by
  induction rest generalizing x own with
  | nil => simpa using .last first
  | cons next _ ih =>
    obtain ⟨isComma, own'⟩ := next
    exact .more first isComma (ih own')

/-! ## Reading -/

/-- Whether some tokens have been read on the way from one state to another, and nothing else has been
done. -/
structure Context.Reads (c : Context) (text : List Token) (d : Context) : Prop where
  reads : c.tokens.Reads text d.tokens
  same : ∃ tokens journal depth stop, d = { c with tokens, journal, depth, stop }

namespace Context.Reads

variable {c d e : Context} {text behind : List Token}

/-- Nothing has been read yet. -/
theorem refl (c : Context) (journal : Log.Journal) (depth : Nat) (stop : Option StopMark) :
    c.Reads [] { c with journal, depth, stop } :=
  ⟨.done _, _, _, _, _, rfl⟩

/-- What is no token can be other, before and behind. -/
theorem noise {journal : Log.Journal} {depth : Nat} {stop : Option StopMark}
    (h : Context.Reads { c with journal, depth, stop } text d) (journal' : Log.Journal) (depth' : Nat)
    (stop' : Option StopMark) : c.Reads text { d with journal := journal', depth := depth', stop := stop' } := by
  obtain ⟨reads, _, _, _, _, rfl⟩ := h
  exact ⟨reads, _, _, _, _, rfl⟩

/-- A token that a terminal accepts is read. -/
theorem next {a : Terminal} (fits : a.accepts c.tokens.peek = true) (env : Surroundings) :
    c.Reads [c.tokens.peek] (c.next env) := by
  obtain ⟨token, same, read⟩ := advance_of_isEof (Terminal.isEof_of_accepts fits)
  exact ⟨same ▸ .single read, _, _, c.depth, c.stop, rfl⟩

/-- Reading goes on where it has stopped. -/
theorem append (h : c.Reads text d) (hd : d.Reads behind e) : c.Reads (text ++ behind) e := by
  obtain ⟨reads, _, _, _, _, rfl⟩ := h
  obtain ⟨others, _, _, _, _, rfl⟩ := hd
  exact ⟨reads.append others, _, _, _, _, rfl⟩

end Context.Reads

section
variable {α : Type} (ofRule : RuleId → Shape) (effects : Effects) (env : Surroundings)

/-- Whether a rule reads texts about some things, and does nothing but give their values. -/
def Spells (id : RuleId) (writes : α → List Token → Prop) (value : α → Option Value) : Prop :=
  ∀ {c v d}, Course ofRule effects env (.rule id) c v d → ∃ x text, writes x text ∧ v = value x ∧
    c.Reads text d ∧ ∀ added, LiveGrammar.Derives ⟨env.grammar, added⟩ [.rule id] text

/-- Whether an alternative does so. -/
def Pattern.Spells (p : Pattern) (writes : α → List Token → Prop) (value : α → Option Value) : Prop :=
  ∀ {c v d}, Course ofRule effects env (.pattern p) c v d → ∃ x text, writes x text ∧ v = value x ∧
    c.Reads text d ∧ ∀ added, LiveGrammar.Derives ⟨env.grammar, added⟩ p.symbols text

end

/-! ## Forms of rules -/

/-- What stands in a place of an alternative: a terminal, or a rule of some form. -/
inductive Piece where
  | terminal (s : Symbol)
  | rule (isForm : RuleId → Bool)

/-- Whether a symbol can stand in a place. -/
def Piece.fits : Piece → Symbol → Bool
  | .terminal s, t => s == t
  | .rule isForm, .rule id => isForm id
  | .rule _, _ => false

namespace GrammarTable

/-- Whether an alternative has some pieces with some action behind them. -/
def isForm (pieces : List Piece) (action : Action) (p : Pattern) : Bool :=
  p.action == some action && p.symbols.length == pieces.length &&
    (pieces.zip p.symbols).all fun (piece, s) => piece.fits s

/-- Whether a rule may be absent and may stand for some alternatives again and again. -/
def isRepeated (t : GrammarTable) (admits : Pattern → Bool) (id : RuleId) : Bool :=
  (t.rule id).optional && (t.rule id).repeatable && !extendableNames.contains (t.rule id).name &&
    (t.rule id).patterns.all admits

/-- Whether a rule may be absent and else stands for one of some alternatives. -/
def isMaybe (t : GrammarTable) (admits : Pattern → Bool) (id : RuleId) : Bool :=
  !(t.rule id).repeatable && !extendableNames.contains (t.rule id).name && (t.rule id).patterns.all admits

/-- Whether a rule is repeated to read the elements of a list behind the first one. -/
def isMore (t : GrammarTable) (isElement : RuleId → Bool) (id : RuleId) : Bool :=
  t.isRepeated (isForm [.terminal (.literal ","), .rule isElement] (.value 1)) id

/-- Whether a rule is for a list with commas. -/
def isCommaList (t : GrammarTable) (isElement : RuleId → Bool) (id : RuleId) : Bool :=
  t.isSingle id && (t.rule id).patterns.all
    (isForm [.rule isElement, .rule (t.isMore isElement)] .collect)

end GrammarTable

open GrammarTable (isForm)

theorem Piece.eq_of_fits {s t : Symbol} (h : (Piece.terminal s).fits t = true) : t = s :=
  (beq_iff_eq.mp h).symm

theorem Piece.exists_of_fits {isForm : RuleId → Bool} {t : Symbol} (h : (Piece.rule isForm).fits t = true) :
    ∃ id, t = .rule id ∧ isForm id = true := by
  cases t with
  | rule id => exact ⟨id, rfl, h⟩
  | _ => cases h

/-- The symbols of an alternative stand in the places of its form. -/
theorem GrammarTable.exists_of_isForm {pieces : List Piece} {action : Action} {p : Pattern}
    (h : isForm pieces action p = true) : ∃ symbols, p = ⟨symbols, some action⟩ ∧
      List.Forall₂ (fun (piece : Piece) s => piece.fits s = true) pieces symbols := by
  obtain ⟨symbols, a⟩ := p
  simp only [isForm, Bool.and_eq_true, beq_iff_eq] at h
  obtain ⟨⟨rfl, length⟩, fits⟩ := h
  refine ⟨symbols, rfl, List.forall₂_iff_zip.mpr ⟨length.symm, fun mem => ?_⟩⟩
  exact List.all_eq_true.mp fits _ mem

section
variable {ofRule : RuleId → Shape} {effects : Effects} {env : Surroundings} {c d : Context} {id : RuleId}

/-- To a rule that is not for attributes no plan can add an alternative. -/
theorem GrammarTable.Offers.mem_of_name {t : GrammarTable} {p : Pattern}
    (fixed : extendableNames.contains (t.rule id).name = false) (offered : t.Offers id p) :
    p ∈ (t.rule id).patterns := by
  rcases offered with declared | ⟨extendable, -⟩
  · exact declared
  · exact absurd extendable (not_isExtendable_of_name fixed)

/-- One alternative of a rule has been matched, with the action at its end. -/
theorem Course.of_single {admits : Pattern → Bool}
    (h : (env.grammar.isSingle id && (env.grammar.rule id).patterns.all admits) = true) {v : Option Value}
    (course : Course ofRule effects env (.rule id) c v d) :
    ∃ p noted x, admits p = true ∧ d = { x with depth := x.depth - 1 } ∧
      (∀ added, p ∈ LiveGrammar.patterns ⟨env.grammar, added⟩ id) ∧
      Course ofRule effects env (.pattern p) { c with depth := c.depth + 1, journal := noted } v x := by
  obtain ⟨single, forms⟩ := Bool.and_eq_true_iff.mp h
  obtain ⟨p, noted, x, mem, rfl, inner⟩ := course.of_isSingle single
  exact ⟨p, noted, x, List.all_eq_true.mp forms p mem, rfl, fun _ => List.mem_append_left _ mem, inner⟩

/-- Nothing has been matched, or one alternative with the action at its end. -/
theorem Course.of_isMaybe {admits : Pattern → Bool} (form : env.grammar.isMaybe admits id = true)
    {v : Option Value} (course : Course ofRule effects env (.rule id) c v d) :
    (v = none ∧ c.Reads [] d ∧ ∀ added, LiveGrammar.Derives ⟨env.grammar, added⟩ [.rule id] []) ∨
      ∃ p noted x, admits p = true ∧ d = { x with depth := x.depth - 1 } ∧
        (∀ added, p ∈ LiveGrammar.patterns ⟨env.grammar, added⟩ id) ∧
        Course ofRule effects env (.pattern p) { c with depth := c.depth + 1, journal := noted } v x := by
  simp only [GrammarTable.isMaybe, Bool.and_eq_true, Bool.not_eq_true', List.all_eq_true, and_assoc] at form
  obtain ⟨single, fixed, forms⟩ := form
  cases course with
  | repeated repeatable _ =>
    rw [single] at repeatable
    cases repeatable
  | absent optional choice =>
    obtain ⟨⟨journal, rfl⟩, -⟩ := exists_of_run_choose choice
    exact .inl ⟨rfl, .refl _ _ _ _, fun _ => .absent optional .nil⟩
  | once choice offered inner =>
    obtain ⟨⟨journal, rfl⟩, -⟩ := exists_of_run_choose choice
    have mem := offered.mem_of_name fixed
    exact .inr ⟨_, _, _, forms _ mem, rfl, fun _ => List.mem_append_left _ mem, inner⟩

section
variable {α : Type} {writes : α → List Token → Prop} {value : α → Value}

/-! ## Repetitions -/

theorem GrammarTable.parts_of_isRepeated {t : GrammarTable} {admits : Pattern → Bool}
    (h : t.isRepeated admits id = true) : (t.rule id).optional = true ∧ (t.rule id).repeatable = true ∧
      extendableNames.contains (t.rule id).name = false ∧ ∀ p ∈ (t.rule id).patterns, admits p = true := by
  simpa only [isRepeated, Bool.and_eq_true, Bool.not_eq_true', List.all_eq_true, and_assoc] using h

/-- What has been read by a part that is a repetition: one thing after the other. -/
def Part.ReadsStrung (t : GrammarTable) (admits : Pattern → Bool) (writes : α → List Token → Prop)
    (value : α → Value) : (part : Part) → Context → part.Outcome → Context → Prop
  | .repetition id _, c, values, d => t.isRepeated admits id = true → ∃ xs text, values = xs.map value ∧
    Strung writes xs text ∧ c.Reads text d ∧ ∀ added, LiveGrammar.Derives ⟨t, added⟩ [.rule id] text
  | _, _, _, _ => True

section
variable {admits : Pattern → Bool}
  (each : ∀ p, admits p = true → p.Spells ofRule effects env writes fun x => some (value x))

include each

/-- What is repeated is read one after the other. -/
theorem Course.readsStrung {part : Part} {o : part.Outcome} (course : Course ofRule effects env part c o d) :
    part.ReadsStrung env.grammar admits writes value c o d := by
  induction course with
  | stop choice =>
    intro form
    obtain ⟨⟨journal, rfl⟩, -⟩ := exists_of_run_choose choice
    exact ⟨[], [], rfl, .nil, .refl _ _ _ _, fun _ => .absent (GrammarTable.parts_of_isRepeated form).1 .nil⟩
  | @next id mayStop c x y d p v values choice offered first _ _ ih =>
    intro form
    obtain ⟨⟨journal, rfl⟩, -⟩ := exists_of_run_choose choice
    obtain ⟨xs, text, rfl, strung, others, words⟩ := ih form
    obtain ⟨-, repeatable, fixed, forms⟩ := GrammarTable.parts_of_isRepeated form
    have mem := offered.mem_of_name fixed
    obtain ⟨z, own, written, rfl, reads, word⟩ := each p (forms p mem) first
    exact ⟨z :: xs, own ++ text, rfl, .cons written strung,
      (reads.noise (c := c) y.journal y.depth y.stop).append others,
      fun added => .again repeatable (List.mem_append_left _ mem) (word added) (words added)⟩
  | _ => trivial

variable (flat : ∀ x, (value x).items = [value x])

include flat

/-- A repeated rule reads one thing after the other, if there are any. -/
theorem Course.strung_of_rule (form : env.grammar.isRepeated admits id = true) {v : Option Value}
    (course : Course ofRule effects env (.rule id) c v d) :
    ∃ xs text, (v.map (·.items)).getD [] = xs.map value ∧ Strung writes xs text ∧ c.Reads text d ∧
      ∀ added, LiveGrammar.Derives ⟨env.grammar, added⟩ [.rule id] text := by
  obtain ⟨-, -, fixed, forms⟩ := GrammarTable.parts_of_isRepeated form
  cases course with
  | repeated _ inner =>
    obtain ⟨xs, text, rfl, strung, reads, words⟩ := inner.readsStrung each form
    exact ⟨xs, text, by rw [items_collected, List.reverse_reverse], strung, reads.noise (c := c) _ _ _, words⟩
  | absent optional choice =>
    obtain ⟨⟨journal, rfl⟩, -⟩ := exists_of_run_choose choice
    exact ⟨[], [], rfl, .nil, .refl _ _ _ _, fun _ => .absent optional .nil⟩
  | once choice offered inner =>
    obtain ⟨⟨journal, rfl⟩, -⟩ := exists_of_run_choose choice
    have mem := offered.mem_of_name fixed
    obtain ⟨z, own, written, rfl, reads, word⟩ := each _ (forms _ mem) inner
    refine ⟨[z], own, flat z, ?_, reads.noise (c := c) _ _ _,
      fun added => .alternative (List.mem_append_left _ mem) (word added)⟩
    simpa using Strung.cons written .nil

end

/-! ## Lists with commas -/

variable {isElement : RuleId → Bool} (element : ∀ id, isElement id = true →
  Spells ofRule effects env id writes fun x => some (value x))

include element

/-- A further element is read behind a comma. -/
theorem Spells.further {p : Pattern}
    (form : isForm [.terminal (.literal ","), .rule isElement] (.value 1) p = true) :
    p.Spells ofRule effects env (BehindComma writes) fun x => some (value x) := by
  intro c v d course
  obtain ⟨_, rfl, fits⟩ := GrammarTable.exists_of_isForm form
  rcases fits with _ | ⟨first, _ | ⟨second, ⟨⟩⟩⟩
  obtain rfl := Piece.eq_of_fits first
  obtain ⟨id, rfl, isElement⟩ := Piece.exists_of_fits second
  obtain ⟨items, y, journal, matchRule, symbols, -, acted⟩ := course.of_acting rfl
  cases symbols with
  | terminal hs isComma rest =>
    cases hs
    cases rest with
    | terminal hs => cases hs
    | reference inner rest =>
      cases rest
      obtain ⟨x, text, written, rfl, reads, word⟩ := element id isElement inner
      cases acted
      refine ⟨x, _, .comma isComma written, rfl, ?_, fun added => .terminal rfl isComma (word added)⟩
      exact ((Context.Reads.next isComma env).append reads).noise journal _ _

/-- A list with commas is read element by element. -/
theorem Spells.commaList (flat : ∀ x, (value x).items = [value x])
    (list : env.grammar.isCommaList isElement id = true) :
    Spells ofRule effects env id (Listed writes) fun xs => some (.list (xs.map value)) := by
  intro c v d course
  obtain ⟨p, noted, x, form, rfl, mem, inner⟩ := course.of_single list
  obtain ⟨_, rfl, fits⟩ := GrammarTable.exists_of_isForm form
  rcases fits with _ | ⟨first, _ | ⟨second, ⟨⟩⟩⟩
  obtain ⟨one, rfl, isElement⟩ := Piece.exists_of_fits first
  obtain ⟨many, rfl, isMore⟩ := Piece.exists_of_fits second
  obtain ⟨items, y, journal, matchRule, symbols, -, acted⟩ := inner.of_acting rfl
  cases symbols with
  | terminal hs => cases hs
  | reference head rest =>
    obtain ⟨x, text, written, rfl, reads, word⟩ := element one isElement head
    cases rest with
    | terminal hs => cases hs
    | reference others rest =>
      cases rest
      -- behind the first element each one has its comma
      obtain ⟨xs, behind, values, strung, others, words⟩ :=
        others.strung_of_rule (fun _ => Spells.further element) flat isMore
      cases acted
      exact ⟨x :: xs, text ++ behind, strung.listed written,
        congrArg (fun others => some (Value.list (value x :: others))) values,
        (reads.append others).noise (c := c) _ _ _,
        fun added => .alternative (mem added) ((word added).append (words added))⟩

end

/-! ## Rules that only look -/

variable {inside : RuleId → Bool}

/-- Whether some rules refer to none but themselves, do nothing but look, and are such that no plan can add an
alternative to them. -/
def GrammarTable.Looks (t : GrammarTable) (inside : RuleId → Bool) : Prop :=
  ∀ id, inside id = true → extendableNames.contains (t.rule id).name = false ∧
    ∀ p ∈ (t.rule id).patterns, p.isWithin inside Action.isReadOnly = true

/-- Whether this is found of the rules. -/
def GrammarTable.checkLooks (t : GrammarTable) (inside : RuleId → Bool) : Bool :=
  (List.range t.rules.size).all fun i => !inside ⟨i⟩ || (!extendableNames.contains (t.rule ⟨i⟩).name &&
    (t.rule ⟨i⟩).patterns.all (·.isWithin inside Action.isReadOnly))

/-- Where the check passes, the rules do nothing but look. -/
theorem GrammarTable.looks_of_check {t : GrammarTable} (h : t.checkLooks inside = true) : t.Looks inside := by
  intro id mem
  have checked := @rule_eq_default_or_of_all t
    (fun id => !inside id || (!extendableNames.contains (t.rule id).name &&
      (t.rule id).patterns.all (·.isWithin inside Action.isReadOnly)))
    (fun i known => List.all_eq_true.mp h i (List.mem_range.mpr known)) id
  rcases checked with absent | passed
  · rw [absent]
    exact ⟨by decide, fun p mem => nomatch mem⟩
  · rw [mem] at passed
    simpa using passed

/-- Where an action only looks, nothing but the journal can be other behind it. -/
theorem Matcher.eq_of_run_performed {p : Pattern} (readOnly : p.action.all Action.isReadOnly = true)
    {matchRule : RuleId → Matcher (Option Value)} {location : Location} {items : List MatchedValue}
    {o : Option Value} (run : performed matchRule p location items env c = (.ok o, d)) :
    ∃ journal, d = { c with journal } := by
  rcases cases_of_run_performed run with ⟨-, ⟨⟩, rfl⟩ | ⟨a, journal, action, run⟩
  · exact ⟨c.journal, rfl⟩
  · rw [action, Option.all_some] at readOnly
    have keeps : Keeps (fun c : Context => { c with journal := .silent }) (a.perform matchRule ⟨items, location⟩) :=
      a.keeps_of_isReadOnly _ (fun _ _ => rfl) readOnly matchRule
    have same := (keeps env { c with journal }).of_ok run
    exact ⟨d.journal, congrArg (fun x : Context => { x with journal := d.journal }) same⟩

/-- Whether some symbols have been read on the way from one state to another, and nothing else has been done. -/
def Context.ReadsWord (t : GrammarTable) (symbols : List Symbol) (c d : Context) : Prop :=
  ∃ text, c.Reads text d ∧ ∀ added, LiveGrammar.Derives ⟨t, added⟩ symbols text

/-- What has been read by a part that consists of some rules. -/
def Part.ReadsWord (t : GrammarTable) (inside : RuleId → Bool) : Part → Context → Context → Prop
  | .rule id, c, d => inside id = true → c.ReadsWord t [.rule id] d
  | .repetition id mayStop, c, d => inside id = true → (t.rule id).repeatable = true →
    c.ReadsWord t [.rule id] d ∨ mayStop = true ∧ c.ReadsWord t [] d
  | .pattern p, c, d => p.isWithin inside Action.isReadOnly = true → c.ReadsWord t p.symbols d
  | .symbols ss, c, d => ss.all (·.isWithin inside) = true → c.ReadsWord t ss d

/-- Rules that only look read a word, and do nothing else. -/
theorem Course.readsWord (looks : env.grammar.Looks inside) {part : Part} {o : part.Outcome}
    (course : Course ofRule effects env part c o d) : part.ReadsWord env.grammar inside c d := by
  induction course with
  | @repeated _ c _ _ repeatable _ ih =>
    intro mem
    rcases ih mem repeatable with ⟨text, reads, word⟩ | ⟨optional, text, reads, word⟩
    · exact ⟨text, reads.noise (c := c) _ _ _, word⟩
    · exact ⟨text, reads.noise (c := c) _ _ _, fun added => .absent optional (word added)⟩
  | absent optional choice =>
    intro _
    obtain ⟨⟨journal, rfl⟩, -⟩ := exists_of_run_choose choice
    exact ⟨[], .refl _ _ _ _, fun _ => .absent optional .nil⟩
  | @once _ c _ _ _ _ choice offered _ ih =>
    intro mem
    obtain ⟨⟨journal, rfl⟩, -⟩ := exists_of_run_choose choice
    obtain ⟨fixed, forms⟩ := looks _ mem
    have declared := offered.mem_of_name fixed
    obtain ⟨text, reads, word⟩ := ih (forms _ declared)
    exact ⟨text, reads.noise (c := c) _ _ _,
      fun added => .alternative (List.mem_append_left _ declared) (word added)⟩
  | stop choice =>
    intro _ _
    obtain ⟨⟨journal, rfl⟩, -⟩ := exists_of_run_choose choice
    exact .inr ⟨rfl, [], .refl _ _ _ _, fun _ => .nil⟩
  | @next id mayStop c x y d p v values choice offered first _ ih ih' =>
    intro mem repeatable
    obtain ⟨⟨journal, rfl⟩, -⟩ := exists_of_run_choose choice
    obtain ⟨fixed, forms⟩ := looks _ mem
    have declared := offered.mem_of_name fixed
    have inForce (added : List (RuleId × Pattern)) : p ∈ LiveGrammar.patterns ⟨env.grammar, added⟩ id :=
      List.mem_append_left _ declared
    obtain ⟨text, reads, word⟩ := ih (forms _ declared)
    have own := reads.noise (c := c) y.journal y.depth y.stop
    -- behind it are further repetitions, or it was the last one
    rcases ih' mem repeatable with ⟨behind, others, words⟩ | ⟨-, behind, others, words⟩
    · exact .inl ⟨text ++ behind, own.append others,
        fun added => .again repeatable (inForce added) (word added) (words added)⟩
    · exact .inl ⟨text ++ behind, own.append others,
        fun added => .once (inForce added) (word added) (words added)⟩
  | @pattern p c x d items v matchRule _ prepared run ih =>
    intro within
    obtain ⟨symbols, readOnly⟩ := Bool.and_eq_true_iff.mp within
    obtain ⟨text, reads, word⟩ := ih symbols
    obtain ⟨journal, rfl⟩ := eq_of_run_performed readOnly run
    exact ⟨text, reads.noise (c := c) journal x.depth x.stop, word⟩
  | nil => exact fun _ => ⟨[], .refl _ _ _ _, fun _ => .nil⟩
  | terminal hs fits _ ih =>
    intro within
    obtain ⟨text, reads, word⟩ := ih (Bool.and_eq_true_iff.mp within).2
    exact ⟨_ :: text, (Context.Reads.next fits env).append reads, fun added => .terminal hs fits (word added)⟩
  | reference _ _ ih ih' =>
    intro within
    obtain ⟨first, others⟩ := Bool.and_eq_true_iff.mp within
    obtain ⟨text, reads, word⟩ := ih first
    obtain ⟨behind, others, words⟩ := ih' others
    exact ⟨text ++ behind, reads.append others, fun added => (word added).append (words added)⟩

end

end Planfile
