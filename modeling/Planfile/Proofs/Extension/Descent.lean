import Planfile.Proofs.Body.Language
import Planfile.Proofs.Extension.Choice
import Planfile.Proofs.Matching.Levels
import Planfile.Proofs.Statement.Clause
import Planfile.Proofs.Subtree.Entries
import Planfile.Proofs.Termination.Nesting

/-!
# Planfile — bodies inside of bodies

In the body of a task there may be other tasks with bodies of their own, and so on, as long as the rules do not
nest too deep. Where the start of one is ahead and its id is not taken, reading comes to its body, three levels
deeper. So a task can be as deep as the limit allows, whatever stands in the bodies around it.

Main results:

* `Matcher.lands_header` — a header makes an entry, and its body is read next.
* `Language.visits_body` — reading comes to the body that starts next.
* `Language.visits_descent` — so it does to the innermost one of many tasks inside of each other.
-/

namespace Planfile

open Matcher
open Plan (PropertyKind)
open LiveGrammar (headerText)

/-! ## Headers -/

/-- The tokens that a task or a resource with a body starts with. -/
def startTokens (kind : PropertyKind) (id name : String) : List Token :=
  headerText kind id name ++ [.mark .leftBrace]

/-- The rules by which a task or a resource in a body is read. -/
structure BodyRules where
  own : RuleId
  header : RuleId
  body : RuleId

/-- Whether these rules are those of a grammar, where `plain` is the rule for what stands in bodies. -/
structure GrammarTable.HasBodies (t : GrammarTable) (kind : PropertyKind) (plain : RuleId) (r : BodyRules) :
    Prop where
  inner : ⟨[.rule r.own], none⟩ ∈ (t.rule plain).patterns
  own : t.rule r.own = ⟨kind.word, [statementPattern r.header [.rule r.body]], false, false⟩
  header : t.rule r.header = ⟨kind.word ++ "Header", [headerPattern kind], false, false⟩
  body : t.rule r.body =
    ⟨kind.word ++ "Body", [⟨[.literal "\x7b", .rule plain, .literal "\x7d"], none⟩], true, false⟩

/-- A header starts with the word for its kind. -/
theorem takes_headerPattern (kind : PropertyKind) : (headerPattern kind).takes (.id kind.word) = true :=
  beq_self_eq_true _

namespace GrammarTable.HasBodies

variable {t : GrammarTable} {kind : PropertyKind} {plain : RuleId} {r : BodyRules} (h : t.HasBodies kind plain r)
  {c : Context} (sound : c.Sound t)

include h sound

/-- No plan adds to the rule for headers. -/
theorem patterns_header : (LiveGrammar.mk t c.extensions).patterns r.header = [headerPattern kind] :=
  LiveGrammar.patterns_of_sound sound h.header (by cases kind <;> decide)

/-- No plan adds to the rule for tasks or resources either. -/
theorem patterns_own :
    (LiveGrammar.mk t c.extensions).patterns r.own = [statementPattern r.header [.rule r.body]] :=
  LiveGrammar.patterns_of_sound sound h.own
    (show extendableNames.contains kind.word = false by cases kind <;> decide)

/-- Nor to the rule for bodies with their braces. -/
theorem patterns_body : (LiveGrammar.mk t c.extensions).patterns r.body =
    [⟨[.literal "\x7b", .rule plain, .literal "\x7d"], none⟩] :=
  LiveGrammar.patterns_of_sound sound h.body
    (show extendableNames.contains (kind.word ++ "Body") = false by cases kind <;> decide)

/-- With its word a task or a resource can start. -/
theorem starts : (LiveGrammar.mk t c.extensions).Starts (.id kind.word) (.rule r.own) := by
  have header : headerPattern kind ∈ (LiveGrammar.mk t c.extensions).patterns r.header := by
    rw [h.patterns_header sound]
    exact List.mem_cons_self
  have own : statementPattern r.header [.rule r.body] ∈ (LiveGrammar.mk t c.extensions).patterns r.own := by
    rw [h.patterns_own sound]
    exact List.mem_cons_self
  exact .rule own rfl (.rule header rfl (.terminal (a := .literal kind.word) rfl (takes_headerPattern kind)))

end GrammarTable.HasBodies

/-- The state in which the entry of a header has been made, with what it inherits. -/
def Context.entering (c : Context) (p : Plan.Project) (kind : PropertyKind) (grown : Plan.PropertySet) :
    Context :=
  { c with
    project := some (p.setProperties kind (grown.inheritAttributes (p.properties kind).length))
    property := some (kind, (p.properties kind).length)
    scenarioIndex := 0 }

section
variable {env : Surroundings} {p : Plan.Project} {kind : PropertyKind} {plain : RuleId} {r : BodyRules}
  {c : Context} {id name : String} {grown : Plan.PropertySet}

/-- The action of a header makes the entry, where the id is free. -/
theorem Matcher.run_header (there : c.project = some p)
    (free : (p.properties kind).add? id name (openProperty? c kind) = .ok grown)
    (matchRule : RuleId → Matcher (Option Value)) (v : Values) (first : v.string 1 = .ok id)
    (second : v.string 2 = .ok name) :
    (Action.property (.header kind)).perform matchRule v env c = (.ok none, c.entering p kind grown) := by
  simp [Action.perform, PropertyAction.perform, take, first, second, run_bind, run_map, openProperty, project,
    orFail, there, free, leaveScenario, Context.entering]

/-- A header makes an entry below the one whose body is read, and its body is read next. -/
theorem Matcher.lands_header (ht : env.grammar.HasBodies kind plain r) (hosts : c.Hosts env p)
    (free : (p.properties kind).add? id name (openProperty? c kind) = .ok grown) {behind : TokenSource}
    (reads : c.tokens.Reads (headerText kind id name) behind) {n : Nat}
    (fuel : Limits.parseDepth < n + c.depth) :
    Lands 1 none ({ c with tokens := behind }.entering p kind grown) (matchRule n r.header) env c := by
  refine .rule fuel fun m same shallow => ?_
  have inside := hosts.of_noise c.tokens c.journal (c.depth + 1) c.stop
  obtain ⟨journal, choice⟩ := run_choose_of_terminals (ht.patterns_header inside.sound) fun q mem => by
    rw [List.mem_singleton.mp mem]
    rfl
  have run : matchAlternatives (matchRule m) m r.header env { c with depth := c.depth + 1 } =
      matchPattern (matchRule m) (headerPattern kind) env { c with depth := c.depth + 1, journal } := by
    rw [run_matchAlternatives_of_single (by rw [ht.header]), choice, reads.next.1,
      List.find?_cons_of_pos (takes_headerPattern kind)]
  refine .of_run journal run ?_
  have symbols : ReadsTo 0 [.literal kind.word, .token (.id id), .token (.string name)] behind
      (matchSymbols (matchRule m) (headerPattern kind).symbols) env { c with depth := c.depth + 1, journal } :=
    .literal_cons (c := { c with depth := c.depth + 1, journal }) kind.word (beq_self_eq_true _) reads
      fun _ _ _ rest => .class_cons .id rfl rest fun _ _ _ rest => .class_cons .string rfl rest
        fun _ _ _ rest => .nil rest.eq_of_nil.symm
  refine symbols.lands.pattern rfl rfl fun journal stop => ⟨journal, stop, ?_⟩
  exact @run_header env p kind { c with tokens := behind, depth := c.depth + 1, journal, stop } id name grown
    hosts.project free (matchRule m) ⟨[.literal kind.word, .token (.id id), .token (.string name)], _⟩ rfl rfl

/-! ## Bodies -/

/-- A rule that an alternative has been chosen of is entered. -/
theorem Visits.enter {n : Nat} {rule : RuleId} {symbols : List Symbol} {q : Pattern} {d : Context}
    (shallow : c.depth < Limits.parseDepth)
    (choice : choose rule env { c with depth := c.depth + 1 } = (.ok (some q), d)) :
    Visits env (n + 1) (.symbols (.rule rule :: symbols)) c n (.symbols q.symbols) d :=
  .reference (.rule shallow (.chosen choice (.symbols .here)))

section
variable (ht : env.grammar.HasBodies kind plain r)

include ht

/-- The word chooses the one alternative that there is. -/
theorem GrammarTable.HasBodies.run_choose (sound : c.Sound env.grammar) (next : c.tokens.peek = .id kind.word) :
    ∃ journal, choose r.own env c =
      (.ok (some (statementPattern r.header [.rule r.body])), { c with journal }) := by
  refine run_choose_of_single (ht.patterns_own sound) rfl ?_
  rw [next]
  refine LiveGrammar.symbolAccepts_of_terminals (p := headerPattern kind) ?_ (fun q mem => ?_)
    (takes_headerPattern kind)
  · rw [ht.patterns_header sound]
    exact List.mem_cons_self
  · rw [ht.patterns_header sound] at mem
    rw [List.mem_singleton.mp mem]
    rfl

/-- A task or a resource is read up to its body. -/
theorem Visits.own_of_reads (hosts : c.Hosts env p)
    (free : (p.properties kind).add? id name (openProperty? c kind) = .ok grown) {behind : TokenSource}
    (reads : c.tokens.Reads (headerText kind id name) behind)
    (room : c.depth + 2 ≤ Limits.parseDepth) {n : Nat} (fuel : Limits.parseDepth < n + c.depth) :
    ∃ journal stop, Visits env (n + 1) (.symbols [.rule r.own]) c n (.symbols [.rule r.body])
      { ({ c with tokens := behind }.entering p kind grown) with journal, stop, depth := c.depth + 1 } := by
  have inside (journal : Log.Journal) := hosts.of_noise c.tokens journal (c.depth + 1) c.stop
  obtain ⟨journal, choice⟩ := ht.run_choose (inside c.journal).sound reads.next.1
  have header := lands_header ht (inside journal) free reads (n := n) (by dsimp only; omega)
  obtain ⟨journal', stop, run⟩ := header.fits (by dsimp only; omega)
  exact ⟨journal', stop, (Visits.enter (by omega) choice).trans (.past run .here)⟩

/-- The body of a task or a resource starts with a brace. -/
theorem Visits.body_of_reads (sound : c.Sound env.grammar) {behind : TokenSource}
    (reads : c.tokens.Reads [.mark .leftBrace] behind) (room : c.depth + 2 ≤ Limits.parseDepth) (n : Nat) :
    ∃ journal, Visits env (n + 2) (.symbols [.rule r.body]) c n (.alternatives plain)
      { c with tokens := behind, journal, depth := c.depth + 2 } := by
  obtain ⟨journal, choice⟩ := @run_choose_of_terminals env { c with depth := c.depth + 1 } r.body _
    (ht.patterns_body (c := c) sound) fun q mem => by
      rw [List.mem_singleton.mp mem]
      rfl
  obtain ⟨next, rest⟩ := reads.next
  obtain rfl := rest.eq_of_nil
  dsimp only at choice
  rw [next] at choice
  have brace := @run_matchSymbol_of_accepts (matchRule (n + 1)) (.literal "\x7b") (.literal "\x7b") rfl env
    { c with depth := c.depth + 1, journal } (by rw [next]; rfl)
  refine ⟨_, (Visits.enter (by omega) choice).trans (.behind brace (.reference (.rule ?_ .here)))⟩
  exact Nat.lt_of_succ_le room

end

end

namespace Language

/-- The words that tasks and resources start with are words of a text. -/
theorem produces_word (kind : PropertyKind) : Lexer.Produces (.id kind.word) := by
  have found : ∀ token ∈ [Token.id kind.word], Lexer.Produces token := by
    cases kind with
    | task => exact Lexer.produces_of_found "task".toList (by decide +kernel)
    | resource => exact Lexer.produces_of_found "resource".toList (by decide +kernel)
  exact found _ List.mem_cons_self

section
variable {env : Surroundings} (h : grammar = .ok env.grammar) {tokens : TokenSource} {journal : Log.Journal}
  {project : RuleId} (known : env.grammar.ruleId? "project" = some project)

include h known

/-- In the body of a task or a resource let another one with a body start. If its id is free, and the rules do
not nest too deep, reading comes to its body. -/
theorem visits_body {kind : PropertyKind} {plain : RuleId} {r : BodyRules}
    (ht : env.grammar.HasBodies kind plain r) {n : Nat} {c : Context}
    (visit : Visits env ampleFuel (.symbols [.rule project]) (.initial tokens journal) n (.alternatives plain) c)
    {p : Plan.Project} (there : c.project = some p) {id name : String} {grown : Plan.PropertySet}
    (free : (p.properties kind).add? id name (openProperty? c kind) = .ok grown) {behind : TokenSource}
    (reads : c.tokens.Reads (startTokens kind id name) behind) (room : c.depth + 3 ≤ Limits.parseDepth) :
    ∃ m last stop, Visits env n (.alternatives plain) c m (.alternatives plain)
      { ({ c with tokens := behind }.entering p kind grown) with
        journal := last, stop, depth := c.depth + 3 } := by
  obtain ⟨⟨sound, -⟩, -⟩ :=
    visit.stands (exists_charted h).1 (grounded_initial _ _ tokens journal) (stands_initial h known)
  obtain ⟨levels, -⟩ := visit.depth (Action.wellBehaved env)
  have start : (Context.initial tokens journal).depth = 0 := rfl
  have ample : Limits.parseDepth + 3 < ampleFuel := by decide
  obtain ⟨m, rfl⟩ : ∃ m, n = m + 3 := ⟨n - 3, by omega⟩
  obtain ⟨mid, first, brace⟩ := reads.split
  have chosen := candidates_of_starts h known (.taken visit) (produces_word kind) ht.inner rfl
    (ht.starts sound)
  rw [← first.next.1] at chosen
  obtain ⟨journal₁, choice⟩ := run_choose chosen
  obtain ⟨journal₂, stop, header⟩ := Visits.own_of_reads (n := m + 2) (c := { c with journal := journal₁ }) ht
    (Context.Hosts.of_noise ⟨sound, there⟩ c.tokens journal₁ c.depth c.stop) free first
    (by dsimp only; omega) (by dsimp only; omega)
  obtain ⟨journal₃, body⟩ := Visits.body_of_reads ht (c := { ({ c with tokens := mid }.entering p kind grown) with
    journal := journal₂, stop, depth := c.depth + 1 }) ⟨sound.extensions, sound.target⟩ brace
    (by dsimp only; omega) m
  exact ⟨m, journal₃, stop, .chosen choice (.symbols (header.trans body))⟩

end

end Language

/-! ## Tasks inside of each other -/

/-- Whether the index has no longer id than that of the task whose body is read. Then all ids below it are
free. -/
structure Context.Innermost (c : Context) (p : Plan.Project) (i : Nat) (own : Heading) : Prop where
  project : c.project = some p
  property : c.property = some (.task, i)
  kind : p.tasks.kind = .task
  entry : p.tasks.entryTable.headings[i]? = some own
  longest : ∀ entry ∈ p.tasks.index, entry.1.length ≤ own.id.length

namespace Context.Innermost

variable {c : Context} {p : Plan.Project} {i : Nat} {own : Heading} (h : c.Innermost p i own)

include h

/-- Below it tasks are made. -/
theorem openProperty : openProperty? c .task = some i := by
  simp [openProperty?, h.property]

/-- The ids below it are paths that start with its own. -/
theorem fullId (id : String) : p.tasks.fullId id (some i) = own.id ++ "." ++ id := by
  have entry := Plan.PropertySet.getElem?_headings p.tasks i
  rw [h.entry] at entry
  obtain ⟨q, found, same⟩ := Option.map_eq_some_iff.mp entry.symm
  rw [Plan.PropertySet.fullId, h.kind, Option.bind_some, found, ← same]
  rfl

/-- They are longer than all that there are. -/
theorem length_lt {entry : String × Nat} (mem : entry ∈ p.tasks.index) (id : String) :
    entry.1.length < (p.tasks.fullId id (some i)).length := by
  have short := h.longest entry mem
  rw [h.fullId, String.length_append, String.length_append, show ".".length = 1 from rfl]
  omega

/-- So a task can be added below it, whatever its id is. -/
theorem exists_add (id name : String) :
    ∃ grown, (p.properties .task).add? id name (openProperty? c .task) = .ok grown := by
  rw [h.openProperty, show p.properties .task = p.tasks from rfl]
  cases added : p.tasks.add? id name (some i) with
  | ok grown => exact ⟨grown, rfl⟩
  | error e =>
    obtain ⟨j, found⟩ := (p.tasks.add?_eq_error_iff id name (some i)).mp ⟨e, added⟩
    have shorter := h.length_lt (Plan.PropertySet.mem_index_of_indexOf? found) id
    exact absurd shorter (Nat.lt_irrefl _)

/-- The task that has been added is the innermost one then. -/
theorem entering {id name : String} {grown : Plan.PropertySet}
    (added : (p.properties .task).add? id name (openProperty? c .task) = .ok grown)
    (tokens : TokenSource) (journal : Log.Journal) (stop : Option StopMark) (depth : Nat) :
    ∃ q j other, Innermost
      { ({ c with tokens := tokens }.entering p .task grown) with journal, stop, depth } q j other := by
  rw [h.openProperty] at added
  have headings : (grown.inheritAttributes p.tasks.length).entryTable =
      { p.tasks.entryTable with headings := p.tasks.entryTable.headings ++
        [⟨p.tasks.fullId id (some i), name, some i⟩] } := Plan.PropertySet.headings_of_add? added p.tasks.length
  refine ⟨_, _, ⟨p.tasks.fullId id (some i), name, some i⟩, rfl, rfl, ?_, ?_, ?_⟩
  · exact (congrArg EntryTable.kind headings).trans h.kind
  · rw [show Plan.Project.tasks _ = grown.inheritAttributes p.tasks.length from rfl, headings]
    rw [show (p.properties .task).length = p.tasks.length from rfl, ← Plan.PropertySet.length_headings]
    exact List.getElem?_concat_length ..
  · rw [show Plan.Project.tasks _ = grown.inheritAttributes p.tasks.length from rfl,
      Plan.PropertySet.index_inheritAttributes, Plan.PropertySet.eq_append_of_add? added,
      Plan.PropertySet.append_eq]
    intro entry mem
    rcases List.mem_cons.mp mem with rfl | before
    · exact Nat.le_refl _
    · exact Nat.le_of_lt (h.length_lt before id)

end Context.Innermost

namespace Language

/-- The rules by which tasks are read, by their names. -/
def taskBodiesIn (t : GrammarTable) : BodyRules :=
  let rule (name : String) : RuleId := (t.ruleId? name).getD ⟨0⟩
  ⟨rule "task", rule "taskHeader", rule "taskBody"⟩

/-- The language is found to have these rules. -/
theorem check_taskBodies : satisfies (fun t =>
    (t.ruleId? (hostName .task false)).any fun plain =>
      (t.rule plain).patterns.contains ⟨[.rule (taskBodiesIn t).own], none⟩ &&
      t.rule (taskBodiesIn t).own == ⟨PropertyKind.task.word,
        [statementPattern (taskBodiesIn t).header [.rule (taskBodiesIn t).body]], false, false⟩ &&
      t.rule (taskBodiesIn t).header ==
        ⟨PropertyKind.task.word ++ "Header", [headerPattern .task], false, false⟩ &&
      t.rule (taskBodiesIn t).body == ⟨PropertyKind.task.word ++ "Body",
        [⟨[.literal "\x7b", .rule plain, .literal "\x7d"], none⟩], true, false⟩) = true := by
  decide +kernel

/-- The language has these rules. -/
theorem hasTaskBodies {table : GrammarTable} (h : grammar = .ok table) {plain : RuleId}
    (named : table.ruleId? (hostName .task false) = some plain) :
    table.HasBodies .task plain (taskBodiesIn table) := by
  have found := of_satisfies check_taskBodies h
  rw [named, Option.any_some] at found
  simp only [Bool.and_eq_true, beq_iff_eq, List.contains_iff_mem] at found
  obtain ⟨⟨⟨inner, own⟩, header⟩, body⟩ := found
  exact ⟨inner, own, header, body⟩

/-- The starts of many tasks inside of each other. -/
def nested (id name : String) (count : Nat) : List Token :=
  (List.replicate count (startTokens .task id name)).flatten

/-- Many tasks inside of each other are gone into as long as the rules do not nest too deep. -/
theorem visits_descent {env : Surroundings} (h : grammar = .ok env.grammar) {tokens : TokenSource}
    {journal : Log.Journal} {project : RuleId} (known : env.grammar.ruleId? "project" = some project)
    {plain : RuleId} {r : BodyRules} (ht : env.grammar.HasBodies .task plain r) (id name : String)
    {rest : List Token} (count : Nat) {n : Nat} {c : Context}
    (visit : Visits env ampleFuel (.symbols [.rule project]) (.initial tokens journal) n (.alternatives plain) c)
    {p : Plan.Project} {i : Nat} {own : Heading} (inside : c.Innermost p i own)
    (ahead : c.tokens.Ahead (nested id name count ++ rest))
    (room : c.depth + 3 * count ≤ Limits.parseDepth) :
    ∃ m d, Visits env n (.alternatives plain) c m (.alternatives plain) d ∧
      d.depth = c.depth + 3 * count ∧ d.tokens.Ahead rest := by
  -- by induction on the number of tasks, from the outermost one to the innermost one
  induction count generalizing n c p i own with
  | zero => exact ⟨n, c, .here, rfl, ahead⟩
  | succ count ih =>
    obtain ⟨grown, free⟩ := inside.exists_add id name
    rw [nested, List.replicate_succ, List.flatten_cons, List.append_assoc] at ahead
    obtain ⟨behind, reads, further⟩ := ahead.exists_reads (by simp [startTokens, headerText, Token.isEof])
    obtain ⟨m, last, stop, one⟩ := visits_body h known ht visit inside.project free reads (by omega)
    obtain ⟨q, j, other, deeper⟩ := inside.entering free behind last stop (c.depth + 3)
    obtain ⟨k, d, others, depth, ends⟩ := ih (visit.trans one) deeper further (by dsimp only; omega)
    exact ⟨k, d, one.trans others, by dsimp only at depth; omega, ends⟩

end Language

end Planfile
