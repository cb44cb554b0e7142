import Planfile.Proofs.Course.Invariant
import Planfile.Proofs.Course.Progress
import Planfile.Proofs.Expression.Rendering
import Planfile.Proofs.Range.Value
import Planfile.Proofs.Report.Language

/-!
# Planfile — an expression that has been read can be written

What comes of the rules of expressions is an operand or an operation that a text can have: its names are
those of tokens, and so are its numbers, an operator between two operands is not the mark of a negation, and
a negation only stands where an operand does. That flags are declared and scenarios are there is known of
whatever a plan refers to, so what is left for a project is that its scenarios are told by their ids: an id
is that of a token, and none is given twice.

This holds all the way through a plan. What is said of the value of a rule is said of what its
alternatives give, so there is one lemma for each of the rules of expressions.

Main results:

* `Operation.isWritable` — what has been read and refers to what is there can be written.
* `Action.namesScenarios_of_run` — the scenarios of a project are told by their ids at any time.
* `valueInvariant_expressions` — rules of expressions give what can be written.
-/

/-! ## What a text can have -/

namespace Planfile.Plan

mutual

/-- Whether an operand is one that a text can have, whatever is declared. -/
def Operand.IsLegible : Operand → Prop
  | .operation o => o.IsLegible
  | .attribute name _ => '.' ∉ name.toList
  | .flag name => Terminal.isWord name = true
  | .date _ | .string _ => True
  | .integer value => 0 ≤ value
  | .call function count => Terminal.isWord function = true ∧ 1 ≤ count

/-- Whether an operation is one that a text can have. -/
def Operation.IsLegible : Operation → Prop
  | .plain a | .negation a => a.IsLegible
  | .binary a operator b => a.IsLegible ∧ operator ≠ .not ∧ b.IsLegible

end

mutual

/-- An operand that a text can have can be written where all is there that it refers to. -/
theorem Operand.isWritable {p : Project} :
    ∀ {a : Operand}, a.IsLegible → a.Intact p.known → a.IsWritable p
  | .operation _, legible, intact => Operation.isWritable legible intact
  | .attribute _ scenario, legible, intact => ⟨legible, p.scenarios[scenario], List.getElem?_eq_getElem intact⟩
  | .flag _, legible, intact => ⟨List.contains_iff_mem.mpr intact, legible⟩
  | .date _, _, _ | .string _, _, _ => trivial
  | .integer _, legible, _ | .call _ _, legible, _ => legible

theorem Operation.isWritable {p : Project} :
    ∀ {o : Operation}, o.IsLegible → o.Intact p.known → o.IsWritable p
  | .plain _, legible, intact | .negation _, legible, intact => Operand.isWritable legible intact
  | .binary _ _ _, ⟨first, positive, second⟩, ⟨left, right⟩ =>
    ⟨Operand.isWritable first left, positive, Operand.isWritable second right⟩

end

/-! ## Scenarios -/

namespace Project

theorem namesScenarios_initial (id name version : String) (time : Calendar.Interval) :
    (initial id name version time).NamesScenarios where
  nodup := List.nodup_singleton "plan"
  noDot id mem := by
    rw [List.mem_singleton.mp mem]
    decide

/-- A scenario with an id that is free can be told from the others. -/
theorem NamesScenarios.append {p : Project} (h : p.NamesScenarios) {s : Scenario}
    (noDot : '.' ∉ s.id.toList) (free : s.id ∉ p.scenarioIds) :
    ({ p with scenarios := p.scenarios ++ [s] } : Project).NamesScenarios := by
  have ids : ({ p with scenarios := p.scenarios ++ [s] } : Project).scenarioIds = p.scenarioIds ++ [s.id] :=
    List.map_append
  refine ⟨ids ▸ h.nodup.append (List.nodup_singleton _) (List.disjoint_singleton.mpr free),
    fun id mem => ?_⟩
  rw [ids] at mem
  rcases List.mem_append.mp mem with old | last
  · exact h.noDot id old
  · rw [List.mem_singleton.mp last]
    exact noDot

end Project

end Planfile.Plan

namespace Planfile

open Matcher
open Plan (Operand Operation Operator)

/-- The ids of the scenarios of a lineup. -/
def ScenarioLists.ids (l : ScenarioLists) : List String := l.scenarios.map (·.id)

/-- Whether the scenarios of the project that is read, if there is one, are told by their ids. -/
def Context.NamesScenarios (c : Context) : Prop := ∀ p, c.project = some p → p.NamesScenarios

/-- What does not change the ids does not change whether this is so. -/
theorem Context.NamesScenarios.of_ids {c d : Context} (h : c.NamesScenarios)
    (same : d.scenarioState.scenarioLists.map ScenarioLists.ids =
      c.scenarioState.scenarioLists.map ScenarioLists.ids) : d.NamesScenarios := by
  intro q there
  rw [Context.scenarioState, Context.scenarioState, there] at same
  obtain ⟨l, lined, ids⟩ := Option.map_eq_some_iff.mp same.symm
  obtain ⟨p, before, rfl⟩ := Option.map_eq_some_iff.mp lined
  have ids : p.scenarioIds = q.scenarioIds := ids
  exact ⟨ids ▸ (h p before).nodup, ids ▸ (h p before).noDot⟩

section
variable {v : Values} {env : Surroundings} {c d : Context} {o : Option Value}
  {matchRule : RuleId → Matcher (Option Value)}

/-- A scenario gets an id that is free. -/
theorem ScenarioAction.namesScenarios_perform (h : c.NamesScenarios) {a : ScenarioAction}
    (noDot : a = .header → ∀ id, v.string 1 = .ok id → '.' ∉ id.toList) :
    Ends (fun _ d => d.NamesScenarios) (a.perform v) env c := by
  have keeps (view : Keeps (fun c => c.scenarioState.scenarioLists.map ScenarioLists.ids) (a.perform v)) :
      Ends (fun _ d => d.NamesScenarios) (a.perform v) env c :=
    (view env c).weaken fun _ _ same => h.of_ids same
  cases a with
  | header =>
    simp only [perform, ends_bind, ends_openScenario, ends_pure]
    intro p there id taken name _ free
    -- where the scenario that is always there gives way, no id is left
    have kept : ({ p with scenarios := c.keptScenarios p } : Plan.Project).NamesScenarios := by
      unfold Context.keptScenarios
      split
      · exact ⟨List.nodup_nil, fun id mem => absurd mem List.not_mem_nil⟩
      · exact h p there
    intro r hr
    cases hr
    exact kept.append (noDot rfl id taken) free
  | enable enabled =>
    -- a scenario that is switched keeps its id
    refine keeps fun env c => ?_
    have ids (p : Plan.Project) (i : Nat) :
        (p.scenarios.modify i ({ · with enabled })).map (·.id) = p.scenarios.map (·.id) := by
      refine List.ext_getElem? fun j => ?_
      rw [List.getElem?_map, List.getElem?_modify, List.getElem?_map]
      cases p.scenarios[j]? with
      | none => rfl
      | some s => by_cases here : i = j <;> simp [here]
    simp +contextual [perform, enableScenario, Context.scenarioState, Plan.Project.scenarioLists,
      ScenarioLists.ids, ids]
  | close | select | index =>
    refine keeps fun env c => ?_
    simp [perform, closeScenario, scenarioIndex, Context.scenarioState]

/-- A report is no scenario. -/
theorem ReportAction.keeps_ids (a : ReportAction) :
    Keeps (fun c => c.scenarioState.scenarioLists.map ScenarioLists.ids) (a.perform v) := by
  by_cases added : a = .header
  · subst added
    intro env c
    simp +contextual [perform, openReport, Context.scenarioState, Plan.Project.scenarioLists,
      ScenarioLists.ids]
  by_cases listed : a = .scenarios
  · subst listed
    intro env c
    simp +contextual [perform, change, enabledScenarios, Context.scenarioState, Plan.Project.scenarioLists,
      ScenarioLists.ids]
  · exact (keeps_scenarioLists added listed).seen (·.map ScenarioLists.ids)

/-- The scenarios of a project are told by their ids at any time, if those that are declared have ids without
dots. -/
theorem Action.namesScenarios_of_run {a : Action} (own : ∀ name, a ≠ .rule name) (h : c.NamesScenarios)
    (noDot : a = .scenario .header → ∀ id, v.string 1 = .ok id → '.' ∉ id.toList)
    (run : a.perform matchRule v env c = (.ok o, d)) : d.NamesScenarios := by
  by_cases sets : a.setsScenarioState = false
  · exact h.of_ids (by rw [a.scenarioState_of_run v sets run])
  cases a with
  | rule name => exact absurd rfl (own name)
  | project a =>
    cases a with
    | header =>
      obtain ⟨_, x, started, last⟩ := exists_of_run_bind run
      cases last
      have ends : Ends (fun _ d => d.NamesScenarios) (ProjectAction.perform v .header) env c := by
        simp [ProjectAction.perform, Context.NamesScenarios, Plan.Project.namesScenarios_initial]
      exact ends.of_ok started
    | _ => exact absurd rfl sets
  | scenario a => exact (a.namesScenarios_perform h fun same => noDot (same ▸ rfl)).of_ok run
  | property a => exact h.of_ids ((a.keeps_scenarioLists.seen (·.map ScenarioLists.ids) env c).of_ok run)
  | report a => exact h.of_ids ((a.keeps_ids env c).of_ok run)
  | _ => exact absurd rfl sets

end

end Planfile

/-! ## Values -/

namespace Planfile

open Matcher
open Plan (Operand Operation Operator)

namespace ExpressionRules

variable (r : ExpressionRules)

/-- What is known of the value of a rule of expressions. -/
structure Yields (id : RuleId) (v : Option Value) : Prop where
  operand : id = r.operand → ∃ a : Operand, v = some (.operand a) ∧ a.IsLegible
  operation : id = r.operation →
    ∃ o : Operation, v = some (.operation o) ∧ o.IsLegible ∧ o.isNegation = false
  expression : id = r.expression →
    ∃ e, v = some (.expression e) ∧ e.operation.IsLegible ∧ e.operation.isNegation = false
  chain : id = r.chain → v = none ∨
    ∃ (o : Operator) (b : Operand), v = some (.pair (.str o.symbol) (.operand b)) ∧ o ≠ .not ∧ b.IsLegible
  argumentList : id = r.argumentList → v = none ∨ ∃ first rest, v = some (.list (first :: rest))
  arguments : id = r.arguments → ∃ first rest, v = some (.list (first :: rest))

/-- What is known of the value of a symbol where expressions are read. -/
def Serves : Symbol → Option Value → Prop
  | .rule id, v => r.Yields id v
  | .literal text, v => v = some (.str text)
  | .tokenClass .id, v => ∃ name, v = some (.str name) ∧ Terminal.isWord name = true ∧ '.' ∉ name.toList
  | .tokenClass .integer, v => ∃ n, v = some (.int n) ∧ 0 ≤ n
  | .tokenClass _, _ => True

variable {r}

/-- A name has been read by its characters, and an integer has no sign. -/
theorem serves_terminal {s : Symbol} {a : Terminal} (hs : s.terminal? = some a) {token : Token}
    (fits : a.accepts token = true) (formed : Lexer.Formed token) : r.Serves s (a.matched token).value? := by
  cases s with
  | rule id => cases hs
  | literal text =>
    cases hs
    rfl
  | tokenClass k =>
    cases hs
    have same : token.class? = some k := beq_iff_eq.mp fits
    cases k with
    | id =>
      cases token <;> cases same
      obtain ⟨path, noDot, -⟩ := formed
      exact ⟨_, rfl, path.starts, noDot⟩
    | integer =>
      cases token <;> cases same
      obtain ⟨k, rfl, -⟩ := formed
      exact ⟨_, rfl, Int.natCast_nonneg k⟩
    | _ => trivial

end ExpressionRules

/-! ## What actions give -/

section
variable {r : ExpressionRules} {v : Values} {i : Nat}

/-- What is taken for an operand can be read, if it is the value of the rule for operands. -/
theorem ExpressionRules.Serves.operand (h : r.Serves (.rule r.operand) (v.value? i)) {a : Operand}
    (taken : v.operand i = .ok a) : a.IsLegible := by
  obtain ⟨x, found, is⟩ := Values.exists_of_typed taken
  obtain ⟨b, given, legible⟩ := Yields.operand h rfl
  cases found.symm.trans given
  cases is
  exact legible

/-- So can what is taken for an operation, and it is no negation. -/
theorem ExpressionRules.Serves.operation (h : r.Serves (.rule r.operation) (v.value? i)) {o : Operation}
    (taken : v.operation i = .ok o) : o.IsLegible ∧ o.isNegation = false := by
  obtain ⟨x, found, is⟩ := Values.exists_of_typed taken
  obtain ⟨b, given, legible⟩ := Yields.operation h rfl
  cases found.symm.trans given
  cases is
  exact legible

/-- What is taken from a name is one, without dots. -/
theorem ExpressionRules.Serves.name (h : r.Serves (.tokenClass .id) (v.value? i)) {name : String}
    (taken : v.string i = .ok name) : Terminal.isWord name = true ∧ '.' ∉ name.toList := by
  obtain ⟨x, found, is⟩ := Values.exists_of_typed taken
  obtain ⟨other, given, known⟩ := h
  cases found.symm.trans given
  cases is
  exact known

theorem ExpressionRules.Serves.int (h : r.Serves (.tokenClass .integer) (v.value? i)) {n : Int}
    (taken : v.int i = .ok n) : 0 ≤ n := by
  obtain ⟨x, found, is⟩ := Values.exists_of_typed taken
  obtain ⟨other, given, known⟩ := h
  cases found.symm.trans given
  cases is
  exact known

namespace Matcher

/-- What the action of an alternative gives comes of the alternative. -/
theorem Gives.of_performed {ask : Option Value → Prop} {matchRule : RuleId → Matcher (Option Value)}
    {p : Pattern} {a : Action} (action : p.action = some a) (h : Gives ask (a.perform matchRule v)) :
    Gives ask (performed matchRule p v.location v.items) := by
  intro env c x d run
  obtain ⟨journal, same⟩ := exists_run_performed matchRule action v.location v.items env c
  rw [same] at run
  exact h env _ x d run

/-- The name of an attribute is one of the parts of an id. -/
theorem gives_attributeOperand (id : String) : Gives Operand.IsLegible (attributeOperand id) := by
  unfold attributeOperand
  split
  · next scenario name parts =>
    refine gives_bind fun p => gives_bind fun index => gives_pure ?_
    have mem : name ∈ Plan.idParts id := by
      rw [parts]
      exact List.mem_cons_of_mem _ List.mem_cons_self
    obtain ⟨part, among, rfl⟩ := List.mem_map.mp mem
    show '.' ∉ (String.ofList part).toList
    rw [String.toList_ofList]
    exact Plan.not_mem_of_mem_parts among
  · exact gives_fail _

/-- A flag has the name that has been looked up. -/
theorem gives_flag (id : String) : Gives (fun a : Operand => a = .flag id) (Operand.flag <$> declaredFlag id) := by
  intro env c a d run
  obtain ⟨name, found, rfl⟩ := exists_of_run_map run
  have same : Gives (fun name => name = id) (declaredFlag id) := by
    refine gives_bind fun p => ?_
    split
    · exact gives_pure rfl
    · exact gives_fail _
  rw [same env c name d found]

theorem gives_functionCall (function : String) (count : Nat) (location : Location) :
    Gives (fun a : Operand => a = .call function count) (functionCall function count location) :=
  gives_bind fun _ => gives_pure rfl

/-- An operation is put together of an operand and of what comes behind it. -/
theorem gives_operationOf {left : Operand} (legible : left.IsLegible) {chain : Option Value}
    (h : r.Yields r.chain chain) :
    Gives (fun o : Operation => o.IsLegible ∧ o.isNegation = false) (operationOf left chain) := by
  rcases h.chain rfl with rfl | ⟨operator, b, rfl, positive, right⟩
  · exact gives_pure ⟨legible, rfl⟩
  · have known : operatorOf (.str operator.symbol) = (pure operator : Matcher Operator) := by
      rw [operatorOf, Operator.ofSymbol?_symbol]
      rfl
    rw [operationOf, known]
    exact gives_pure ⟨⟨legible, positive, right⟩, rfl⟩

end Matcher

variable {p : Pattern} {matchRule : RuleId → Matcher (Option Value)}

/-- Every alternative of an operand gives one that can be read. -/
theorem ExpressionRules.gives_operand (mem : p ∈ r.operandPatterns)
    (serves : ∀ i s, p.symbols[i]? = some s → r.Serves s (v.value? i)) :
    Gives (fun x => ∃ a : Operand, x = some (.operand a) ∧ a.IsLegible)
      (performed matchRule p v.location v.items) := by
  -- in the order of the alternatives: parentheses, a negation, an attribute, a date, a name, an integer and
  -- a string
  simp only [operandPatterns, List.mem_cons, List.not_mem_nil, or_false] at mem
  rcases mem with rfl | rfl | rfl | rfl | rfl | rfl | rfl
  · refine .of_performed rfl ((gives_take v _).bind fun o taken => gives_pure ⟨_, rfl, ?_⟩)
    exact ((serves 1 _ rfl).operation taken).1
  · refine .of_performed rfl ((gives_take v _).bind fun a taken => gives_pure ⟨_, rfl, ?_⟩)
    show a.IsLegible
    exact (serves 1 _ rfl).operand taken
  · refine .of_performed rfl (gives_bind fun id => ?_)
    exact (gives_attributeOperand id).bind fun a legible => gives_pure ⟨a, rfl, legible⟩
  · exact .of_performed rfl (gives_bind fun _ => gives_pure ⟨_, rfl, trivial⟩)
  · refine .of_performed rfl ((gives_take v _).bind fun name taken => ?_)
    have word := ((serves 0 _ rfl).name taken).1
    dsimp only
    -- arguments make it a call, and there is at least one
    rcases Yields.argumentList (serves 1 _ rfl) rfl with none | ⟨first, rest, found⟩
    · rw [Values.isPresent, none, if_neg (by decide)]
      exact (gives_flag name).bind fun a same => gives_pure ⟨a, rfl, same ▸ word⟩
    · have count : (v.list 1).length = rest.length + 1 := by
        rw [Values.list, found]
        rfl
      rw [Values.isPresent, found, Option.isSome_some, if_pos rfl, count]
      exact (gives_functionCall name _ _).bind fun a same =>
        gives_pure ⟨a, rfl, same ▸ ⟨word, Nat.succ_pos _⟩⟩
  · refine .of_performed rfl ((gives_take v _).bind fun n taken => gives_pure ⟨_, rfl, ?_⟩)
    exact (serves 0 _ rfl).int taken
  · exact .of_performed rfl (gives_bind fun _ => gives_pure ⟨_, rfl, trivial⟩)

/-- An operator is passed on with the operand behind it. -/
theorem ExpressionRules.gives_chain (mem : p ∈ Operator.binary.map r.chainPattern)
    (serves : ∀ i s, p.symbols[i]? = some s → r.Serves s (v.value? i)) :
    Gives (fun x => ∃ (o : Operator) (b : Operand),
      x = some (.pair (.str o.symbol) (.operand b)) ∧ o ≠ .not ∧ b.IsLegible)
      (performed matchRule p v.location v.items) := by
  obtain ⟨operator, listed, rfl⟩ := List.mem_map.mp mem
  have positive : operator ≠ .not := by
    rintro rfl
    exact absurd listed (by decide)
  obtain ⟨b, operand, legible⟩ := Yields.operand (serves 1 _ rfl) rfl
  refine .of_performed rfl ((gives_take v _).bind fun x first => (gives_take v _).bind fun y second => ?_)
  rw [Values.required_eq_ok_iff] at first second
  cases (serves 0 _ rfl : v.value? 0 = some (.str operator.symbol)).symm.trans first
  cases operand.symm.trans second
  exact gives_pure ⟨operator, b, rfl, positive, legible⟩

/-- An operand with what comes behind it is an operation. -/
theorem ExpressionRules.gives_operation (serves : ∀ i s, r.operationPattern.symbols[i]? = some s →
      r.Serves s (v.value? i)) :
    Gives (fun x => ∃ o : Operation, x = some (.operation o) ∧ o.IsLegible ∧ o.isNegation = false)
      (performed matchRule r.operationPattern v.location v.items) := by
  refine .of_performed rfl ((gives_take v _).bind fun a taken => ?_)
  have legible := (serves 0 _ rfl).operand taken
  exact (gives_operationOf legible (serves 1 _ rfl)).bind fun o known => gives_pure ⟨o, rfl, known⟩

/-- An operation with its place is an expression. -/
theorem ExpressionRules.gives_expression (serves : ∀ i s, r.expressionPattern.symbols[i]? = some s →
      r.Serves s (v.value? i)) :
    Gives (fun x => ∃ e, x = some (.expression e) ∧ e.operation.IsLegible ∧ e.operation.isNegation = false)
      (performed matchRule r.expressionPattern v.location v.items) :=
  .of_performed rfl ((gives_take v _).bind fun _ taken =>
    gives_pure ⟨_, rfl, (serves 0 _ rfl).operation taken⟩)

/-- The first of some arguments is there. -/
theorem ExpressionRules.gives_arguments (serves : ∀ i s, r.argumentsPattern.symbols[i]? = some s →
      r.Serves s (v.value? i)) :
    Gives (fun x => ∃ first rest, x = some (.list (first :: rest)))
      (performed matchRule r.argumentsPattern v.location v.items) := by
  obtain ⟨o, found, -⟩ := Yields.operation (serves 0 _ rfl) rfl
  refine .of_performed rfl (gives_pure ⟨.operation o, v.list 1, ?_⟩)
  rw [found]
  rfl

theorem ExpressionRules.gives_argumentList (serves : ∀ i s, r.argumentListPattern.symbols[i]? = some s →
      r.Serves s (v.value? i)) :
    Gives (fun x => ∃ first rest, x = some (.list (first :: rest)))
      (performed matchRule r.argumentListPattern v.location v.items) := by
  obtain ⟨first, rest, found⟩ := Yields.arguments (serves 1 _ rfl) rfl
  refine .of_performed rfl (gives_pure ⟨first, rest, ?_⟩)
  rw [Values.list, found]
  rfl

/-- What a rule offers that is not extendable is declared. -/
theorem GrammarTable.mem_of_offers {t : GrammarTable} {id : RuleId} (offered : t.Offers id p) {rule : Rule}
    (declared : t.rule id = rule) (fixed : extendableNames.contains rule.name = false) : p ∈ rule.patterns := by
  rcases offered with among | ⟨extendable, -⟩
  · exact declared ▸ among
  · exact absurd extendable (not_isExtendable declared fixed)

/-- Whatever alternative of a rule of expressions is chosen, what is known of the rule holds of what the
alternative gives. -/
theorem ExpressionRules.gives_yields {t : GrammarTable} (ht : t.HasExpressions r) {id : RuleId}
    (offered : t.Offers id p) (serves : ∀ i s, p.symbols[i]? = some s → r.Serves s (v.value? i)) :
    Gives (r.Yields id) (performed matchRule p v.location v.items) := by
  intro env c x d run
  -- no plan adds to these rules, so the alternative is a declared one
  refine ⟨?_, ?_, ?_, ?_, ?_, ?_⟩ <;> rintro rfl
  · exact gives_operand (GrammarTable.mem_of_offers offered ht.operand rfl) serves env c x d run
  · cases List.mem_singleton.mp (GrammarTable.mem_of_offers offered ht.operation rfl)
    exact gives_operation serves env c x d run
  · cases List.mem_singleton.mp (GrammarTable.mem_of_offers offered ht.expression rfl)
    exact gives_expression serves env c x d run
  · exact .inr (gives_chain (GrammarTable.mem_of_offers offered ht.chain rfl) serves env c x d run)
  · cases List.mem_singleton.mp (GrammarTable.mem_of_offers offered ht.argumentList rfl)
    exact .inr (gives_argumentList serves env c x d run)
  · cases List.mem_singleton.mp (GrammarTable.mem_of_offers offered ht.arguments rfl)
    exact gives_arguments serves env c x d run

end

/-! ## The invariant of expressions -/

/-- Whether the statement that declares a scenario has the name of it behind its keyword. -/
def GrammarTable.NamesByIds (t : GrammarTable) : Prop :=
  ∀ id, ∀ p ∈ (t.rule id).patterns, p.action = some (.scenario .header) →
    p.symbols[1]? = some (.tokenClass .id)

/-- Whether it is found to have it. -/
def GrammarTable.checkNames (t : GrammarTable) : Bool :=
  (List.range t.rules.size).all fun i => (t.rule ⟨i⟩).patterns.all fun p =>
    p.action != some (.scenario .header) || p.symbols[1]? == some (.tokenClass .id)

/-- Where the check passes, scenarios have their names. -/
theorem GrammarTable.namesByIds_of_check {t : GrammarTable} (h : t.checkNames = true) : t.NamesByIds := by
  intro id p mem action
  rcases @rule_eq_default_or_of_all t (fun id => (t.rule id).patterns.all fun p =>
      p.action != some (.scenario .header) || p.symbols[1]? == some (.tokenClass .id))
    (fun i known => List.all_eq_true.mp h i (List.mem_range.mpr known)) id with absent | passed
  · rw [absent] at mem
    cases mem
  · have own := List.all_eq_true.mp passed p mem
    rw [action, bne_self_eq_false, Bool.false_or] at own
    exact beq_iff_eq.mp own

section
variable {ofRule : RuleId → Shape} {effects : Effects} {env : Surroundings} {start : TokenSource}

/-- A project of which the scenarios are told by their ids and values that can be written, while tokens of some
source are read. -/
def expressions (env : Surroundings) (r : ExpressionRules) (start : TokenSource) : Assertions where
  ask c := c.NamesScenarios ∧ start.Reaches env.preferences env.files c.tokens
  follows _ _ := True
  fits _ := True
  serves _ s v := r.Serves s v

variable {r : ExpressionRules} (ht : env.grammar.HasExpressions r) (named : env.grammar.NamesByIds)
  (anchored : TokenSource.Anchored env.preferences env.files start start)
  (main : ∀ t ∈ start.top.stream.all, Lexer.Formed t.token)

include ht named anchored main

/-- It is an invariant that scenarios are told by their ids, and that expressions can be written. -/
theorem valueInvariant_expressions : ValueInvariant ofRule effects env (expressions env r start) where
  refl _ := trivial
  trans _ _ := trivial
  mono _ serves := serves
  noise {c} hc journal depth stop := ⟨hc, trivial⟩
  next {c} hc notEof :=
    ⟨⟨hc.1, (stateInvariant_reaches ofRule effects env start).next c notEof hc.2⟩, trivial⟩
  chosen _ _ := trivial
  terminal hc hs fits :=
    r.serves_terminal hs fits ((TokenSource.anchored_of_reaches anchored hc.2).formed_peek main)
  absent c id optional := by
    -- only what follows a first operand and a list of arguments may be absent
    refine ⟨?_, ?_, ?_, fun _ => .inl rfl, fun _ => .inl rfl, ?_⟩ <;> rintro rfl
    · rw [ht.operand] at optional; cases optional
    · rw [ht.operation] at optional; cases optional
    · rw [ht.expression] at optional; cases optional
    · rw [ht.arguments] at optional; cases optional
  collected {c id values} repeatable _ := by
    -- only arguments behind the first one are repeated, and nothing is said of these
    refine ⟨?_, ?_, ?_, ?_, ?_, ?_⟩ <;> rintro rfl
    · rw [ht.operand] at repeatable; cases repeatable
    · rw [ht.operation] at repeatable; cases repeatable
    · rw [ht.expression] at repeatable; cases repeatable
    · rw [ht.chain] at repeatable; cases repeatable
    · rw [ht.argumentList] at repeatable; cases repeatable
    · rw [ht.arguments] at repeatable; cases repeatable
  performed {matchRule p v x c d} prepared _ hc serves acted := by
    have values (i : Nat) (s : Symbol) (there : p.symbols[i]? = some s) : r.Serves s (v.value? i) := by
      rcases Values.cases_value serves i with ⟨other, found, holds⟩ | ⟨missing, -⟩
      · cases there.symm.trans found
        exact holds
      · cases there.symm.trans missing
    have reaches := (stateInvariant_reaches ofRule effects env start).performed matchRule p v c prepared hc.2
    rw [acted] at reaches
    refine ⟨⟨⟨?_, reaches⟩, trivial⟩, fun id offered => ?_⟩
    · rcases cases_of_run_performed acted with ⟨-, ⟨⟩, rfl⟩ | ⟨a, journal, action, acted⟩
      · exact hc.1
      · refine Action.namesScenarios_of_run (c := { c with journal }) (prepared.allows a action).ne_rule hc.1
          (fun header id taken => ?_) acted
        subst header
        -- an attribute that a plan adds declares no scenario
        obtain ⟨rule, declared | ⟨-, e, -, -, stores⟩⟩ := prepared.offered
        · exact ((values 1 _ (named rule p declared action)).name taken).2
        · cases action.symm.trans stores
    · exact ExpressionRules.gives_yields ht offered values env c x d acted

end

end Planfile
