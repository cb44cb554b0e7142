import Planfile.Proofs.Expression.Rendering
import Planfile.Proofs.Matching.Levels

/-!
# Planfile — expressions are read as they are written

Where the tokens of an expression are ahead, and behind them one that it does not go on with, the expression
is what comes of reading it, and nothing else is read. Each rule takes one more level of the depth to which
rules may nest: there has to be room for as many levels as the expression has, and if there is none, the
depth is what is wrong.

Each rule of expressions is followed once, and the theorem is an induction on the expression.

Main results:

* `Operand.reads`, `Operation.reads` — operands and operations are read as they are written.
-/

namespace Planfile

open Matcher
open Plan (Operand Operation Operator)

section
variable {env : Surroundings} {r : ExpressionRules} {p : Plan.Project} {numbers : Nat → Int}

/-- Whether an operand is read as it is written. -/
def Plan.Operand.IsRead (env : Surroundings) (r : ExpressionRules) (p : Plan.Project) (numbers : Nat → Int)
    (a : Operand) : Prop :=
  RuleReads env p r.operand a.levels (fun _ => some (.operand a)) (a.tokens p numbers)
    fun next => a.canTake next = false

/-- Whether an operation is read as it is written. -/
def Plan.Operation.IsRead (env : Surroundings) (r : ExpressionRules) (p : Plan.Project) (numbers : Nat → Int)
    (o : Operation) : Prop :=
  RuleReads env p r.operation o.levels (fun _ => some (.operation o)) (o.tokens p numbers)
    fun next => o.canTake next = false

/-- The alternatives of an operand start with tokens. -/
theorem ExpressionRules.terminal_of_mem_operandPatterns (r : ExpressionRules) :
    ∀ q ∈ r.operandPatterns, q.terminal?.isSome = true := by
  simp [operandPatterns, nestedPattern, negationPattern, namePattern, tokenPattern, Pattern.terminal?,
    Pattern.first?, Symbol.terminal?]

/-- So do those of an operator with its operand. -/
theorem ExpressionRules.terminal_of_mem_chainPatterns (r : ExpressionRules) :
    ∀ q ∈ Operator.binary.map r.chainPattern, q.terminal?.isSome = true := by
  intro q mem
  obtain ⟨o, -, rfl⟩ := List.mem_map.mp mem
  rfl

/-- A name that looks like one starts a flag or a call. -/
theorem ExpressionRules.find?_of_isWord (r : ExpressionRules) {name : String}
    (word : Terminal.isWord name = true) :
    r.operandPatterns.find? (·.takes (.id name)) = some r.namePattern := by
  have other {text : String} (mark : Terminal.isWord text = false) :
      (Token.id name).matchesLiteral text = false := by
    rw [Token.matchesLiteral, Token.literalText?, beq_eq_false_iff_ne]
    rintro same
    cases same
    rw [word] at mark
    cases mark
  -- the marks of the first two alternatives do not look like names, and the next two are of other classes
  have nested : r.nestedPattern.takes (.id name) = false := other rfl
  have negation : r.negationPattern.takes (.id name) = false := other rfl
  rw [operandPatterns, List.find?_cons_of_neg (Bool.eq_false_iff.mp nested),
    List.find?_cons_of_neg (Bool.eq_false_iff.mp negation)]
  rfl

/-- The first token of an operand is one with which an operand can start. -/
theorem Plan.Operand.exists_first (p : Plan.Project) (numbers : Nat → Int) (r : ExpressionRules)
    (a : Operand) : ∃ first rest q, a.tokens p numbers = first :: rest ∧ q ∈ r.operandPatterns ∧
      q.takes first = true := by
  match a with
  | .operation (.negation _) => exact ⟨_, _, _, rfl, List.mem_of_getElem? (i := 1) rfl, rfl⟩
  | .operation (.plain _) | .operation (.binary _ _ _) =>
    exact ⟨.mark .leftParen, _, _, rfl, List.mem_of_getElem? (i := 0) rfl, rfl⟩
  | .attribute _ _ => exact ⟨_, _, _, rfl, List.mem_of_getElem? (i := 2) rfl, rfl⟩
  | .date _ => exact ⟨_, _, _, rfl, List.mem_of_getElem? (i := 3) rfl, rfl⟩
  | .flag _ | .call _ _ => exact ⟨_, _, _, rfl, List.mem_of_getElem? (i := 4) rfl, rfl⟩
  | .integer _ => exact ⟨_, _, _, rfl, List.mem_of_getElem? (i := 5) rfl, rfl⟩
  | .string _ => exact ⟨_, _, _, rfl, List.mem_of_getElem? (i := 6) rfl, rfl⟩

/-- An operation starts with an operand, if it is not a negation. -/
theorem Plan.Operation.exists_operand (p : Plan.Project) (numbers : Nat → Int) (o : Operation)
    (positive : o.isNegation = false) :
    ∃ (a : Operand) (rest : _), o.tokens p numbers = a.tokens p numbers ++ rest := by
  cases o with
  | plain a => exact ⟨a, [], (List.append_nil _).symm⟩
  | binary a operator b => exact ⟨a, _, rfl⟩
  | negation => cases positive

variable (ht : env.grammar.HasExpressions r)

include ht

/-- The first token of an operand chooses its alternative. -/
theorem GrammarTable.HasExpressions.chooses {first : Token} {q : Pattern}
    (found : r.operandPatterns.find? (·.takes first) = some q) {rest : List Token} :
    ∀ c behind, c.Hosts env p → c.tokens.Reads (first :: rest) behind →
      ∃ journal, choose r.operand env c = (.ok (some q), { c with journal }) := by
  intro c behind hosts reads
  have patterns := LiveGrammar.patterns_of_sound hosts.sound ht.operand rfl
  obtain ⟨journal, choice⟩ := run_choose_of_terminals patterns r.terminal_of_mem_operandPatterns
  rw [reads.next.1, found] at choice
  exact ⟨journal, choice⟩

/-- In front of any token but a parenthesis there are no arguments. -/
theorem GrammarTable.HasExpressions.noArguments :
    RuleReads env p r.argumentList 1 (fun _ => none) [] fun next => next.matchesLiteral "(" = false := by
  intro n c behind hosts reads next fuel
  refine RuleReads.absent ht.argumentList rfl (fun q mem => ?_) n c behind hosts reads ?_ fuel
  · rw [List.mem_singleton.mp mem]
    rfl
  · exact List.find?_cons_of_neg (Bool.eq_false_iff.mp next)

namespace Plan.Operand

/-- An operand that is a single token. -/
theorem isRead_of_token {a : Operand} {token : Token} {k : TokenClass} {action : LogicalAction}
    (tokens : a.tokens p numbers = [token]) (levels : a.levels = 1)
    (chosen : r.operandPatterns.find? (·.takes token) = some (ExpressionRules.tokenPattern k action))
    (acted : ∀ location d, d.project = some p →
      action.perform ⟨[.token token], location⟩ env d = (.ok (some (.operand a)), d)) :
    a.IsRead env r p numbers := by
  have takes := List.find?_some chosen
  have accepts : (Terminal.tokenClass k).accepts token = true := takes
  rw [IsRead, tokens, levels]
  refine .of_alternative (ExpressionRules.tokenPattern k action) [.token token] (by rw [ht.operand]) rfl
    (ht.chooses chosen) (fun m c behind hosts reads _ _ => ?_)
    fun _ location d there => ⟨d.journal, acted location d there⟩
  exact .class_cons k accepts reads fun _ _ _ rest => .nil rest.eq_of_nil.symm

/-- An operation in parentheses. -/
theorem isRead_nested {o : Operation} (h : o.IsRead env r p numbers) (positive : o.isNegation = false) :
    (Operand.operation o).IsRead env r p numbers := by
  have tokens : (Operand.operation o).tokens p numbers =
      .mark .leftParen :: (o.tokens p numbers ++ [.mark .rightParen]) := by
    rw [Operand.tokens, positive]
    rfl
  rw [IsRead, tokens]
  refine .of_alternative r.nestedPattern [.literal "(", .rule (some (.operation o)), .literal ")"]
    (by rw [ht.operand]) rfl (ht.chooses rfl) (fun m c behind hosts reads _ fuel => ?_)
    fun _ _ d _ => ⟨d.journal, rfl⟩
  refine .literal_cons "(" rfl reads fun mid journal mark rest => ?_
  obtain ⟨stop, inner, last⟩ := rest.split
  -- behind the operation comes the parenthesis
  have next : o.canTake stop.peek = false := by
    rw [last.next.1]
    exact o.canTake_eq_false rfl rfl
  rw [List.length_cons, List.length_append] at fuel
  have one := h m _ stop (hosts.of_noise mid journal c.depth mark) inner next (by dsimp only; omega)
  rw [← Nat.max_zero o.levels]
  exact one.rule_cons fun journal mark => .last_literal ")" rfl last

/-- A negation. -/
theorem isRead_negation {a : Operand} (h : a.IsRead env r p numbers) :
    (Operand.operation (.negation a)).IsRead env r p numbers := by
  have tokens : (Operand.operation (.negation a)).tokens p numbers = .mark .tilde :: a.tokens p numbers := rfl
  rw [IsRead, tokens]
  refine .of_alternative r.negationPattern [.literal "~", .rule (some (.operand a))]
    (by rw [ht.operand]) rfl (ht.chooses rfl) (fun m c behind hosts reads next fuel => ?_)
    fun _ _ d _ => ⟨d.journal, rfl⟩
  refine .literal_cons "~" rfl reads fun mid journal mark rest => .last_rule ?_
  rw [List.length_cons] at fuel
  exact h m _ behind (hosts.of_noise mid journal c.depth mark) rest next (by dsimp only; omega)

/-- An attribute in a scenario, where scenarios are told by their ids. -/
theorem isRead_attribute (names : p.NamesScenarios) {name : String} (noDot : '.' ∉ name.toList) {i : Nat}
    {s : Plan.Scenario} (there : p.scenario? i = some s) :
    (Operand.attribute name i).IsRead env r p numbers := by
  have scenario := names.noDot s.id (List.mem_map_of_mem (List.mem_of_getElem? there))
  have found := names.scenarioIndex? there
  refine isRead_of_token ht rfl rfl rfl fun location d project => ?_
  have operand : (attributeOperand (p.attributeId name i) : Matcher Operand) env d =
      (.ok (.attribute name i), d) := by
    rw [attributeOperand, Plan.idParts_attributeId there scenario noDot]
    dsimp only
    simp only [run_bind, Matcher.project, run_get, project, orFail, run_pure, found]
  have acted : LogicalAction.perform ⟨[.token (.absoluteId (p.attributeId name i))], location⟩ .attributeOf
      env d =
      ((fun a => some (.operand a)) <$> attributeOperand (p.attributeId name i)) env d := rfl
  rw [acted, run_map, operand]

/-- A flag that is declared, if no parenthesis follows. -/
theorem isRead_flag {name : String} (declared : p.hasFlag name = true) (word : Terminal.isWord name = true) :
    (Operand.flag name).IsRead env r p numbers := by
  have tokens : (Operand.flag name).tokens p numbers = [.id name] := rfl
  rw [IsRead, tokens]
  refine .of_alternative r.namePattern [.token (.id name), .rule none] (by rw [ht.operand]) rfl
    (ht.chooses (r.find?_of_isWord word)) (fun m c behind hosts reads next fuel => ?_)
    fun _ location d project => ?_
  · refine .class_cons .id rfl reads fun mid journal mark rest => .last_rule ?_
    rw [List.length_cons] at fuel
    exact ht.noArguments m _ behind (hosts.of_noise mid journal c.depth mark) rest next
      (by dsimp only; omega)
  · -- without arguments the name is looked up as a flag
    have found : (declaredFlag name : Matcher String) env d = (.ok name, d) := by
      simp only [declaredFlag, run_bind, Matcher.project, run_get, project, orFail, run_pure, declared, if_true]
    have acted : LogicalAction.perform ⟨[.token (.id name), .rule none], location⟩ .name env d =
        ((fun a => some (.operand a)) <$> (Operand.flag <$> declaredFlag name)) env d := rfl
    refine ⟨d.journal, acted.trans ?_⟩
    rw [run_map, run_map, found]

/-- Whatever stands for a date. -/
theorem isRead_date (value : Calendar.DateTime) : (Operand.date value).IsRead env r p numbers :=
  isRead_of_token ht rfl rfl rfl fun _ _ _ => rfl

theorem isRead_integer (value : Int) : (Operand.integer value).IsRead env r p numbers :=
  isRead_of_token ht rfl rfl rfl fun _ _ _ => rfl

theorem isRead_string (value : String) : (Operand.string value).IsRead env r p numbers :=
  isRead_of_token ht rfl rfl rfl fun _ _ _ => rfl

end Plan.Operand

/-! ## Operations -/

/-- In front of a token that is no operator there is no second operand. -/
theorem GrammarTable.HasExpressions.noChain :
    RuleReads env p r.chain 1 (fun _ => none) [] fun next => Plan.isOperator next = false := by
  intro n c behind hosts reads next fuel
  refine RuleReads.absent ht.chain rfl r.terminal_of_mem_chainPatterns n c behind hosts reads ?_ fuel
  refine List.find?_eq_none.mpr fun q mem takes => ?_
  obtain ⟨operator, listed, rfl⟩ := List.mem_map.mp mem
  have found : Plan.isOperator behind.peek = true := List.any_eq_true.mpr ⟨operator, listed, takes⟩
  rw [next] at found
  cases found

/-- An operator with the operand behind it. -/
theorem GrammarTable.HasExpressions.chainReads {operator : Operator} (positive : operator ≠ .not) {b : Operand}
    (h : b.IsRead env r p numbers) :
    RuleReads env p r.chain (b.levels + 1) (fun _ => some (.pair (.str operator.symbol) (.operand b)))
      (.mark operator.mark :: b.tokens p numbers) fun next => b.canTake next = false := by
  refine .of_alternative (r.chainPattern operator) [.literal operator.symbol, .rule (some (.operand b))]
    (by rw [ht.chain]) rfl (fun c behind hosts reads => ?_) (fun m c behind hosts reads next fuel => ?_)
    fun _ _ d _ => ⟨d.journal, rfl⟩
  · have patterns := LiveGrammar.patterns_of_sound hosts.sound ht.chain rfl
    obtain ⟨journal, choice⟩ := run_choose_of_terminals patterns r.terminal_of_mem_chainPatterns
    have found : (Operator.binary.map r.chainPattern).find? (·.takes (.mark operator.mark)) =
        some (r.chainPattern operator) := by
      cases operator with
      | not => exact absurd rfl positive
      | _ => rfl
    rw [reads.next.1, found] at choice
    exact ⟨journal, choice⟩
  · have fits : (Token.mark operator.mark).matchesLiteral operator.symbol = true := by
      rw [← operator.text_mark]
      exact beq_self_eq_true _
    refine .literal_cons operator.symbol fits reads fun mid journal mark rest => .last_rule ?_
    rw [List.length_cons] at fuel
    exact h m _ behind (hosts.of_noise mid journal c.depth mark) rest next (by dsimp only; omega)

/-- Where the tokens of an operand are ahead, an operand can start with the next one. -/
theorem GrammarTable.HasExpressions.starts (a : Operand) {c : Context} (hosts : c.Hosts env p)
    {rest : List Token} {behind : TokenSource} (reads : c.tokens.Reads (a.tokens p numbers ++ rest) behind)
    (room : Nat) :
    (LiveGrammar.mk env.grammar c.extensions).symbolAccepts c.tokens.peek (room + 1) (.rule r.operand) =
      .ok true := by
  obtain ⟨first, others, q, tokens, mem, takes⟩ := a.exists_first p numbers r
  rw [tokens, List.cons_append] at reads
  have patterns := LiveGrammar.patterns_of_sound hosts.sound ht.operand rfl
  rw [reads.next.1]
  exact LiveGrammar.symbolAccepts_of_terminals (by rw [patterns]; exact mem)
    (by rw [patterns]; exact r.terminal_of_mem_operandPatterns) takes

/-- An operation starts as its first operand does, and so does what starts with an operation. -/
theorem GrammarTable.HasExpressions.choosesOperation {id : RuleId} {rule : Rule} {q : Pattern}
    (declared : env.grammar.rule id = rule) (fixed : extendableNames.contains rule.name = false)
    (one : rule.patterns = [q]) (first : q.first? = some (.rule r.operand) ∨ q.first? = some (.rule r.operation))
    (numbers : Nat → Int) (a : Operand) {rest : List Token} :
    ∀ c behind, c.Hosts env p → c.tokens.Reads (a.tokens p numbers ++ rest) behind →
      ∃ journal, choose id env c = (.ok (some q), { c with journal }) := by
  intro c behind hosts reads
  have patterns := LiveGrammar.patterns_of_sound hosts.sound declared fixed
  rw [one] at patterns
  rcases first with first | first
  · exact run_choose_of_single patterns first (ht.starts a hosts reads _)
  · have operation := LiveGrammar.patterns_of_sound hosts.sound ht.operation rfl
    exact run_choose_of_single patterns first
      (LiveGrammar.symbolAccepts_of_single operation rfl (ht.starts a hosts reads _))

namespace Plan.Operation

/-- An operand alone, if no operator follows. -/
theorem isRead_plain {a : Operand} (h : a.IsRead env r p numbers) :
    (Operation.plain a).IsRead env r p numbers := by
  have tokens : (Operation.plain a).tokens p numbers = a.tokens p numbers ++ [] := (List.append_nil _).symm
  rw [IsRead, tokens]
  refine .of_alternative r.operationPattern [.rule (some (.operand a)), .rule none] (by rw [ht.operation]) rfl
    (ht.choosesOperation ht.operation rfl rfl (.inl rfl) numbers a)
    (fun m c behind hosts reads next fuel => ?_) fun _ _ d _ => ⟨d.journal, rfl⟩
  obtain ⟨noOperator, untaken⟩ := Bool.or_eq_false_iff.mp next
  rw [List.append_nil] at reads fuel
  refine (h m c behind hosts reads untaken fuel).rule_cons fun journal mark => .last_rule ?_
  exact ht.noChain m _ behind (hosts.of_noise behind journal c.depth mark) (.done _) noOperator
    (by dsimp only [List.length_nil]; omega)

/-- Two operands with an operator between them. -/
theorem isRead_binary {a b : Operand} {operator : Operator} (positive : operator ≠ .not)
    (ha : a.IsRead env r p numbers) (hb : b.IsRead env r p numbers) :
    (Operation.binary a operator b).IsRead env r p numbers := by
  have tokens : (Operation.binary a operator b).tokens p numbers =
      a.tokens p numbers ++ .mark operator.mark :: b.tokens p numbers := rfl
  rw [IsRead, tokens]
  refine .of_alternative r.operationPattern
    [.rule (some (.operand a)), .rule (some (.pair (.str operator.symbol) (.operand b)))]
    (by rw [ht.operation]) rfl (ht.choosesOperation ht.operation rfl rfl (.inl rfl) numbers a)
    (fun m c behind hosts reads next fuel => ?_) fun _ _ d _ => ⟨d.journal, ?_⟩
  · obtain ⟨mid, first, second⟩ := reads.split
    -- the first operand does not go on with the operator
    have untaken : a.canTake mid.peek = false := by
      rw [second.next.1]
      exact a.canTake_eq_false (by cases operator <;> rfl)
    rw [List.length_append, List.length_cons] at fuel
    have one := ha m c mid hosts first untaken (by omega)
    refine one.rule_cons fun journal mark => .last_rule ?_
    exact ht.chainReads positive hb m _ behind (hosts.of_noise mid journal c.depth mark) second next
      (by dsimp only [List.length_cons]; omega)
  · cases operator with
    | not => exact absurd rfl positive
    | _ => rfl

end Plan.Operation

/-! ## Arguments -/

/-- The value of an argument that is an integer. -/
def integerArgument (n : Int) : Value := .operation (.plain (.integer n))

/-- An integer is an operation, if no operator follows. -/
theorem GrammarTable.HasExpressions.integerReads (n : Int) :
    RuleReads env p r.operation 2 (fun _ => some (integerArgument n)) [.integer n]
      fun next => Plan.isOperator next = false := by
  intro m c behind hosts reads next fuel
  have alone : (Operation.plain (.integer n)).IsRead env r p (fun _ => 0) :=
    Plan.Operation.isRead_plain ht (Plan.Operand.isRead_integer ht n)
  exact alone m c behind hosts reads (Bool.or_eq_false_iff.mpr ⟨next, rfl⟩) fuel

omit ht in
/-- Neither the comma in front of an integer nor a parenthesis is an operator. -/
theorem not_isOperator_of_follows {next : Token}
    (h : (∃ n : Int, ([.mark .comma, .integer n] : List Token).head? = some next) ∨
      next = .mark .rightParen) : Plan.isOperator next = false := by
  rcases h with ⟨_, comma⟩ | last
  · rw [← Option.some.inj comma]
    rfl
  · rw [last]
    rfl

/-- Integers behind commas are read one after the other, up to the parenthesis. -/
theorem GrammarTable.HasExpressions.readsArguments :
    ReadsItems env p r.morePattern 2 (fun n => [.mark .comma, .integer n]) integerArgument
      fun next => next = .mark .rightParen where
  terminal := rfl
  starts n := ⟨_, _, rfl, rfl⟩
  stops next last := by
    rw [last]
    rfl
  reads n m c behind hosts reads follows fuel := by
    have symbols : ReadsTo 2 [.literal ",", .rule (some (integerArgument n))] behind
        (matchSymbols (matchRule m) [.literal ",", .rule r.operation]) env c := by
      refine .literal_cons "," rfl reads fun after journal mark rest => .last_rule ?_
      exact ht.integerReads n m _ behind (hosts.of_noise after journal c.depth mark) rest
        (not_isOperator_of_follows follows)
        (by dsimp only [List.length_cons, List.length_nil] at fuel ⊢; omega)
    exact symbols.pattern rfl fun d _ => ⟨d.journal, rfl⟩

/-- More arguments, and the parenthesis behind them. -/
theorem GrammarTable.HasExpressions.moreArgumentsRead (integers : List Int) :
    RuleReads env p r.moreArguments (if integers.isEmpty then 1 else 3)
      (fun _ => collected (integers.map integerArgument).reverse) (Plan.moreIntegerTokens integers)
      fun next => next = .mark .rightParen := by
  have levels : (if integers.isEmpty then 1 else 3) = (if integers.isEmpty then 0 else 2) + 1 := by
    split <;> rfl
  rw [levels]
  exact ht.readsArguments.ruleReads ht.moreArguments rfl integers

/-- All arguments, and the parenthesis behind them. -/
theorem GrammarTable.HasExpressions.argumentsRead (n : Int) (rest : List Int) :
    RuleReads env p r.arguments (max 2 (if rest.isEmpty then 1 else 3) + 1)
      (fun _ => some (.list ((n :: rest).map integerArgument))) (Plan.integerTokens (n :: rest))
      fun next => next = .mark .rightParen := by
  refine .of_alternative r.argumentsPattern
    [.rule (some (integerArgument n)), .rule (collected (rest.map integerArgument).reverse)]
    (by rw [ht.arguments]) rfl
    (ht.choosesOperation ht.arguments rfl rfl (.inr rfl) (fun _ => 0) (.integer n))
    (fun m c behind hosts reads next fuel => ?_) fun _ _ d _ => ⟨d.journal, ?_⟩
  · have tokens : Plan.integerTokens (n :: rest) = [.integer n] ++ Plan.moreIntegerTokens rest := rfl
    rw [tokens] at reads fuel
    obtain ⟨mid, first, others⟩ := reads.split
    rw [List.length_append, List.length_singleton] at fuel
    have one := ht.integerReads n m c mid hosts first
      (not_isOperator_of_follows ((ht.readsArguments (p := p)).follows others next))
      (by rw [List.length_singleton]; omega)
    refine one.rule_cons fun journal mark => .last_rule ?_
    exact ht.moreArgumentsRead rest m _ behind (hosts.of_noise mid journal c.depth mark) others next
      (by dsimp only; omega)
  · -- the others have been collected in reverse, or there are none
    have more := items_collected (rest.map integerArgument).reverse
    rw [List.reverse_reverse] at more
    exact congrArg (fun others => (Except.ok (some (Value.list (integerArgument n :: others))), d)) more

/-- A list of arguments is at least one, in parentheses. -/
theorem GrammarTable.HasExpressions.argumentListRead (n : Int) (rest : List Int) :
    RuleReads env p r.argumentList (max 2 (if rest.isEmpty then 1 else 3) + 2)
      (fun _ => some (.list ((n :: rest).map integerArgument)))
      (.mark .leftParen :: (Plan.integerTokens (n :: rest) ++ [.mark .rightParen])) fun _ => True := by
  refine .of_alternative r.argumentListPattern
    [.literal "(", .rule (some (.list ((n :: rest).map integerArgument))), .literal ")"]
    (by rw [ht.argumentList]) rfl (fun c behind hosts reads => ?_)
    (fun m c behind hosts reads _ fuel => ?_) fun _ _ d _ => ⟨d.journal, rfl⟩
  · have patterns := LiveGrammar.patterns_of_sound hosts.sound ht.argumentList rfl
    obtain ⟨journal, choice⟩ := run_choose_of_terminals patterns fun q mem => by
      rw [List.mem_singleton.mp mem]
      rfl
    rw [reads.next.1] at choice
    exact ⟨journal, choice⟩
  · refine .literal_cons "(" rfl reads fun mid journal mark others => ?_
    obtain ⟨stop, inner, last⟩ := others.split
    rw [List.length_cons, List.length_append] at fuel
    have one := ht.argumentsRead n rest m _ stop (hosts.of_noise mid journal c.depth mark) inner last.next.1
      (by dsimp only; omega)
    rw [← Nat.max_zero (_ + 1)]
    exact one.rule_cons fun journal mark => .last_literal ")" rfl last

/-- A call with integers as its arguments. -/
theorem Plan.Operand.isRead_call {function : String} (word : Terminal.isWord function = true) {count : Nat}
    (positive : 1 ≤ count) : (Operand.call function count).IsRead env r p numbers := by
  obtain ⟨more, rfl⟩ : ∃ more, count = more + 1 := ⟨count - 1, by omega⟩
  -- the first integer stands alone, and each of the others behind a comma
  obtain ⟨n, rest, integers⟩ : ∃ n rest, (List.range (more + 1)).map numbers = n :: rest :=
    List.exists_cons_of_ne_nil fun none => by simp at none
  have length : rest.length = more := by
    have all := congrArg List.length integers
    rw [List.length_map, List.length_range, List.length_cons] at all
    omega
  have tokens : (Operand.call function (more + 1)).tokens p numbers =
      .id function :: .mark .leftParen :: (Plan.integerTokens (n :: rest) ++ [.mark .rightParen]) := by
    rw [tokens, integers]
    rfl
  have levels : (Operand.call function (more + 1)).levels = max 2 (if rest.isEmpty then 1 else 3) + 2 + 1 := by
    rw [levels]
    cases rest with
    | nil => rw [if_pos (by rw [← length]; exact Nat.le_refl _)]; rfl
    | cons other rest =>
      rw [List.length_cons] at length
      rw [if_neg (by omega)]
      rfl
  rw [IsRead, tokens, levels]
  refine .of_alternative r.namePattern
    [.token (.id function), .rule (some (.list ((n :: rest).map integerArgument)))]
    (by rw [ht.operand]) rfl (ht.chooses (r.find?_of_isWord word))
    (fun m c behind hosts reads _ fuel => ?_) fun _ location d _ => ?_
  · refine .class_cons .id rfl reads fun mid journal mark others => .last_rule ?_
    rw [List.length_cons] at fuel
    exact ht.argumentListRead n rest m _ behind (hosts.of_noise mid journal c.depth mark) others trivial
      (by dsimp only; omega)
  · -- of the arguments only the number is kept, and the journal has a warning
    have arguments : ((n :: rest).map integerArgument).length = more + 1 := by
      rw [List.length_map, List.length_cons, length]
    have acted : LogicalAction.perform
        ⟨[.token (.id function), .rule (some (.list ((n :: rest).map integerArgument)))], location⟩
        .name env d =
        ((fun a => some (Value.operand a)) <$>
          functionCall function ((n :: rest).map integerArgument).length location) env d := rfl
    rw [arguments] at acted
    exact ⟨_, acted⟩

/-! ## Expressions -/

mutual

/-- Every operand that can be written is read as it is written. -/
theorem Plan.Operand.reads (names : p.NamesScenarios) :
    ∀ a : Operand, a.IsWritable p → a.IsRead env r p numbers
  | .operation (.negation a), h => Operand.isRead_negation ht (a.reads names h)
  | .operation (.plain a), h => Operand.isRead_nested ht ((Operation.plain a).reads names h rfl) rfl
  | .operation (.binary a operator b), h =>
    Operand.isRead_nested ht ((Operation.binary a operator b).reads names h rfl) rfl
  | .attribute _ _, ⟨noDot, _, there⟩ => Operand.isRead_attribute ht names noDot there
  | .flag _, ⟨declared, word⟩ => Operand.isRead_flag ht declared word
  | .date value, _ => Operand.isRead_date ht value
  | .integer value, _ => Operand.isRead_integer ht value
  | .string value, _ => Operand.isRead_string ht value
  | .call _ _, ⟨word, positive⟩ => Operand.isRead_call ht word positive

/-- So is every operation but a negation, which only stands where an operand does. -/
theorem Plan.Operation.reads (names : p.NamesScenarios) :
    ∀ o : Operation, o.IsWritable p → o.isNegation = false → o.IsRead env r p numbers
  | .plain a, h, _ => Operation.isRead_plain ht (a.reads names h)
  | .binary a _ b, ⟨first, positive, second⟩, _ =>
    Operation.isRead_binary ht positive (a.reads names first) (b.reads names second)
  | .negation _, _, negated => nomatch negated

end

/-- An expression is an operation, and the place where it is written. -/
theorem GrammarTable.HasExpressions.expressionReads (names : p.NamesScenarios) {o : Operation}
    (writable : o.IsWritable p) (positive : o.isNegation = false) :
    RuleReads env p r.expression (o.levels + 1) (fun l => some (.expression ⟨o, l.file, l.line⟩))
      (o.tokens p numbers) fun next => o.canTake next = false := by
  refine .of_alternative r.expressionPattern [.rule (some (.operation o))] (by rw [ht.expression]) rfl
    (fun c behind hosts reads => ?_) (fun m c behind hosts reads next fuel => .last_rule ?_)
    fun _ _ d _ => ⟨d.journal, rfl⟩
  · -- what comes first is an operand, and an expression can start as one
    obtain ⟨a, rest, tokens⟩ := o.exists_operand p numbers positive
    rw [tokens] at reads
    exact ht.choosesOperation ht.expression rfl rfl (.inr rfl) numbers a c behind hosts reads
  · exact o.reads ht names writable positive m c behind hosts reads next fuel

end

end Planfile
