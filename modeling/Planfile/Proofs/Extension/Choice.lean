import Planfile.Proofs.Extension.Mirror
import Planfile.Proofs.Extension.Start

/-!
# Planfile — one alternative at most, whatever a plan adds

An attribute is added only if its keyword is refused by the rule that takes the attributes of its kind.
The rule that takes those for scenarios stands inside that rule, so this is enough for both. So however
much a plan adds, one token still decides between the alternatives of every rule, and the keywords of
attributes are those of the language and those that the plan has added.

Main results:

* `Context.Fresh.exclusive` — where added keywords are new, no token leaves a choice.
* `Language.chooses_of_passes` — so it is in every state that is passed while a plan is read.
-/

namespace Planfile

open Plan (PropertyKind AttributeDefinition)
open LiveGrammar (ofTable Starts)

/-! ## Where attributes stand -/

/-- How the rules that take attributes are placed in a grammar: nothing starts with the rule for plain
ones, and nothing but one alternative of that rule starts with the rule for those of scenarios. -/
structure GrammarTable.Nests (t : GrammarTable) (plain scenarios : RuleId) : Prop where
  outermost : ∀ id, ∀ p ∈ (t.rule id).patterns, p.first? ≠ some (.rule plain)
  inner : ∀ id, ∀ p ∈ (t.rule id).patterns, p.first? = some (.rule scenarios) → id = plain
  nested : ∃ p ∈ (t.rule plain).patterns, p.first? = some (.rule scenarios)
  single : (t.rule plain).patterns.Pairwise fun p q =>
    ¬(p.first? = some (.rule scenarios) ∧ q.first? = some (.rule scenarios))
  /-- No identifier is taken whatever it is. -/
  named : ∀ p ∈ (t.rule plain).patterns, .tokenClass .id ∉ t.firstTerminals p

/-- Whether the rules that take attributes are placed so, for both kinds. -/
def GrammarTable.Hosting (t : GrammarTable) : Prop :=
  ∀ kind, ∃ plain scenarios, t.ruleId? (hostName kind false) = some plain ∧
    t.ruleId? (hostName kind true) = some scenarios ∧ t.Nests plain scenarios

namespace GrammarTable

variable {t : GrammarTable}

/-- To a rule that takes attributes leads itself, and to one for scenarios the one around it. -/
theorem Hosting.of_leadsTo (hn : t.Hosting) {s : Symbol} {goal : RuleId} (h : t.LeadsTo s goal)
    {kind : PropertyKind} {specific : Bool} (hosts : t.ruleId? (hostName kind specific) = some goal) :
    s = .rule goal ∨ specific = true ∧ ∃ plain, t.ruleId? (hostName kind false) = some plain ∧
      s = .rule plain := by
  obtain ⟨plain, scenarios, knownPlain, knownScenarios, nests⟩ := hn kind
  -- by induction on the chain, from its end to its start
  induction h with
  | here => exact .inl rfl
  | @first id goal p s mem first _ ih =>
    rcases ih hosts with rfl | ⟨rfl, other, known, rfl⟩
    · cases specific with
      | false =>
        rw [hosts] at knownPlain
        cases knownPlain
        exact absurd first (nests.outermost id p mem)
      | true =>
        rw [hosts] at knownScenarios
        cases knownScenarios
        exact .inr ⟨rfl, plain, knownPlain, by rw [nests.inner id p mem first]⟩
    · rw [known] at knownPlain
      cases knownPlain
      exact absurd first (nests.outermost id p mem)

/-- To both rules leads the one for plain attributes. -/
theorem Hosting.leadsTo (hn : t.Hosting) {kind : PropertyKind} {plain rule : RuleId} {specific : Bool}
    (known : t.ruleId? (hostName kind false) = some plain)
    (hosts : t.ruleId? (hostName kind specific) = some rule) : t.LeadsTo (.rule plain) rule := by
  obtain ⟨plain', scenarios, knownPlain, knownScenarios, nests⟩ := hn kind
  obtain rfl : plain = plain' := Option.some.inj (known.symm.trans knownPlain)
  cases specific with
  | false =>
    rw [hosts] at known
    cases known
    exact .here
  | true =>
    rw [hosts] at knownScenarios
    cases knownScenarios
    obtain ⟨p, mem, first⟩ := nests.nested
    exact .first mem first .here

/-- Of the alternatives of a rule one at most stands for the attributes of scenarios. -/
theorem Hosting.pairwise (hn : t.Hosting) (id : RuleId) :
    (t.rule id).patterns.Pairwise fun p q => ∀ kind scenarios,
      t.ruleId? (hostName kind false) = some id → t.ruleId? (hostName kind true) = some scenarios →
        ¬(p.first? = some (.rule scenarios) ∧ q.first? = some (.rule scenarios)) := by
  by_cases hosting : ∃ kind, t.ruleId? (hostName kind false) = some id
  · obtain ⟨kind, known⟩ := hosting
    obtain ⟨plain, scenarios, knownPlain, knownScenarios, nests⟩ := hn kind
    obtain rfl : id = plain := Option.some.inj (known.symm.trans knownPlain)
    refine nests.single.imp fun {p q} single other scenarios' known' inside => ?_
    obtain ⟨rfl, -⟩ := eq_of_hostName known known'
    obtain rfl : scenarios = scenarios' := Option.some.inj (knownScenarios.symm.trans inside)
    exact single
  · exact List.pairwise_of_forall fun _ _ kind _ known => absurd ⟨kind, known⟩ hosting

end GrammarTable

/-! ## Literals -/

/-- A token asked for by two literals is asked for by one. -/
theorem Token.literal_unique {token : Token} {a b : String} (ha : token.matchesLiteral a = true)
    (hb : token.matchesLiteral b = true) : a = b := by
  unfold matchesLiteral at ha hb
  exact Option.some.inj ((beq_iff_eq.mp ha).symm.trans (beq_iff_eq.mp hb))

/-- What can start with a token that a literal asks for can start with the literal as an identifier. -/
theorem LiveGrammar.Starts.of_matchesLiteral {g : LiveGrammar} {token : Token} {s : Symbol}
    (h : g.Starts token s) {word : String} (fits : token.matchesLiteral word = true) :
    g.Starts (.id word) s := by
  induction h with
  | @terminal s a hs accepts =>
    refine .terminal hs ?_
    cases a with
    | literal text =>
      obtain rfl := Token.literal_unique accepts fits
      exact beq_self_eq_true _
    | tokenClass k =>
      obtain rfl := LiveGrammar.class?_of_matchesLiteral fits (beq_iff_eq.mp accepts)
      rfl
  | rule mem first _ ih => exact .rule mem first ih

/-- Where a chain leads from a symbol to a rule, the symbol can start as the rule can. -/
theorem LiveGrammar.Starts.of_chain {t : GrammarTable} {token : Token} {s : Symbol} {goal : RuleId}
    (h : t.LeadsTo s goal) (starts : (ofTable t).Starts token (.rule goal)) :
    (ofTable t).Starts token s := by
  induction h with
  | here => exact starts
  | first mem first _ ih => exact .rule (by rwa [patterns_ofTable]) first (ih starts)

/-- The alternative of an added attribute is chosen by its keyword. -/
theorem AttributeExtension.patternAccepts_pattern (e : AttributeExtension) (reference : RuleId)
    (g : LiveGrammar) (token : Token) :
    g.patternAccepts token (e.pattern reference) = .ok (token.matchesLiteral e.keyword) :=
  LiveGrammar.symbolAccepts_literal g token _ e.keyword

/-! ## New keywords -/

namespace Context

/-- Whether the keywords of added attributes are new: those of one kind are distinct, and no attribute
of the language starts with one of them. -/
structure Fresh (t : GrammarTable) (c : Context) : Prop where
  distinct : ∀ kind, ((c.added kind).map (·.extension.keyword)).Nodup
  unreserved : ∀ kind plain, t.ruleId? (hostName kind false) = some plain → ∀ d ∈ c.added kind,
    ¬(ofTable t).Starts (.id d.extension.keyword) (.rule plain)

variable {t : GrammarTable} {reference : RuleId} {c : Context}

/-- What has been added to the grammar are the alternatives of added attributes. -/
theorem Mirrors.mem_extensions_iff (h : c.Mirrors t reference) {rule : RuleId} {q : Pattern} :
    (rule, q) ∈ c.extensions ↔ ∃ kind, ∃ d ∈ c.added kind,
      t.ruleId? (hostName kind d.scenarioSpecific) = some rule ∧ q = d.extension.pattern reference := by
  have mem : (rule, q) ∈ c.extensions ↔ q ∈ (LiveGrammar.mk t c.extensions).addedTo rule := by
    simp [LiveGrammar.addedTo]
  rw [mem]
  constructor
  · intro listed
    by_cases hosting : ∃ kind specific, t.ruleId? (hostName kind specific) = some rule
    · obtain ⟨kind, specific, hosts⟩ := hosting
      rw [h.hosts kind specific rule hosts] at listed
      obtain ⟨d, there, rfl⟩ := List.mem_map.mp listed
      obtain ⟨added, takes⟩ := List.mem_filter.mp there
      obtain rfl : d.scenarioSpecific = specific := beq_iff_eq.mp takes
      exact ⟨kind, d, added, hosts, rfl⟩
    · rw [h.others rule fun kind specific hosts => hosting ⟨kind, specific, hosts⟩] at listed
      cases listed
  · rintro ⟨kind, d, added, hosts, rfl⟩
    rw [h.hosts kind d.scenarioSpecific rule hosts]
    exact List.mem_map.mpr ⟨d, List.mem_filter.mpr ⟨added, beq_self_eq_true _⟩, rfl⟩

/-- What has been added to the grammar starts with a keyword. -/
theorem Mirrors.addsKeywords (h : c.Mirrors t reference) :
    LiveGrammar.AddsKeywords ⟨t, c.extensions⟩ := by
  rintro ⟨rule, q⟩ listed
  obtain ⟨_, d, -, -, rfl⟩ := h.mem_extensions_iff.mp listed
  rfl

/-- A symbol starts as it does in the language, or with the keyword of an added attribute to whose rule
its chains lead. -/
theorem Mirrors.starts_iff (h : c.Mirrors t reference) {token : Token} {s : Symbol} :
    (LiveGrammar.mk t c.extensions).Starts token s ↔ (ofTable t).Starts token s ∨
      ∃ kind, ∃ d ∈ c.added kind, ∃ rule, t.ruleId? (hostName kind d.scenarioSpecific) = some rule ∧
        t.LeadsTo s rule ∧ token.matchesLiteral d.extension.keyword = true := by
  rw [LiveGrammar.starts_iff h.addsKeywords]
  refine or_congr_right ⟨?_, ?_⟩
  · rintro ⟨rule, q, word, listed, keyword, leads, fits⟩
    obtain ⟨kind, d, added, hosts, rfl⟩ := h.mem_extensions_iff.mp listed
    cases keyword
    exact ⟨kind, d, added, rule, hosts, leads, fits⟩
  · rintro ⟨kind, d, added, rule, hosts, leads, fits⟩
    exact ⟨rule, _, _, h.mem_extensions_iff.mpr ⟨kind, d, added, hosts, rfl⟩, rfl, leads, fits⟩

section
variable (hm : c.Mirrors t reference) (hn : t.Hosting)

include hm hn

/-- The rule for the attributes of a kind starts with the keywords of the language and with those that
have been added to this kind. -/
theorem starts_plain_iff {kind : PropertyKind} {plain : RuleId}
    (known : t.ruleId? (hostName kind false) = some plain) {word : String} :
    (LiveGrammar.mk t c.extensions).Starts (.id word) (.rule plain) ↔
      (ofTable t).Starts (.id word) (.rule plain) ∨
        ∃ d ∈ c.added kind, d.extension.keyword = word := by
  rw [hm.starts_iff]
  refine or_congr_right ⟨?_, ?_⟩
  · rintro ⟨other, d, added, rule, hosts, leads, fits⟩
    -- the plain rule leads to the rule of scenarios of its own kind, and to no other that hosts attributes
    have same : other = kind := by
      rcases hn.of_leadsTo leads hosts with here | ⟨-, plain', known', here⟩
      · cases here
        exact (eq_of_hostName hosts known).1
      · cases here
        exact (eq_of_hostName known' known).1
    subst same
    refine ⟨d, added, ?_⟩
    exact (Option.some.inj (beq_iff_eq.mp fits)).symm
  · rintro ⟨d, added, rfl⟩
    obtain ⟨_, _, knownPlain, knownScenarios, -⟩ := hn kind
    have hosted : ∃ rule, t.ruleId? (hostName kind d.scenarioSpecific) = some rule := by
      cases d.scenarioSpecific
      · exact ⟨_, knownPlain⟩
      · exact ⟨_, knownScenarios⟩
    obtain ⟨rule, hosts⟩ := hosted
    exact ⟨kind, d, added, rule, hosts, hn.leadsTo known hosts, beq_self_eq_true _⟩

/-- An alternative of the language starts as it does there, or, if it stands for the attributes of
scenarios, with the keyword of one that has been added to these. -/
theorem starts_first {id : RuleId} {p : Pattern} (mem : p ∈ (t.rule id).patterns) {s : Symbol}
    (first : p.first? = some s) {token : Token} (h : (LiveGrammar.mk t c.extensions).Starts token s) :
    (ofTable t).Starts token s ∨ ∃ kind scenarios, t.ruleId? (hostName kind false) = some id ∧
      t.ruleId? (hostName kind true) = some scenarios ∧ s = .rule scenarios ∧
      ∃ d ∈ c.added kind, d.scenarioSpecific = true ∧
        token.matchesLiteral d.extension.keyword = true := by
  rcases hm.starts_iff.mp h with before | ⟨kind, d, added, rule, hosts, leads, fits⟩
  · exact .inl before
  · obtain ⟨plain, scenarios, knownPlain, knownScenarios, nests⟩ := hn kind
    rcases hn.of_leadsTo leads hosts with rfl | ⟨-, other, known, rfl⟩
    · cases specific : d.scenarioSpecific with
      | false =>
        rw [specific, knownPlain] at hosts
        cases hosts
        exact absurd first (nests.outermost id p mem)
      | true =>
        rw [specific, knownScenarios] at hosts
        cases hosts
        obtain rfl := nests.inner id p mem first
        exact .inr ⟨kind, rule, knownPlain, knownScenarios, rfl, d, added, specific, fits⟩
    · rw [knownPlain] at known
      cases known
      exact absurd first (nests.outermost id p mem)

end

/-- Of added attributes of one kind only one is asked for by a token. -/
theorem Fresh.eq_of_fits (hf : c.Fresh t) {kind : PropertyKind} {d e : AttributeDefinition} (hd : d ∈ c.added kind)
    (he : e ∈ c.added kind) {token : Token}
    (fits : token.matchesLiteral d.extension.keyword = true)
    (fits' : token.matchesLiteral e.extension.keyword = true) : d = e :=
  List.inj_on_of_nodup_map (hf.distinct kind) hd he (Token.literal_unique fits fits')

section
variable (hf : c.Fresh t) (hn : t.Hosting)

include hf hn

/-- What an alternative of a rule that takes attributes starts with in the language asks for no added
keyword. -/
theorem Fresh.not_fits {kind : PropertyKind} {specific : Bool} {id : RuleId}
    (hosts : t.ruleId? (hostName kind specific) = some id) {p : Pattern}
    (mem : p ∈ (t.rule id).patterns) {s : Symbol} (first : p.first? = some s) {token : Token}
    (starts : (ofTable t).Starts token s) {d : AttributeDefinition} (added : d ∈ c.added kind)
    (fits : token.matchesLiteral d.extension.keyword = true) : False := by
  obtain ⟨plain, _, known, -, -⟩ := hn kind
  have rule : (ofTable t).Starts token (.rule id) :=
    .rule (by rwa [LiveGrammar.patterns_ofTable]) first starts
  have outer := Starts.of_chain (hn.leadsTo known hosts) rule
  exact hf.unreserved kind plain known d added (outer.of_matchesLiteral fits)

end

section
variable (hm : c.Mirrors t reference) (ht : t.Extensible) {id : RuleId} {token : Token}

include ht in
/-- An alternative that starts with a token in the language is one that is chosen by it there. -/
theorem accepts_of_starts {p : Pattern} (mem : p ∈ (t.rule id).patterns) {s : Symbol}
    (first : p.first? = some s) (starts : (ofTable t).Starts token s) :
    (ofTable t).patternAccepts token p = .ok true :=
  (LiveGrammar.patternAccepts_iff (LiveGrammar.addsKeywords_ofTable t) (ht.chains id)
    (by rwa [LiveGrammar.patterns_ofTable])).mpr ⟨s, first, starts⟩

include hm ht in
/-- An alternative of the language that is chosen by a token starts with it. -/
theorem Mirrors.exists_starts {p : Pattern} (mem : p ∈ (t.rule id).patterns)
    (accepts : (LiveGrammar.mk t c.extensions).patternAccepts token p = .ok true) :
    ∃ s, p.first? = some s ∧ (LiveGrammar.mk t c.extensions).Starts token s :=
  (LiveGrammar.patternAccepts_iff hm.addsKeywords (ht.chains id) (List.mem_append_left _ mem)).mp accepts

include hm in
/-- An alternative that has been added and is chosen by a token asks for it. -/
theorem Mirrors.exists_added {q : Pattern} (mem : q ∈ (LiveGrammar.mk t c.extensions).addedTo id)
    (accepts : (LiveGrammar.mk t c.extensions).patternAccepts token q = .ok true) :
    ∃ kind, ∃ d ∈ c.added kind, t.ruleId? (hostName kind d.scenarioSpecific) = some id ∧
      token.matchesLiteral d.extension.keyword = true := by
  have listed : (id, q) ∈ c.extensions := by simpa [LiveGrammar.addedTo] using mem
  obtain ⟨kind, d, added, hosts, rfl⟩ := hm.mem_extensions_iff.mp listed
  rw [AttributeExtension.patternAccepts_pattern] at accepts
  exact ⟨kind, d, added, hosts, Except.ok.inj accepts⟩

variable (hf : c.Fresh t) (hn : t.Hosting)

include hm ht hf hn in
/-- No token leaves a choice between two alternatives of the language. -/
theorem Fresh.exclusive_declared (before : (ofTable t).Exclusive id token) :
    (t.rule id).patterns.Pairwise fun p q =>
      ¬((LiveGrammar.mk t c.extensions).patternAccepts token p = .ok true ∧
        (LiveGrammar.mk t c.extensions).patternAccepts token q = .ok true) := by
  have apart := hn.pairwise id
  rw [LiveGrammar.Exclusive, LiveGrammar.patterns_ofTable] at before
  refine (before.and apart).imp_of_mem fun {p q} hp hq both => ?_
  obtain ⟨notBoth, single⟩ := both
  rintro ⟨acceptsP, acceptsQ⟩
  obtain ⟨s, first, starts⟩ := hm.exists_starts ht hp acceptsP
  obtain ⟨s', first', starts'⟩ := hm.exists_starts ht hq acceptsQ
  rcases starts_first hm hn hp first starts with
    base | ⟨kind, scenarios, known, inside, rfl, d, added, -, fits⟩
  · rcases starts_first hm hn hq first' starts' with
      base' | ⟨kind, scenarios, known, -, -, d, added, -, fits⟩
    · exact notBoth ⟨accepts_of_starts ht hp first base, accepts_of_starts ht hq first' base'⟩
    · exact hf.not_fits hn known hp first base added fits
  · rcases starts_first hm hn hq first' starts' with
      base' | ⟨kind', scenarios', known', inside', rfl, -⟩
    · exact hf.not_fits hn known hq first' base' added fits
    · obtain ⟨rfl, -⟩ := eq_of_hostName known known'
      obtain rfl : scenarios = scenarios' := Option.some.inj (inside.symm.trans inside')
      exact single kind scenarios known inside ⟨first, first'⟩

include hm hf in
/-- No token leaves a choice between two alternatives that have been added. -/
theorem Fresh.exclusive_added : ((LiveGrammar.mk t c.extensions).addedTo id).Pairwise fun p q =>
    ¬((LiveGrammar.mk t c.extensions).patternAccepts token p = .ok true ∧
      (LiveGrammar.mk t c.extensions).patternAccepts token q = .ok true) := by
  by_cases hosting : ∃ kind specific, t.ruleId? (hostName kind specific) = some id
  · obtain ⟨kind, specific, hosts⟩ := hosting
    rw [hm.hosts kind specific id hosts, List.pairwise_map]
    refine ((List.pairwise_map.mp (hf.distinct kind)).filter _).imp fun {d e} differ => ?_
    rw [AttributeExtension.patternAccepts_pattern, AttributeExtension.patternAccepts_pattern]
    rintro ⟨fits, fits'⟩
    exact differ (Token.literal_unique (Except.ok.inj fits) (Except.ok.inj fits'))
  · rw [hm.others id fun kind specific hosts => hosting ⟨kind, specific, hosts⟩]
    exact .nil

include hm ht hf hn in
/-- Where the keywords that have been added are new, no token leaves a choice if it left none before. -/
theorem Fresh.exclusive (before : (ofTable t).Exclusive id token) :
    (LiveGrammar.mk t c.extensions).Exclusive id token := by
  refine List.pairwise_append.mpr
    ⟨hf.exclusive_declared hm ht hn before, hf.exclusive_added hm, ?_⟩
  -- there remain one of the language and one that has been added
  rintro p hp q hq ⟨acceptsP, acceptsQ⟩
  obtain ⟨s, first, starts⟩ := hm.exists_starts ht hp acceptsP
  obtain ⟨kind, d, added, hosts, fits⟩ := hm.exists_added hq acceptsQ
  rcases starts_first hm hn hp first starts with
    base | ⟨kind', scenarios, known, -, -, e, added', specific, fits'⟩
  · exact hf.not_fits hn hosts hp first base added fits
  · obtain ⟨rfl, plain⟩ := eq_of_hostName hosts known
    obtain rfl := hf.eq_of_fits added added' fits fits'
    rw [specific] at plain
    cases plain

end

/-! ## Every state that is passed -/

/-- No more is needed for keywords to be new than the schemas. -/
theorem Fresh.of_schema (hf : c.Fresh t) {d : Context} (schema : d.schema = c.schema) : d.Fresh t := by
  have same (kind : PropertyKind) : d.added kind = c.added kind := by rw [added, added, schema]
  exact ⟨fun kind => by rw [same]; exact hf.distinct kind,
    fun kind plain known x hx => hf.unreserved kind plain known x (same kind ▸ hx)⟩

/-- As long as nothing has been added, keywords are new. -/
theorem fresh_of_nil (none : ∀ kind, c.added kind = []) : c.Fresh t :=
  ⟨fun kind => by rw [none]; exact List.nodup_nil, fun kind plain _ d added => by
    rw [none] at added
    cases added⟩

/-- The keyword of an attribute is new where the rule that takes the attributes of its kind refuses
it. -/
theorem Fresh.extended (hf : c.Fresh t) (hm : c.Mirrors t reference)
    (hn : t.Hosting) (ht : t.Extensible) (aimed : c.Aimed t) {target : ExtendTarget} {q : Plan.Project}
    {set : Plan.PropertySet} {e : AttributeExtension} (there : c.extendTarget = some target)
    (started : c.project = some q)
    (free : LiveGrammar.ruleAccepts ⟨t, c.extensions⟩ target.rule (.id e.keyword) = .ok false)
    (defined : (q.properties target.kind).define? e.definition = .ok set) :
    (c.extended reference target q set e).Fresh t := by
  obtain ⟨known, -⟩ := aimed target there
  have refused : ¬(LiveGrammar.mk t c.extensions).Starts (.id e.keyword) (.rule target.rule) := by
    rw [← LiveGrammar.ruleAccepts_iff hm.addsKeywords (ht.chains target.rule), free]
    intro accepted
    cases accepted
  rw [starts_plain_iff hm hn known, not_or] at refused
  obtain ⟨unreserved, unused⟩ := refused
  refine ⟨fun kind => ?_, fun kind plain hosts d hd => ?_⟩
  · rw [added_extended started defined]
    by_cases same : target.kind = kind
    · subst same
      rw [if_pos rfl, List.map_append, List.nodup_append]
      -- an id that is taken would have been accepted in front of the declaration
      refine ⟨hf.distinct target.kind, List.nodup_singleton _, fun word old other new => ?_⟩
      obtain ⟨d, mem, rfl⟩ := List.mem_map.mp old
      rw [List.mem_singleton.mp new]
      exact fun taken => unused ⟨d, mem, taken⟩
    · rw [if_neg same, List.append_nil]
      exact hf.distinct kind
  · rw [added_extended started defined] at hd
    rcases List.mem_append.mp hd with old | new
    · exact hf.unreserved kind plain hosts d old
    · by_cases same : target.kind = kind
      · subst same
        rw [if_pos rfl, List.mem_singleton] at new
        rw [known] at hosts
        cases hosts
        exact new ▸ unreserved
      · rw [if_neg same] at new
        cases new

/-- However the language grows, the keywords that have been added are new. -/
theorem Grows.fresh {d : Context} (step : c.Grows t reference d) (hf : c.Fresh t)
    (hm : c.Mirrors t reference) (hn : t.Hosting) (ht : t.Extensible)
    (aimed : c.Aimed t) : d.Fresh t := by
  cases step with
  | same attributeState => exact hf.of_schema (congrArg AttributeState.schema attributeState)
  | started _ there _ _ => exact fresh_of_nil (added_of_initial there)
  | aimed schema _ _ => exact hf.of_schema schema
  | extended there started free defined attributeState =>
    exact (hf.extended hm hn ht aimed there started free defined).of_schema
      (congrArg AttributeState.schema attributeState)

end Context

section
variable {ofRule : RuleId → Shape} {effects : Effects} {env : Surroundings} {reference : RuleId}

/-- Every action keeps the keywords that have been added new, error or not. -/
theorem stateInvariant_fresh (ht : env.grammar.Typed ofRule) (hn : env.grammar.Hosting)
    (known : env.grammar.ruleId? "referenceBody" = some reference) :
    StateInvariant ofRule effects env fun c =>
      (c.Mirrors env.grammar reference ∧ c.Aimed env.grammar) ∧ c.Fresh env.grammar := by
  refine .of_actions (fun _ _ _ _ _ ⟨⟨mirrors, aimed⟩, fresh⟩ =>
    ⟨⟨mirrors.of_attributeState rfl, aimed.of_attributeState rfl⟩, fresh.of_schema rfl⟩) ?_
  intro matchRule p v a c prepared action ⟨both, fresh⟩
  have step := prepared.grows ht known action matchRule
  exact ⟨step.mirrors both, step.fresh fresh both.1 hn ht.extensible both.2⟩

end

/-! ## The rules of the language -/

namespace GrammarTable

/-- Whether the alternatives of a rule are found to start as the rules that take attributes of a kind
need it. -/
def checkStarts (t : GrammarTable) (plain scenarios : RuleId) (id : RuleId) : Bool :=
  (t.rule id).patterns.all fun p =>
    p.first? != some (.rule plain) && (p.first? != some (.rule scenarios) || id == plain)

/-- Whether the rules that take attributes of a kind are found to be placed as they should be. -/
def checkNests (t : GrammarTable) (plain scenarios : RuleId) : Bool :=
  (List.range t.rules.size).all (fun i => t.checkStarts plain scenarios ⟨i⟩) &&
    (t.rule plain).patterns.any (·.first? == some (.rule scenarios)) &&
    decide ((t.rule plain).patterns.Pairwise fun p q =>
      ¬(p.first? = some (.rule scenarios) ∧ q.first? = some (.rule scenarios))) &&
    (t.rule plain).patterns.all fun p => !(t.firstTerminals p).contains (.tokenClass .id)

/-- Where the check passes, the rules are placed as they should be. -/
theorem nests_of_check {t : GrammarTable} {plain scenarios : RuleId}
    (h : t.checkNests plain scenarios = true) : t.Nests plain scenarios := by
  unfold checkNests at h
  simp only [Bool.and_eq_true, decide_eq_true_eq] at h
  obtain ⟨⟨⟨rules, nested⟩, single⟩, named⟩ := h
  have checked (id : RuleId) (p : Pattern) (hp : p ∈ (t.rule id).patterns) :
      p.first? ≠ some (.rule plain) ∧ (p.first? = some (.rule scenarios) → id = plain) := by
    rcases @rule_eq_default_or_of_all t (t.checkStarts plain scenarios)
      (fun i known => List.all_eq_true.mp rules i (List.mem_range.mpr known)) id with absent | passed
    · rw [absent] at hp
      cases hp
    · have starts := List.all_eq_true.mp passed p hp
      simp only [Bool.and_eq_true, bne_iff_ne, Bool.or_eq_true, beq_iff_eq] at starts
      exact ⟨starts.1, fun first => starts.2.resolve_left (absurd first)⟩
  refine ⟨fun id p hp => (checked id p hp).1, fun id p hp => (checked id p hp).2, ?_, single, ?_⟩
  · obtain ⟨p, mem, first⟩ := List.any_eq_true.mp nested
    exact ⟨p, mem, beq_iff_eq.mp first⟩
  · intro p mem
    simpa using List.all_eq_true.mp named p mem

end GrammarTable

namespace Language

open Matcher

/-- In the language the rules that take attributes are found to be placed as they should be. -/
theorem check_nests :
    satisfies (fun t =>
      [PropertyKind.task, .resource].all fun kind => (t.ruleId? (hostName kind false)).any fun plain =>
        (t.ruleId? (hostName kind true)).any fun scenarios => t.checkNests plain scenarios) = true := by
  decide +kernel

/-- In the language the rules that take attributes are placed as they should be. -/
theorem hosting {table : GrammarTable} (h : grammar = .ok table) : table.Hosting := by
  have found := of_satisfies check_nests h
  rw [List.all_eq_true] at found
  intro kind
  have both := found kind (by cases kind <;> decide)
  obtain ⟨plain, known, rest⟩ := (Option.any_eq_true _ _).mp both
  obtain ⟨scenarios, known', passed⟩ := (Option.any_eq_true _ _).mp rest
  exact ⟨plain, scenarios, known, known', GrammarTable.nests_of_check passed⟩

section
variable {env : Surroundings} (h : grammar = .ok env.grammar) {tokens : TokenSource} {journal : Log.Journal}
  {id : RuleId} (known : env.grammar.ruleId? "project" = some id) {x : Context}
  (passes : Passes env ampleFuel (.symbols [.rule id]) (Context.initial tokens journal) x)

include h known passes

/-- In every state that is passed while a plan is read, what has been added to the grammar are the attributes
that have been added to the schemas, and their keywords are new. -/
theorem fresh_of_passes : ∃ reference, env.grammar.ruleId? "referenceBody" = some reference ∧
    x.Mirrors env.grammar reference ∧ x.Fresh env.grammar := by
  have typed := (exists_charted h).1.typed
  obtain ⟨reference, reads⟩ := typed.extensible.reference
  have start : ((Context.initial tokens journal).Mirrors env.grammar reference ∧
      (Context.initial tokens journal).Aimed env.grammar) ∧
        (Context.initial tokens journal).Fresh env.grammar :=
    ⟨⟨Context.mirrors_of_nil (fun _ => rfl) fun _ => rfl, fun _ hx => by cases hx⟩,
      Context.fresh_of_nil fun _ => rfl⟩
  obtain ⟨⟨mirrors, -⟩, fresh⟩ :=
    holds_of_passes h known (stateInvariant_fresh typed (hosting h) reads) start passes
  exact ⟨reference, reads, mirrors, fresh⟩

/-- There no token of a text leaves a choice, and choosing gives an answer. -/
theorem exclusive_of_passes (rule : RuleId) {token : Token} (produced : Lexer.Produces token) :
    (LiveGrammar.mk env.grammar x.extensions).Exclusive rule token ∧
      ∃ found, (LiveGrammar.mk env.grammar x.extensions).candidates rule token = .ok found := by
  have typed := (exists_charted h).1.typed
  obtain ⟨reference, -, mirrors, fresh⟩ := fresh_of_passes h known passes
  exact ⟨fresh.exclusive mirrors typed.extensible (hosting h) (LiveGrammar.exclusive_of_build h rule produced),
    LiveGrammar.candidates_of_startsWithin mirrors.addsKeywords (typed.extensible.chains rule) token⟩

/-- So an alternative that can start with a token is the only one to choose. -/
theorem candidates_of_passes {rule : RuleId} {token : Token} (produced : Lexer.Produces token) {p : Pattern}
    (mem : p ∈ (LiveGrammar.mk env.grammar x.extensions).patterns rule)
    (accepts : (LiveGrammar.mk env.grammar x.extensions).patternAccepts token p = .ok true) :
    (LiveGrammar.mk env.grammar x.extensions).candidates rule token = .ok [p] := by
  obtain ⟨exclusive, found, answer⟩ := exclusive_of_passes h known passes rule produced
  have among := LiveGrammar.mem_accepting answer mem accepts
  have single := LiveGrammar.length_candidates_le_one exclusive answer
  match found with
  | [] => cases among
  | [q] => rw [answer, List.mem_singleton.mp among]
  | _ :: _ :: _ => simp at single

/-- For an alternative of the language it is enough that what it starts with can start with the token. -/
theorem candidates_of_starts {rule : RuleId} {token : Token} (produced : Lexer.Produces token) {p : Pattern}
    (mem : p ∈ (env.grammar.rule rule).patterns) {first : Symbol} (begins : p.first? = some first)
    (starts : (LiveGrammar.mk env.grammar x.extensions).Starts token first) :
    (LiveGrammar.mk env.grammar x.extensions).candidates rule token = .ok [p] := by
  obtain ⟨reference, -, mirrors, -⟩ := fresh_of_passes h known passes
  have among : p ∈ (LiveGrammar.mk env.grammar x.extensions).patterns rule := List.mem_append_left _ mem
  refine candidates_of_passes h known passes produced among ?_
  exact (LiveGrammar.patternAccepts_iff mirrors.addsKeywords
    ((exists_charted h).1.typed.extensible.chains rule) among).mpr ⟨first, begins, starts⟩

end

/-- In every state that is passed while a plan is read, no token of a text is accepted by two of the
alternatives of a rule, be they of the language or added by the plan, so there is one at most to choose.
The rule for the attributes of tasks starts with a keyword exactly if it is one of the language or that of
an attribute that has been added to tasks, and so does the one for the attributes of resources. -/
theorem chooses_of_passes {env : Surroundings} (h : grammar = .ok env.grammar) {tokens : TokenSource}
    {journal : Log.Journal} {id : RuleId} (known : env.grammar.ruleId? "project" = some id) {x : Context}
    (passes : Passes env ampleFuel (.symbols [.rule id]) (Context.initial tokens journal) x) :
    (∀ rule token, Lexer.Produces token →
      (LiveGrammar.mk env.grammar x.extensions).Exclusive rule token ∧
      ∃ found, (LiveGrammar.mk env.grammar x.extensions).candidates rule token = .ok found ∧
        found.length ≤ 1) ∧
    ∀ kind plain, env.grammar.ruleId? (hostName kind false) = some plain → ∀ word,
      (LiveGrammar.mk env.grammar x.extensions).ruleAccepts plain (.id word) = .ok true ↔
        (∃ p ∈ (env.grammar.rule plain).patterns, .literal word ∈ env.grammar.firstTerminals p) ∨
          ∃ d ∈ x.added kind, d.extension.keyword = word := by
  have typed := (exists_charted h).1.typed
  have hn := hosting h
  obtain ⟨reference, -, mirrors, -⟩ := fresh_of_passes h known passes
  refine ⟨fun rule token produced => ?_, fun kind plain hosts word => ?_⟩
  · obtain ⟨exclusive, found, answer⟩ := exclusive_of_passes h known passes rule produced
    exact ⟨exclusive, found, answer, LiveGrammar.length_candidates_le_one exclusive answer⟩
  · obtain ⟨plain', _, hosts', -, nests⟩ := hn kind
    obtain rfl : plain = plain' := Option.some.inj (hosts.symm.trans hosts')
    have chains := typed.extensible.chains plain
    rw [LiveGrammar.ruleAccepts_iff mirrors.addsKeywords chains,
      Context.starts_plain_iff mirrors hn hosts, LiveGrammar.starts_id_iff chains nests.named]

/-- At the end of the plan that adds two attributes, the keyword of the one for scenarios is accepted
where the attributes of a task start, and there is no choice. -/
theorem chooses_of_passes_annotatedPlan :
    ∃ table id x plain, grammar = .ok table ∧ table.ruleId? "project" = some id ∧
      Passes ⟨table, .empty, .default⟩ ampleFuel (.symbols [.rule id])
        (.initial (.ofStream annotatedPlan "main.tjp" none) .silent) x ∧
      table.ruleId? "taskAttributes" = some plain ∧
      (LiveGrammar.mk table x.extensions).ruleAccepts plain (.id "due") = .ok true ∧
      ∃ found, (LiveGrammar.mk table x.extensions).candidates plain (.id "due") = .ok found ∧
        found.length ≤ 1 := by
  obtain ⟨table, id, x, made, known, passes, added⟩ := exists_passes_annotatedPlan
  have chosen := @chooses_of_passes ⟨table, .empty, .default⟩ made _ _ id known x passes
  obtain ⟨plain, knownPlain⟩ :=
    (exists_charted made).1.typed.extensible.targets "taskAttributes" (by decide)
  have produced : Lexer.Produces (.id "due") :=
    ⟨false, "due".toList, _, _, rfl, List.mem_cons_self⟩
  refine ⟨table, id, x, plain, made, known, passes, knownPlain, ?_, (chosen.1 plain _ produced).2⟩
  refine (chosen.2 .task plain knownPlain "due").mpr (.inr ?_)
  rw [added]
  exact ⟨_, List.mem_cons_of_mem _ List.mem_cons_self, rfl⟩

end Language

end Planfile
