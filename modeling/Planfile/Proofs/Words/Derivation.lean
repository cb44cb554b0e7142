import Planfile.Grammar.Live

/-!
# Planfile — the words of a grammar

A grammar says which sequences of tokens are words of its rules, whoever reads them and in whichever
order: symbols stand one behind the other, the alternatives of a rule are a choice, a repeatable rule
stands for one or more of them, and an optional rule may be absent. `LiveGrammar.Derives` says this
of a sequence of symbols, with one constructor for each way in which the first of them can be read.

Main results:

* `LiveGrammar.Derives.append` — words of parts are words of the whole.
-/

namespace Planfile.LiveGrammar

/-- Whether some tokens are a word of some symbols. -/
inductive Derives (g : LiveGrammar) : List Symbol → List Token → Prop
  | nil : Derives g [] []
  /-- A literal is read as a token with its text, a class as a token of the class. -/
  | terminal {s : Symbol} {a : Terminal} {token : Token} {symbols : List Symbol} {text : List Token}
    (hs : s.terminal? = some a) (fits : a.accepts token = true) (rest : Derives g symbols text) :
    Derives g (s :: symbols) (token :: text)
  /-- An optional rule can be absent. -/
  | absent {id : RuleId} {symbols : List Symbol} {text : List Token}
    (optional : (g.table.rule id).optional = true) (rest : Derives g symbols text) :
    Derives g (.rule id :: symbols) text
  /-- A rule is one of its alternatives. -/
  | once {id : RuleId} {p : Pattern} {symbols : List Symbol} {first text : List Token}
    (mem : p ∈ g.patterns id) (pattern : Derives g p.symbols first) (rest : Derives g symbols text) :
    Derives g (.rule id :: symbols) (first ++ text)
  /-- A repeatable rule can go on behind an alternative. -/
  | again {id : RuleId} {p : Pattern} {symbols : List Symbol} {first text : List Token}
    (repeatable : (g.table.rule id).repeatable = true) (mem : p ∈ g.patterns id)
    (pattern : Derives g p.symbols first) (rest : Derives g (.rule id :: symbols) text) :
    Derives g (.rule id :: symbols) (first ++ text)

namespace Derives

variable {g : LiveGrammar}

/-- Words of parts are words of the whole. -/
theorem append {xs ys : List Symbol} {first second : List Token} (h : g.Derives xs first)
    (hs : g.Derives ys second) : g.Derives (xs ++ ys) (first ++ second) := by
  induction h with
  | nil => exact hs
  | terminal found fits _ ih => exact .terminal found fits ih
  | absent optional _ ih => exact .absent optional ih
  | once mem pattern _ _ ih =>
    rw [List.append_assoc]
    exact .once mem pattern ih
  | again repeatable mem pattern _ _ ih =>
    rw [List.append_assoc]
    exact .again repeatable mem pattern ih

/-- A token that a terminal accepts is a word of it. -/
theorem single {s : Symbol} {a : Terminal} {token : Token} (hs : s.terminal? = some a)
    (fits : a.accepts token = true) : g.Derives [s] [token] :=
  .terminal hs fits .nil

/-- A word of some alternatives is one of more. -/
theorem of_fewer {g' : LiveGrammar} {symbols : List Symbol} {text : List Token}
    (optional : ∀ id, (g.table.rule id).optional = (g'.table.rule id).optional)
    (repeatable : ∀ id, (g.table.rule id).repeatable = (g'.table.rule id).repeatable)
    (patterns : ∀ id, g.patterns id ⊆ g'.patterns id) (h : g.Derives symbols text) :
    g'.Derives symbols text := by
  induction h with
  | nil => exact .nil
  | terminal found fits _ ih => exact .terminal found fits ih
  | absent can _ ih => exact .absent (optional _ ▸ can) ih
  | once mem _ _ ih ih' => exact .once (patterns _ mem) ih ih'
  | again can mem _ _ ih ih' => exact .again (repeatable _ ▸ can) (patterns _ mem) ih ih'

/-- A word of an alternative is one of the rule. -/
theorem alternative {id : RuleId} {p : Pattern} {text : List Token} (mem : p ∈ g.patterns id)
    (h : g.Derives p.symbols text) : g.Derives [.rule id] text := by
  rw [← List.append_nil text]
  exact .once mem h .nil

end Derives

end Planfile.LiveGrammar
