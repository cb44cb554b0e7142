import Planfile.Grammar.Action
import Planfile.Token

/-!
# Planfile — symbols and rules

A pattern is a sequence of symbols. A symbol is a literal token, a class of tokens or a reference
to a rule; in a declaration it is written with a sigil: `_text`, `$CLASS` or `!rule`.

A rule has alternatives, each a pattern of symbols with an action. It can be optional, and it can be
repeatable.

Main results:

* `SymbolSpec.ofText?_rule` — a sigil and a name declare a reference.
-/

namespace Planfile

/-- The number of a rule in its grammar. -/
structure RuleId where
  index : Nat
  deriving DecidableEq, Repr, Inhabited

/-- A symbol of a pattern. -/
inductive Symbol where
  | literal (text : String)
  | tokenClass (name : TokenClass)
  | rule (id : RuleId)
  deriving DecidableEq, Repr

/-- A symbol as it is declared, rules by name. -/
inductive SymbolSpec where
  | literal (text : String)
  | tokenClass (name : TokenClass)
  | rule (name : String)
  deriving DecidableEq, Repr

/-- Reads a declared symbol. -/
def SymbolSpec.ofText? (text : String) : Option SymbolSpec :=
  match text.toList with
  | [] | [_] => none
  | sigil :: rest =>
    let name := String.ofList rest
    if sigil = '_' then some (.literal name)
    else if sigil = '$' then (TokenClass.ofName? name).map .tokenClass
    else if sigil = '!' then some (.rule name)
    else none

/-- A sigil and a name declare a reference. -/
theorem SymbolSpec.ofText?_rule {name : String} (full : name ≠ "") :
    ofText? ("!" ++ name) = some (.rule name) := by
  have some_char : name.toList ≠ [] := fun e => full (String.toList_eq_nil_iff.mp e)
  obtain ⟨c, rest, hw⟩ := List.exists_cons_of_ne_nil some_char
  have chars : ("!" ++ name).toList = '!' :: c :: rest := by simp [hw]
  rw [ofText?, chars]
  simp [← hw]

/-- A symbol that stands for single tokens. -/
inductive Terminal where
  | literal (text : String)
  | tokenClass (name : TokenClass)
  deriving DecidableEq, Repr

namespace Terminal

/-- Whether a token is one of those that the terminal stands for. -/
def accepts (t : Terminal) (token : Token) : Bool :=
  match t with
  | .literal text => token.matchesLiteral text
  | .tokenClass c => token.class? == some c

/-- Whether a literal looks like an identifier. -/
def isWord (text : String) : Bool := text.toList.head?.any fun c => c.isAlpha || c == '_'

/-- Whether some token could be accepted by both. -/
def overlaps : Terminal → Terminal → Bool
  | .literal a, .literal b => a == b
  | .tokenClass a, .tokenClass b => a == b
  | .literal word, .tokenClass c | .tokenClass c, .literal word => c == .id && isWord word

/-- A terminal in a message or a listing. -/
def text : Terminal → String
  | .literal text => s!"'{text}'"
  | .tokenClass c => s!"${c.name}"

end Terminal

namespace Symbol

/-- The terminal of a symbol that is no reference. -/
def terminal? : Symbol → Option Terminal
  | .literal text => some (.literal text)
  | .tokenClass c => some (.tokenClass c)
  | .rule _ => none

end Symbol

end Planfile

/-! ## Patterns and rules -/

namespace Planfile

/-- An alternative of a rule. Without an action it produces no value. -/
structure Pattern where
  symbols : List Symbol
  action : Option Action
  deriving DecidableEq, Repr

namespace Pattern

/-- The symbol that decides whether the pattern is chosen. -/
def first? (p : Pattern) : Option Symbol := p.symbols.head?

/-- The literal that starts the pattern. -/
def keyword? (p : Pattern) : Option String :=
  match p.first? with
  | some (.literal text) => some text
  | _ => none

end Pattern

/-- A named rule. -/
structure Rule where
  name : String
  patterns : List Pattern
  optional : Bool
  repeatable : Bool
  deriving DecidableEq, Repr, Inhabited

/-- The flags of a rule in a listing. -/
def Rule.flags (r : Rule) : String :=
  String.intercalate " " <|
    (if r.optional then ["optional"] else []) ++ (if r.repeatable then ["repeatable"] else [])

end Planfile
