import Planfile.Settings.Preferences
import Planfile.Token.Lexer
import Planfile.Token.Metrics
import Planfile.Token.Stream

/-!
# Planfile — analyzers

An analyzer splits one text after the other into tokens. While it reads a text it keeps the metrics of what
it has read so far, so that they are there without a second look at the tokens, and also where the text is
refused in the end. A new text starts with no metrics.

Main results:

* `Analyzer.preferences_tokenize` — no text changes the preferences.
-/

namespace Planfile

/-- What texts are read with, and the metrics of the last one. -/
structure Analyzer where
  preferences : Settings.LexicalPreferences
  metrics : LexicalMetrics

namespace Analyzer

/-- An analyzer that has read no text. -/
def new (preferences : Settings.LexicalPreferences) : Analyzer := ⟨preferences, .empty⟩

/-- Splits a text into tokens. What the analyzer knew of the text before is forgotten. -/
def tokenize (a : Analyzer) (name content : String) : Except LexFailure TokenStream × Analyzer :=
  let cs := content.toList
  let p := a.preferences
  let (outcome, metrics) := Lexer.readFrom (·.record p.detailedMetrics) p.countComments cs.length .start cs [] 0
    LexicalMetrics.empty
  (outcome.map fun tokens => .ofTokens tokens (some ⟨name, content⟩), { a with metrics })

/-- No text changes the preferences. -/
theorem preferences_tokenize (a : Analyzer) (name content : String) :
    (a.tokenize name content).2.preferences = a.preferences := rfl

end Analyzer

end Planfile
