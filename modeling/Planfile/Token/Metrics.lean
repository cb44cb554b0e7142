import Planfile.Token

/-!
# Planfile — counting tokens

A summary of the tokens of one text: how many there are of each sort, and how long the longest
string and the longest comment are. The end of the text does not count.
-/

namespace Planfile

/-- Counts by name, names in ascending order. -/
abbrev Tally := List (String × Nat)

/-- Counts one more of a name. -/
def Tally.count (name : String) : Tally → Tally
  | [] => [(name, 1)]
  | (other, n) :: rest =>
    if name = other then (other, n + 1) :: rest
    else if name < other then (name, 1) :: (other, n) :: rest
    else (other, n) :: Tally.count name rest

/-- What is known about the tokens of a text. -/
structure LexicalMetrics where
  totalTokens : Nat
  identifierTokens : Nat
  literalTokens : Nat
  punctuationTokens : Nat
  commentCount : Nat
  maxStringLength : Nat
  maxCommentLength : Nat
  /-- How many tokens there are of each class; kept only on request. -/
  classCounts : Tally
  deriving DecidableEq, Repr, Inhabited

/-- The metrics of no tokens. -/
def LexicalMetrics.empty : LexicalMetrics := ⟨0, 0, 0, 0, 0, 0, 0, []⟩

/-- The metrics with one more token. -/
def LexicalMetrics.record (detailed : Bool) (m : LexicalMetrics) (t : Token) : LexicalMetrics :=
  let m := { m with totalTokens := m.totalTokens + 1 }
  let m := match t with
    | .id _ | .idWithColon _ | .absoluteId _ | .relativeId _ =>
      { m with identifierTokens := m.identifierTokens + 1 }
    | .string s =>
      { m with
        literalTokens := m.literalTokens + 1
        maxStringLength := max m.maxStringLength s.utf8ByteSize }
    | .integer _ | .float _ | .date _ | .time _ => { m with literalTokens := m.literalTokens + 1 }
    | .mark _ => { m with punctuationTokens := m.punctuationTokens + 1 }
    | .comment text =>
      { m with
        commentCount := m.commentCount + 1
        maxCommentLength := max m.maxCommentLength text.utf8ByteSize }
    | .eof => m
  match detailed, t.class? with
  | true, some c => { m with classCounts := m.classCounts.count c.name }
  | _, _ => m

/-- The metrics of a text's tokens, of which the end of the text is left out. -/
def LexicalMetrics.ofTokens (detailed : Bool) (tokens : List SpannedToken) : LexicalMetrics :=
  (tokens.filter (!·.token.isEof)).foldl (fun m t => m.record detailed t.token) .empty

end Planfile
