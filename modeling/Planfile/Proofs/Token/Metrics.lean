import Planfile.Proofs.Token.Word
import Planfile.Token.Analyzer

/-!
# Planfile — the metrics of a text add up

An analyzer counts while it reads. What it has counted in the end is said here without the reading: the
numbers of the tokens in the stream that it gives, by sort and by class, and the sizes of the longest string
and of the longest comment among them. It does not matter which texts it has read before, nor what became of
them.

Each number of the metrics is followed along the tokens by itself. Most of them are counters: a token raises
them by one or leaves them alone, depending on its sort. The tally by class is a counter for each class, if
it is looked at through the number it has for a name; for that it has to be in order, since a name is looked
for in front of the first greater one only.

Main results:

* `Tally.get_count` — counting a name raises the number for this name, and no other.
* `LexicalMetrics.totalTokens_ofTokens` — what the grammar reads of a text and the comments are all.
* `LexicalMetrics.describes_ofTokens` — the metrics of the tokens of a text describe them.
* `Lexer.exists_of_readFrom` — whatever is noted, the lexer reads the same, and all that is read is noted.
* `Analyzer.exists_tokens_of_tokenize` — its metrics are those of the tokens.
* `Analyzer.describes_of_tokenize` — the metrics of an analyzer describe what it has read last.
-/

namespace Planfile

/-! ## Tokens that count -/

/-- The tokens of a text that the grammar reads: neither comments nor the end of the text. -/
def readable (tokens : List SpannedToken) : List SpannedToken :=
  tokens.filter fun t => t.token.isSignificant && !t.token.isEof

/-- The tokens of a list without their places. -/
def valuesOf (tokens : List SpannedToken) : List Token := tokens.map (·.token)

/-- How many of the tokens count toward the limit on tokens. -/
def countOf (countComments : Bool) (tokens : List Token) : Nat :=
  (tokens.filter fun t => !t.isEof && (t.isSignificant || countComments)).length

/-- A token counts as it does where it is found. -/
theorem countOf_cons_of_notEof (countComments : Bool) {t : Token} (notEof : t.isEof = false)
    (counted : Nat) (tokens : List Token) :
    counted + countOf countComments (t :: tokens) =
      (if t.isSignificant || countComments then counted + 1 else counted) +
        countOf countComments tokens := by
  unfold countOf
  rw [List.filter_cons, notEof, Bool.not_false, Bool.true_and]
  split
  · rw [List.length_cons]
    omega
  · rfl

/-- What the grammar reads counts. -/
theorem length_readable_le (countComments : Bool) (tokens : List SpannedToken) :
    (readable tokens).length ≤ countOf countComments (valuesOf tokens) := by
  unfold readable countOf valuesOf
  rw [← List.countP_eq_length_filter, ← List.countP_eq_length_filter, List.countP_map]
  refine List.countP_mono_left fun t _ reads => ?_
  obtain ⟨significant, notEof⟩ := Bool.and_eq_true_iff.mp reads
  simp only [Function.comp_apply, significant, notEof, Bool.true_or, Bool.and_self]

/-- A token is a comment, or else the grammar sees it. -/
theorem length_eq_significant_add_comments (tokens : List SpannedToken) :
    tokens.length = (tokens.filter (·.token.isSignificant)).length +
      (tokens.filter fun t => !t.token.isSignificant).length := by
  have split := List.length_eq_countP_add_countP (fun t : SpannedToken => t.token.isSignificant) (l := tokens)
  simpa [List.countP_eq_length_filter] using split

/-! ## Tallies -/

namespace Tally

/-- All that has been counted. -/
def total : Tally → Nat
  | [] => 0
  | (_, n) :: rest => n + total rest

/-- What has been counted for a name. -/
def get (t : Tally) (name : String) : Nat := (t.lookup name).getD 0

/-- Whether the names of a tally ascend, so that there are no two entries for a name. -/
def Sorted (t : Tally) : Prop := (t.map (·.1)).Pairwise (· < ·)

variable {name other : String} {t : Tally}

theorem get_cons (key : String) (n : Nat) (rest : Tally) :
    get ((key, n) :: rest) other = if other = key then n else get rest other := by
  unfold get
  rw [List.lookup_cons]
  by_cases same : other = key
  · rw [if_pos same, beq_iff_eq.mpr same]
    rfl
  · rw [if_neg same, beq_eq_false_iff_ne.mpr same]

theorem get_of_not_mem (h : name ∉ t.map (·.1)) : t.get name = 0 := by
  induction t with
  | nil => rfl
  | cons entry rest ih =>
    obtain ⟨key, n⟩ := entry
    rw [List.map_cons, List.mem_cons, not_or] at h
    rw [get_cons, if_neg h.1, ih h.2]

/-- Names are compared in one of two ways, unless they are the same. -/
theorem lt_of_not_lt {a b : String} (ne : a ≠ b) (h : ¬a < b) : b < a := by
  refine String.not_le.mp fun le => ne ?_
  exact String.le_antisymm le (String.not_lt.mp h)

/-- Counting one more raises the total by one. -/
theorem total_count (name : String) (t : Tally) : (count name t).total = t.total + 1 := by
  induction t with
  | nil => rfl
  | cons entry rest ih =>
    obtain ⟨key, n⟩ := entry
    unfold count
    split
    · show n + 1 + total rest = n + total rest + 1
      omega
    · split
      · show 1 + (n + total rest) = n + total rest + 1
        omega
      · show n + total (count name rest) = n + total rest + 1
        omega

/-- The names of a tally and the name that is counted are the names afterwards. -/
theorem mem_names_count : other ∈ (count name t).map (·.1) ↔ other = name ∨ other ∈ t.map (·.1) := by
  induction t with
  | nil => simp [count]
  | cons entry rest ih =>
    obtain ⟨key, n⟩ := entry
    unfold count
    split
    · next same => simp [same]
    · split
      · simp
      · simp only [List.map_cons, List.mem_cons, ih]
        exact or_left_comm

/-- Counting keeps the names in order. -/
theorem Sorted.count (sorted : t.Sorted) (name : String) : (t.count name).Sorted := by
  induction t with
  | nil => exact List.pairwise_singleton _ _
  | cons entry rest ih =>
    obtain ⟨key, n⟩ := entry
    obtain ⟨first, behind⟩ := List.pairwise_cons.mp sorted
    unfold Tally.count
    split
    · exact sorted
    · next ne =>
      split
      · next before =>
        -- what is greater than the first name is greater than the new one
        refine List.pairwise_cons.mpr ⟨fun k hk => ?_, sorted⟩
        rcases List.mem_cons.mp hk with rfl | hk
        · exact before
        · exact String.lt_trans before (first k hk)
      · next notBefore =>
        refine List.pairwise_cons.mpr ⟨fun k hk => ?_, ih behind⟩
        rcases mem_names_count.mp hk with rfl | hk
        · exact lt_of_not_lt ne notBefore
        · exact first k hk

/-- Counting a name raises what there is for this name, and nothing else. -/
theorem get_count (sorted : t.Sorted) (name other : String) :
    (t.count name).get other = t.get other + if name = other then 1 else 0 := by
  induction t with
  | nil =>
    unfold Tally.count
    rw [get_cons]
    by_cases same : name = other
    · rw [if_pos same.symm, if_pos same]
      rfl
    · rw [if_neg fun h => same h.symm, if_neg same]
      rfl
  | cons entry rest ih =>
    obtain ⟨key, n⟩ := entry
    obtain ⟨first, behind⟩ := List.pairwise_cons.mp sorted
    unfold Tally.count
    by_cases same : name = key
    · subst same
      rw [if_pos rfl, get_cons, get_cons]
      by_cases this : name = other
      · rw [if_pos this.symm, if_pos this.symm, if_pos this]
      · rw [if_neg fun h => this h.symm, if_neg fun h => this h.symm, if_neg this]
        rfl
    · rw [if_neg same]
      by_cases before : name < key
      · rw [if_pos before, get_cons]
        by_cases this : name = other
        · -- a name in front of the first one has not been counted
          have new : other ∉ ((key, n) :: rest).map (·.1) := by
            subst this
            intro known
            rcases List.mem_cons.mp known with eq | known
            · exact same eq
            · exact String.lt_irrefl _ (String.lt_trans before (first _ known))
          rw [if_pos this.symm, if_pos this, get_of_not_mem new]
        · rw [if_neg fun h => this h.symm, if_neg this]
          rfl
      · -- the name belongs behind the first one, whose number stays
        rw [if_neg before, get_cons, get_cons, ih behind]
        by_cases this : other = key
        · have ne : ¬name = other := fun h => same (h.trans this)
          rw [if_pos this, if_pos this, if_neg ne]
          rfl
        · rw [if_neg this, if_neg this]

end Tally

/-! ## What metrics are about -/

namespace Token

/-- Whether a token names something. -/
def isName : Token → Bool
  | .id _ | .idWithColon _ | .absoluteId _ | .relativeId _ => true
  | _ => false

/-- Whether a token is a value of its own. -/
def isLiteral : Token → Bool
  | .string _ | .integer _ | .float _ | .date _ | .time _ => true
  | _ => false

/-- Whether a token is a mark. -/
def isMark : Token → Bool
  | .mark _ => true
  | _ => false

/-- The value of a string. -/
def string? : Token → Option String
  | .string value => some value
  | _ => none

/-- The text of a comment. -/
def comment? : Token → Option String
  | .comment text => some text
  | _ => none

end Token

/-- Whether a number is the size of the longest of some texts, zero where there are none. -/
structure IsLongest (n : Nat) (texts : List String) : Prop where
  le : ∀ s ∈ texts, s.utf8ByteSize ≤ n
  attained : n = 0 ∨ ∃ s ∈ texts, s.utf8ByteSize = n

/-- Whether metrics are those of the tokens of a stream, of which the end of the text does not count. -/
structure LexicalMetrics.Describes (m : LexicalMetrics) (detailed : Bool) (s : TokenStream) : Prop where
  total : m.totalTokens = (s.all.filter (!·.token.isEof)).length
  sorts : m.totalTokens =
    m.identifierTokens + m.literalTokens + m.punctuationTokens + m.commentCount
  identifiers : m.identifierTokens = (s.all.filter (·.token.isName)).length
  literals : m.literalTokens = (s.all.filter (·.token.isLiteral)).length
  marks : m.punctuationTokens = (s.all.filter (·.token.isMark)).length
  /-- The comments are what the grammar does not see. -/
  comments : m.commentCount = s.all.length - s.length
  fewer : s.length ≤ s.all.length
  /-- The tally has one entry for a class, and counts the tokens of each. -/
  sorted : m.classCounts.Sorted
  classes : detailed = true → m.classCounts.total = m.identifierTokens + m.literalTokens ∧
    ∀ c : TokenClass, m.classCounts.get c.name = (s.all.filter (·.token.class? == some c)).length
  longestString : IsLongest m.maxStringLength (s.all.filterMap (·.token.string?))
  longestComment : IsLongest m.maxCommentLength (s.all.filterMap (·.token.comment?))

/-! ## Counters -/

/-- Whether what is looked at in the metrics is raised by one by the tokens that meet a condition, and by no
others. -/
def LexicalMetrics.Counts (detailed : Bool) (look : LexicalMetrics → Nat) (p : Token → Bool) : Prop :=
  ∀ m t, look (m.record detailed t) = look m + if p t then 1 else 0

/-- Whether what is looked at in the metrics is the size of the longest text that tokens have. -/
def LexicalMetrics.Measures (detailed : Bool) (look : LexicalMetrics → Nat) (text? : Token → Option String) :
    Prop :=
  ∀ m t, look (m.record detailed t) = max (look m) ((text? t).elim 0 (·.utf8ByteSize))

namespace LexicalMetrics

variable {detailed : Bool} {look : LexicalMetrics → Nat}

/-- A counter goes on by the number of the tokens that meet its condition. -/
theorem Counts.foldl {p : Token → Bool} (counts : Counts detailed look p) (tokens : List SpannedToken)
    (m : LexicalMetrics) :
    look (tokens.foldl (fun m t => m.record detailed t.token) m) =
      look m + (tokens.filter fun t => p t.token).length := by
  induction tokens generalizing m with
  | nil => rfl
  | cons t tokens ih =>
    rw [List.foldl_cons, ih, counts, List.filter_cons]
    split
    · rw [List.length_cons]
      omega
    · rfl

/-- The longest of the texts before and of those that come is the longest of all. -/
theorem Measures.foldl {text? : Token → Option String} (measures : Measures detailed look text?)
    (tokens : List SpannedToken) {m : LexicalMetrics} {seen : List String} (h : IsLongest (look m) seen) :
    IsLongest (look (tokens.foldl (fun m t => m.record detailed t.token) m))
      (seen ++ tokens.filterMap fun t => text? t.token) := by
  induction tokens generalizing m seen with
  | nil => simpa using h
  | cons t tokens ih =>
    rw [List.foldl_cons]
    have step := measures m t.token
    rw [List.filterMap_cons]
    cases has : text? t.token with
    | none =>
      refine ih ?_
      rw [step, has, Option.elim_none, Nat.max_zero]
      exact h
    | some text =>
      dsimp only
      rw [List.append_cons]
      refine ih ?_
      rw [step, has, Option.elim_some]
      refine ⟨fun s hs => ?_, ?_⟩
      · rcases List.mem_append.mp hs with before | this
        · have within := h.le s before
          omega
        · obtain rfl := List.mem_singleton.mp this
          omega
      · -- either the new text is the longest, or the longest is one of those before
        by_cases longer : look m ≤ text.utf8ByteSize
        · refine .inr ⟨text, by simp, ?_⟩
          omega
        · rcases h.attained with none | ⟨s, before, size⟩
          · omega
          · refine .inr ⟨s, List.mem_append_left _ before, ?_⟩
            omega

section

variable (detailed)

theorem counts_total : Counts detailed (·.totalTokens) fun _ => true := by
  intro m t
  cases t <;> cases detailed <;> rfl

theorem counts_identifiers : Counts detailed (·.identifierTokens) Token.isName := by
  intro m t
  cases t <;> cases detailed <;> rfl

theorem counts_literals : Counts detailed (·.literalTokens) Token.isLiteral := by
  intro m t
  cases t <;> cases detailed <;> rfl

theorem counts_marks : Counts detailed (·.punctuationTokens) Token.isMark := by
  intro m t
  cases t <;> cases detailed <;> rfl

theorem counts_comments : Counts detailed (·.commentCount) fun t => !t.isSignificant := by
  intro m t
  cases t <;> cases detailed <;> rfl

/-- Every token is of one sort, unless it is the end of the text. -/
theorem counts_sorts : Counts detailed
    (fun m => m.identifierTokens + m.literalTokens + m.punctuationTokens + m.commentCount) fun t => !t.isEof := by
  intro m t
  have identifiers := counts_identifiers detailed m t
  have literals := counts_literals detailed m t
  have marks := counts_marks detailed m t
  have comments := counts_comments detailed m t
  dsimp only at identifiers literals marks comments ⊢
  rw [identifiers, literals, marks, comments]
  cases t <;> simp [Token.isName, Token.isLiteral, Token.isMark, Token.isSignificant, Token.isEof] <;> omega

theorem measures_strings : Measures detailed (·.maxStringLength) Token.string? := by
  intro m t
  cases t <;> cases detailed <;> simp [record, Token.string?, Token.class?]

theorem measures_comments : Measures detailed (·.maxCommentLength) Token.comment? := by
  intro m t
  cases t <;> cases detailed <;> simp [record, Token.comment?, Token.class?]

end

/-! ## Classes -/

/-- A token is counted by the name of its class, if it has one. -/
theorem classCounts_record (m : LexicalMetrics) (t : Token) :
    (m.record true t).classCounts = t.class?.elim m.classCounts fun c => m.classCounts.count c.name := by
  cases t <;> rfl

/-- Without details nothing is counted by class. -/
theorem classCounts_record_plain (m : LexicalMetrics) (t : Token) :
    (m.record false t).classCounts = m.classCounts := by
  cases t <;> rfl

/-- Classes have different names. -/
theorem name_inj {c d : TokenClass} (h : c.name = d.name) : c = d := by
  have found := TokenClass.ofName?_name c
  rw [h, TokenClass.ofName?_name] at found
  exact (Option.some.inj found).symm

theorem sorted_record {m : LexicalMetrics} (sorted : m.classCounts.Sorted) (t : Token) :
    (m.record detailed t).classCounts.Sorted := by
  cases detailed with
  | false =>
    rw [classCounts_record_plain]
    exact sorted
  | true =>
    rw [classCounts_record]
    cases t.class? with
    | none => exact sorted
    | some c => exact sorted.count c.name

/-- The tally is in order all the while. -/
theorem sorted_foldl (tokens : List SpannedToken) {m : LexicalMetrics} (sorted : m.classCounts.Sorted) :
    (tokens.foldl (fun m t => m.record detailed t.token) m).classCounts.Sorted := by
  induction tokens generalizing m with
  | nil => exact sorted
  | cons t tokens ih => exact ih (sorted_record sorted t.token)

/-- What has been counted by class are names and values. -/
theorem counts_classes : Counts true (·.classCounts.total) fun t => t.isName || t.isLiteral := by
  intro m t
  show (m.record true t).classCounts.total = _
  rw [classCounts_record]
  cases t <;> first | exact Tally.total_count _ _ | rfl

/-- The number for a class grows with each token of the class. -/
theorem get_foldl (c : TokenClass) (tokens : List SpannedToken) {m : LexicalMetrics}
    (sorted : m.classCounts.Sorted) :
    (tokens.foldl (fun m t => m.record true t.token) m).classCounts.get c.name =
      m.classCounts.get c.name + (tokens.filter (·.token.class? == some c)).length := by
  induction tokens generalizing m with
  | nil => rfl
  | cons t tokens ih =>
    rw [List.foldl_cons, ih (sorted_record sorted t.token), classCounts_record, List.filter_cons]
    cases t.token.class? with
    | none => rfl
    | some d =>
      rw [Option.elim_some, Tally.get_count sorted]
      by_cases same : d = c
      · subst same
        rw [if_pos rfl, beq_self_eq_true, if_pos rfl, List.length_cons]
        omega
      · have other : ¬d.name = c.name := fun h => same (name_inj h)
        have notThis : ¬(some d == some c) = true := by
          rw [beq_iff_eq, Option.some.injEq]
          exact same
        rw [if_neg other, if_neg notThis, Nat.add_zero]

end LexicalMetrics

/-! ## The metrics of a text -/

/-- All tokens of a text are those that the grammar reads and the comments. -/
theorem LexicalMetrics.totalTokens_ofTokens (detailed : Bool) (tokens : List SpannedToken) :
    (ofTokens detailed tokens).totalTokens =
      (readable tokens).length + (ofTokens detailed tokens).commentCount := by
  have total := (counts_total detailed).foldl (tokens.filter (!·.token.isEof)) .empty
  have comments := (counts_comments detailed).foldl (tokens.filter (!·.token.isEof)) .empty
  have parts := length_eq_significant_add_comments (tokens.filter (!·.token.isEof))
  have all : (tokens.filter (!·.token.isEof)).filter (fun _ => true) = tokens.filter (!·.token.isEof) :=
    List.filter_eq_self.mpr fun _ _ => rfl
  have seen : (tokens.filter (!·.token.isEof)).filter (·.token.isSignificant) = readable tokens :=
    List.filter_filter
  have nothing : empty.totalTokens = 0 ∧ empty.commentCount = 0 := ⟨rfl, rfl⟩
  rw [all] at total
  rw [seen] at parts
  unfold ofTokens
  omega

/-- What is recorded of a text is what is in front of its end. -/
theorem LexicalMetrics.ofTokens_append_eof (detailed : Bool) {scanned : List SpannedToken} {last : SpannedToken}
    (notEof : ∀ t ∈ scanned, t.token.isEof = false) (eof : last.token = .eof) :
    (scanned ++ [last]).filter (!·.token.isEof) = scanned ∧
      ofTokens detailed (scanned ++ [last]) =
        scanned.foldl (fun m t => m.record detailed t.token) .empty := by
  have kept : scanned.filter (!·.token.isEof) = scanned :=
    List.filter_eq_self.mpr fun t ht => by rw [notEof t ht]; rfl
  have dropped : [last].filter (!·.token.isEof) = [] := by simp [eof, Token.isEof]
  have front : (scanned ++ [last]).filter (!·.token.isEof) = scanned := by
    rw [List.filter_append, kept, dropped, List.append_nil]
  exact ⟨front, by rw [ofTokens, front]⟩

/-- The metrics of the tokens of a text describe them. -/
theorem LexicalMetrics.describes_ofTokens (detailed : Bool) {scanned : List SpannedToken} {last : SpannedToken}
    (notEof : ∀ t ∈ scanned, t.token.isEof = false) (eof : last.token = .eof) (source : Option SourceText) :
    (ofTokens detailed (scanned ++ [last])).Describes detailed (.ofTokens (scanned ++ [last]) source) := by
  obtain ⟨front, recorded⟩ := ofTokens_append_eof detailed notEof eof
  rw [recorded]
  -- the end of the text is of no sort and has no class, so it does not matter that it is not recorded
  have counted {detailed : Bool} {look : LexicalMetrics → Nat} {p : Token → Bool} (counts : Counts detailed look p)
      (zero : look .empty = 0) (other : p .eof = false) :
      look (scanned.foldl (fun m t => m.record detailed t.token) .empty) =
        ((scanned ++ [last]).filter fun t => p t.token).length := by
    have dropped : [last].filter (fun t => p t.token) = [] := by simp [eof, other]
    rw [counts.foldl, zero, Nat.zero_add, List.filter_append, dropped, List.append_nil]
  have measured {look : LexicalMetrics → Nat} {text? : Token → Option String}
      (measures : Measures detailed look text?) (zero : look .empty = 0) (other : text? .eof = none) :
      IsLongest (look (scanned.foldl (fun m t => m.record detailed t.token) .empty))
        ((scanned ++ [last]).filterMap fun t => text? t.token) := by
    have nothing : IsLongest (look .empty) [] := ⟨by simp, .inl zero⟩
    have dropped : [last].filterMap (fun t => text? t.token) = [] := by simp [eof, other]
    rw [List.filterMap_append, dropped, List.append_nil]
    exact measures.foldl scanned nothing
  have total : (scanned.foldl (fun m t => m.record detailed t.token) LexicalMetrics.empty).totalTokens =
      ((scanned ++ [last]).filter (!·.token.isEof)).length := by
    have all : (scanned.filter fun _ => true) = scanned := List.filter_eq_self.mpr fun _ _ => rfl
    rw [(counts_total detailed).foldl, all, front]
    exact Nat.zero_add _
  have identifiers := counted (counts_identifiers detailed) rfl rfl
  have literals := counted (counts_literals detailed) rfl rfl
  have comments := counted (counts_comments detailed) rfl rfl
  have parts := length_eq_significant_add_comments (scanned ++ [last])
  have seen : (TokenStream.ofTokens (scanned ++ [last]) source).length =
      ((scanned ++ [last]).filter (·.token.isSignificant)).length := Nat.zero_add _
  exact {
    total := total
    sorts := total.trans (counted (counts_sorts detailed) rfl rfl).symm
    identifiers := identifiers
    literals := literals
    marks := counted (counts_marks detailed) rfl rfl
    comments := by
      show _ = (scanned ++ [last]).length - _
      rw [comments, seen]
      omega
    fewer := by
      show _ ≤ (scanned ++ [last]).length
      omega
    sorted := sorted_foldl scanned List.Pairwise.nil
    classes := by
      rintro rfl
      refine ⟨?_, fun c => ?_⟩
      · -- names and values are counted together as they are counted one by one
        have together : Counts true (fun m => m.identifierTokens + m.literalTokens)
            fun t => t.isName || t.isLiteral := by
          intro m t
          have name := counts_identifiers true m t
          have literal := counts_literals true m t
          dsimp only at name literal ⊢
          rw [name, literal]
          cases t <;> simp [Token.isName, Token.isLiteral] <;> omega
        rw [counted counts_classes rfl rfl]
        exact (counted together rfl rfl).symm
      · have noClass : [last].filter (·.token.class? == some c) = [] := by simp [eof, Token.class?]
        have grown := get_foldl c scanned (m := .empty) List.Pairwise.nil
        show _ = ((scanned ++ [last]).filter (·.token.class? == some c)).length
        rw [grown, List.filter_append, noClass, List.append_nil]
        exact Nat.zero_add _
    longestString := measured (measures_strings detailed) rfl rfl
    longestComment := measured (measures_comments detailed) rfl rfl }

/-! ## What an analyzer keeps -/

/-- Whatever is noted while a text is read, the lexer reads the same. All that has been read is noted, the end of
the text excepted. -/
theorem Lexer.exists_of_readFrom {σ : Type} (note : σ → Token → σ) (countComments : Bool) (steps : Nat)
    (place : Position) (cs : List Char) (found : List SpannedToken) (counted : Nat) (kept : σ) :
    ∃ scanned : List SpannedToken,
      (∀ t ∈ scanned, t.token.isEof = false) ∧
      (readFrom note countComments steps place cs found counted kept).2 =
        scanned.foldl (fun kept t => note kept t.token) kept ∧
      (readFrom note countComments steps place cs found counted kept).1 =
        lexFrom countComments steps place cs found counted ∧
      ∀ tokens, (readFrom note countComments steps place cs found counted kept).1 = .ok tokens →
        ∃ last, last.token = .eof ∧ tokens = found.reverse ++ (scanned ++ [last]) := by
  -- by induction on the steps, of which each token takes one
  induction steps generalizing place cs found counted kept with
  | zero =>
    refine ⟨[], by simp, rfl, rfl, fun tokens h => ?_⟩
    cases h
    exact ⟨_, rfl, List.reverse_cons⟩
  | succ steps ih =>
    cases left : cs.dropWhile Text.isBlank with
    | nil =>
      rw [readFrom_of_blank _ _ _ _ _ _ _ left, lexFrom_of_blank _ _ _ _ _ left]
      refine ⟨[], by simp, rfl, rfl, fun tokens h => ?_⟩
      cases h
      exact ⟨_, rfl, List.reverse_cons⟩
    | cons c rest =>
      cases read : scan c rest with
      | error r =>
        rw [readFrom_of_error _ _ _ _ _ _ _ left read, lexFrom_of_error _ _ _ _ _ left read]
        refine ⟨[], by simp, rfl, rfl, fun tokens h => ?_⟩
        cases h
      | ok s =>
        rw [readFrom_of_ok _ _ _ _ _ _ _ left read, lexFrom_of_ok _ _ _ _ _ left read]
        dsimp only
        by_cases beyond : Limits.tokenCount <
            if s.token.isSignificant || countComments then counted + 1 else counted
        · -- the token above the limit is not noted
          rw [if_pos beyond, if_pos beyond]
          refine ⟨[], by simp, rfl, rfl, fun tokens h => ?_⟩
          cases h
        · rw [if_neg beyond, if_neg beyond]
          generalize place.advanceAll (cs.takeWhile Text.isBlank) = start
          obtain ⟨scanned, notEof, noted, same, ends⟩ := ih (start.advanceAll s.lexeme) s.rest
            (⟨s.token, start, start.advanceAll s.lexeme⟩ :: found) _ (note kept s.token)
          refine ⟨⟨s.token, start, start.advanceAll s.lexeme⟩ :: scanned, ?_, noted, same, fun tokens h => ?_⟩
          · exact List.forall_mem_cons.mpr ⟨isEof_of_scan read, notEof⟩
          · obtain ⟨last, eof, parts⟩ := ends tokens h
            refine ⟨last, eof, ?_⟩
            rw [parts, List.reverse_cons, List.append_assoc]
            rfl

namespace Analyzer

/-- An analyzer splits a text as the lexer does, whatever it has read before. -/
theorem outcome_tokenize (a : Analyzer) (name content : String) :
    (a.tokenize name content).1 =
      (Lexer.lex a.preferences.countComments content.toList).map fun tokens =>
        .ofTokens tokens (some ⟨name, content⟩) := by
  obtain ⟨-, -, -, same, -⟩ :=
    Lexer.exists_of_readFrom (·.record a.preferences.detailedMetrics) a.preferences.countComments
      content.toList.length .start content.toList [] 0 LexicalMetrics.empty
  exact congrArg (Except.map _) same

/-- The analyzer after texts have been read one after the other, whatever became of them. -/
def after (a : Analyzer) : List SourceText → Analyzer
  | [] => a
  | text :: texts => (a.tokenize text.name text.content).2.after texts

/-- Whatever has been read, the preferences are those of before. -/
theorem preferences_after (a : Analyzer) (texts : List SourceText) :
    (a.after texts).preferences = a.preferences := by
  induction texts generalizing a with
  | nil => rfl
  | cons text texts ih => exact (ih _).trans (a.preferences_tokenize _ _)

/-- Where an analyzer splits a text into tokens, the lexer does, and the metrics are those of the tokens. -/
theorem exists_tokens_of_tokenize (a : Analyzer) {name content : String} {s : TokenStream}
    (h : (a.tokenize name content).1 = .ok s) :
    ∃ scanned last, (∀ t ∈ scanned, t.token.isEof = false) ∧ last.token = .eof ∧
      s = .ofTokens (scanned ++ [last]) (some ⟨name, content⟩) ∧
      Lexer.lex a.preferences.countComments content.toList = .ok (scanned ++ [last]) ∧
      (a.tokenize name content).2.metrics = .ofTokens a.preferences.detailedMetrics (scanned ++ [last]) := by
  obtain ⟨scanned, notEof, recorded, same, ends⟩ :=
    Lexer.exists_of_readFrom (·.record a.preferences.detailedMetrics) a.preferences.countComments
      content.toList.length .start content.toList [] 0 LexicalMetrics.empty
  rw [a.outcome_tokenize] at h
  cases lexed : Lexer.lex a.preferences.countComments content.toList with
  | error failure =>
    rw [lexed] at h
    cases h
  | ok tokens =>
    rw [lexed] at h
    cases h
    obtain ⟨last, eof, parts⟩ := ends tokens (same.trans lexed)
    rw [List.reverse_nil, List.nil_append] at parts
    subst parts
    refine ⟨scanned, last, notEof, eof, rfl, rfl, ?_⟩
    rw [(LexicalMetrics.ofTokens_append_eof _ notEof eof).2]
    exact recorded

/-- After any texts the metrics of a text that is split into tokens describe these tokens, and nothing else. -/
theorem describes_of_tokenize (a : Analyzer) (earlier : List SourceText) {name content : String}
    {s : TokenStream} (h : ((a.after earlier).tokenize name content).1 = .ok s) :
    Lexer.lex a.preferences.countComments content.toList = .ok s.all ∧
      ((a.after earlier).tokenize name content).2.metrics.Describes a.preferences.detailedMetrics s := by
  obtain ⟨scanned, last, notEof, eof, rfl, lexed, metrics⟩ := (a.after earlier).exists_tokens_of_tokenize h
  rw [a.preferences_after earlier] at lexed metrics
  rw [metrics]
  exact ⟨lexed, LexicalMetrics.describes_ofTokens _ notEof eof _⟩

/-- A string and a comment, read after a text that is refused. -/
theorem describes_of_tokenize_quotedText :
    let a := Analyzer.new ⟨true, false⟩
    let refused : SourceText := ⟨"a.tji", "x \"y"⟩
    let text : SourceText := ⟨"b.tji", "\"é\" # y"⟩
    let s := TokenStream.ofTokens
      [⟨.string "é", ⟨⟨0, 1, 1⟩, ⟨4, 1, 4⟩⟩⟩, ⟨.comment "# y", ⟨⟨5, 1, 5⟩, ⟨8, 1, 8⟩⟩⟩,
        ⟨.eof, ⟨⟨8, 1, 8⟩, ⟨8, 1, 8⟩⟩⟩] (some text)
    ((a.after [refused]).tokenize text.name text.content).1 = .ok s ∧
      Lexer.lex false text.content.toList = .ok s.all ∧
      ((a.after [refused]).tokenize text.name text.content).2.metrics.Describes true s := by
  intro a refused text s
  have read : Lexer.lex false text.content.toList = .ok s.all := by
    have chars : "\"é\" # y".toList = ['"', 'é', '"', ' ', '#', ' ', 'y'] := by decide
    show Lexer.lex false "\"é\" # y".toList = .ok s.all
    rw [chars]
    rfl
  have taken : ((a.after [refused]).tokenize text.name text.content).1 = .ok s := by
    rw [outcome_tokenize, preferences_after]
    exact congrArg (Except.map fun tokens => TokenStream.ofTokens tokens (some text)) read
  exact ⟨taken, a.describes_of_tokenize [refused] taken⟩

end Analyzer

end Planfile
