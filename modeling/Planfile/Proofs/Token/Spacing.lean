import Planfile.Proofs.Token.RoundTrip
import Planfile.Proofs.Token.Steady
import Planfile.Proofs.Token.Tiling

/-!
# Planfile — what can be put in between tokens

White space and block comments can be put in before and behind every token but a line comment, behind which
they would be a part of it. The tokens before are read as before, since no reader looks for what is put in.
The tokens behind are read from the same characters, at other places. So the tokens of the longer text are
those of the shorter one, and the comment, if it is one.

That a text is read at all is a matter of its tokens and of their number: what tiles a text within the limit
on tokens is what is read of it.

Main results:

* `Lexer.lexFrom_of_tiles` — tokens that tile a text within the limit are read.
* `Lexer.Tiles.insert` — spacing between two tokens leaves the tokens as they are.
-/

namespace Planfile

namespace Lexer

/-! ## What is read of a text -/

/-- No token starts with a blank. -/
theorem isBlank_of_scan {c : Char} {cs : List Char} {s : Scanned} (h : scan c cs = .ok s) :
    Text.isBlank c = false := by
  -- by the readers that the first character chooses from
  unfold scan at h
  split at h
  · next hash => rw [hash]; rfl
  split at h
  · next slash => rw [slash]; rfl
  split at h
  · next quote => rcases quote with rfl | rfl <;> rfl
  split at h
  · next digit =>
    have code := Text.Digits.isDigit_iff_toNat.mp digit
    exact isBlank_eq_false (by omega) (by omega)
  split at h
  · next bang => rw [bang]; rfl
  split at h
  · next name =>
    have code := toNat_of_isIdStart name
    exact isBlank_eq_false (by omega) (by omega)
  · unfold scanMark at h
    split at h
    · rfl
    · rfl
    · split at h
      · next mark =>
        unfold Mark.ofChar? at mark
        split at mark <;> first | rfl | cases mark
      · cases h

/-- Where a token stands behind blanks, the blanks are passed over up to it. -/
theorem split_of_scan {gap cs : List Char} {c : Char} {s : Scanned} (blank : Text.allBlank gap = true)
    (h : scan c cs = .ok s) :
    (gap ++ c :: cs).takeWhile Text.isBlank = gap ∧ (gap ++ c :: cs).dropWhile Text.isBlank = c :: cs := by
  have blanks : ∀ c ∈ gap, Text.isBlank c = true := List.all_eq_true.mp blank
  have noBlank : ¬Text.isBlank c = true := Bool.eq_false_iff.mp (isBlank_of_scan h)
  refine ⟨?_, ?_⟩
  · rw [List.takeWhile_append_of_pos blanks, List.takeWhile_cons_of_neg noBlank, List.append_nil]
  · rw [List.dropWhile_append_of_pos blanks, List.dropWhile_cons_of_neg noBlank]

/-- Tokens that tile what is left of a text are read of it, if there is room for them. -/
theorem lexFrom_of_tiles {countComments : Bool} {before cs : List Char} {tokens : List SpannedToken}
    (h : Tiles before cs tokens) {steps counted : Nat} (found : List SpannedToken)
    (enough : cs.length ≤ steps)
    (room : counted + countOf countComments (valuesOf tokens) ≤ Limits.tokenCount) :
    lexFrom countComments steps (placeBehind before) cs found counted = .ok (found.reverse ++ tokens) := by
  induction h generalizing steps counted found with
  | @done before gap blank =>
    have blanks : ∀ c ∈ gap, Text.isBlank c = true := List.all_eq_true.mp blank
    have taken : (gap ++ []).takeWhile Text.isBlank = gap ++ [] := List.takeWhile_append_of_pos blanks
    have left : (gap ++ []).dropWhile Text.isBlank = [] := List.dropWhile_append_of_pos blanks
    rw [List.append_nil] at taken left
    rw [lexFrom_of_blank _ _ _ _ _ left, taken, ← placeBehind_append]
    exact congrArg _ List.reverse_cons
  | @lexeme before gap c cs s tokens blank read text some notEof behind ih =>
    obtain ⟨taken, left⟩ := split_of_scan blank read
    have shorter := length_rest_le_of_scan read
    rw [List.append_assoc, text] at enough ⊢
    rw [List.length_append, List.length_cons] at enough
    -- a lexeme is not empty, so there is a step left for it
    obtain ⟨steps, rfl⟩ : ∃ n, steps = n + 1 := ⟨steps - 1, by omega⟩
    have fits : counted + countOf countComments (s.token :: valuesOf tokens) ≤ Limits.tokenCount := room
    rw [countOf_cons_of_notEof countComments notEof] at fits
    rw [lexFrom_of_ok _ _ _ _ _ left read, taken, ← placeBehind_append]
    dsimp only
    rw [← placeBehind_append, if_neg (by omega), ih _ (by omega) fits, List.reverse_cons, List.append_assoc]
    rfl

/-! ## Tokens at other places -/

/-- Behind blanks, and wherever it stands, a text has the same tokens. -/
theorem Tiles.behind_blanks {before cs : List Char} {tokens : List SpannedToken} (h : Tiles before cs tokens)
    (before' : List Char) {gap : List Char} (blank : Text.allBlank gap = true) :
    ∃ tokens', Tiles before' (gap ++ cs) tokens' ∧ valuesOf tokens' = valuesOf tokens := by
  have both {more : List Char} (h : Text.allBlank more = true) : Text.allBlank (gap ++ more) = true := by
    rw [Text.allBlank] at blank h ⊢
    rw [List.all_append, blank, h, Bool.and_self]
  induction h generalizing before' gap with
  | done more => exact ⟨_, .done (both more), rfl⟩
  | @lexeme before more c cs s tokens blank' read text some notEof behind ih =>
    obtain ⟨tokens', tiled, same⟩ :=
      @ih (before' ++ (gap ++ more) ++ s.lexeme) [] rfl fun h => h
    have longer := Tiles.lexeme (both blank') read text some notEof tiled
    rw [List.append_assoc, List.append_assoc, ← List.append_assoc more] at longer
    exact ⟨_, longer, congrArg (List.cons s.token) same⟩

/-- A block comment that is not closed earlier is split off at its end. -/
theorem splitAtClose_of_body {body : List Char} (unclosed : ¬['*', '/'] <:+: body) (seen rest : List Char) :
    splitAtClose seen (body ++ '*' :: '/' :: rest) = some (seen.reverse ++ (body ++ ['*', '/']), rest) := by
  induction body generalizing seen with
  | nil => simp [splitAtClose]
  | cons c body ih =>
    have further : ¬['*', '/'] <:+: body := fun inside => unclosed (inside.trans (List.suffix_cons c body).isInfix)
    rw [List.cons_append, splitAtClose]
    · rw [ih further, List.reverse_cons, List.append_assoc]
      rfl
    · -- closed here, the body would hold the two characters
      rintro behind rfl slash
      cases body with
      | nil => cases slash
      | cons d body =>
        obtain ⟨rfl, -⟩ := List.cons.inj slash
        exact unclosed ⟨[], body, rfl⟩

/-- What can be put in between tokens, of which some count toward the limit: white space, or a whole block
comment within the limit on comments if there is room for a token. -/
inductive Spacing (countComments : Bool) (counted : Nat) : List Char → Prop
  | blanks {gap : List Char} (blank : Text.allBlank gap = true) : Spacing countComments counted gap
  | comment {body : List Char} (unclosed : ¬['*', '/'] <:+: body)
    (within : byteSize ('/' :: '*' :: (body ++ ['*', '/'])) ≤ Limits.commentLength)
    (room : countComments = true → counted < Limits.tokenCount) :
    Spacing countComments counted ('/' :: '*' :: (body ++ ['*', '/']))

/-- What spacing reads as: tokens that the grammar does not see, and for which there is room. -/
structure ReadsAsSpacing (countComments : Bool) (counted : Nat) (gap : List Char) (extra : List Token) :
    Prop where
  unseen : ∀ t ∈ extra, t.isSignificant = false
  fits : counted ≤ Limits.tokenCount → counted + countOf countComments extra ≤ Limits.tokenCount
  reads : ∀ {before first rest : List Char} {tokens : List SpannedToken} (before' : List Char),
    Text.allBlank first = true → Tiles before rest tokens →
      ∃ tokens', Tiles before' (first ++ gap ++ rest) tokens' ∧ valuesOf tokens' = extra ++ valuesOf tokens

theorem Spacing.exists_reads {countComments : Bool} {counted : Nat} {gap : List Char}
    (h : Spacing countComments counted gap) : ∃ extra, ReadsAsSpacing countComments counted gap extra := by
  cases h with
  | blanks blank =>
    refine ⟨[], nofun, id, fun {_ first} _ _ before' blankToo tiles => ?_⟩
    have all : Text.allBlank (first ++ gap) = true := by
      rw [Text.allBlank] at blank blankToo ⊢
      rw [List.all_append, blank, blankToo, Bool.and_self]
    exact tiles.behind_blanks before' all
  | @comment body unclosed within room =>
    let text := '/' :: '*' :: (body ++ ['*', '/'])
    refine ⟨[.comment (String.ofList text)], ?_, ?_, fun {_ first rest} _ before' blank tiles => ?_⟩
    · intro t ht
      rw [List.mem_singleton.mp ht]
      rfl
    · intro counted
      cases countComments with
      | false => exact counted
      | true => exact room rfl
    · -- the comment is a lexeme, with what comes next directly behind it
      have none : Text.allBlank [] = true := rfl
      obtain ⟨tokens', tiled, same⟩ := tiles.behind_blanks (before' ++ first ++ text) none
      have read : scan '/' ('*' :: (body ++ '*' :: '/' :: rest)) =
          .ok ⟨.comment (String.ofList text), text, rest⟩ := by
        have split := splitAtClose_of_body unclosed ['*', '/'] rest
        show scanBlockComment (body ++ '*' :: '/' :: rest) = _
        unfold scanBlockComment
        rw [split]
        exact if_pos within
      have longer := Tiles.lexeme blank read (by simp [text]) (List.cons_ne_nil _ _) rfl tiled
      exact ⟨_, longer, congrArg (List.cons _) same⟩

/-- Spacing starts with a character that no reader looks for. -/
theorem Spacing.spaced {countComments : Bool} {counted : Nat} {gap : List Char}
    (h : Spacing countComments counted gap) (some : gap ≠ []) (rest : List Char) :
    Spaced rest (gap ++ rest) := by
  cases h with
  | blanks blank =>
    cases gap with
    | nil => exact absurd rfl some
    | cons c gap =>
      have first : Text.isBlank c = true := List.all_eq_true.mp blank c List.mem_cons_self
      exact .here gap rest (Bool.or_eq_true_iff.mpr (.inl first))
  | comment => exact .here _ rest rfl

/-! ## Boundaries -/

/-- Places behind first parts of one text tell the parts apart. -/
theorem eq_of_placeBehind {xs ys cs : List Char} (hx : xs <+: cs) (hy : ys <+: cs)
    (same : placeBehind xs = placeBehind ys) : xs = ys := by
  have size : byteSize xs = byteSize ys := by
    rw [← offset_placeBehind, ← offset_placeBehind, same]
  -- of two texts of one size of which one starts with the other none is longer
  have shorter {xs ys : List Char} (starts : xs <+: ys) (size : byteSize xs = byteSize ys) : xs = ys := by
    obtain ⟨more, rfl⟩ := starts
    rw [byteSize_append] at size
    cases more with
    | nil => exact (List.append_nil xs).symm
    | cons c more =>
      have some := one_le_utf8Size c
      rw [byteSize_cons] at size
      omega
  rcases List.prefix_or_prefix_of_prefix hx hy with starts | starts
  · exact shorter starts size
  · exact (shorter starts size.symm).symm

/-- Whether a token starts or stops at a place. -/
def IsBoundary (tokens : List SpannedToken) (p : Position) : Prop :=
  ∃ t ∈ tokens, t.span.start = p ∨ t.span.stop = p

/-- Whether a line comment stops at a place. -/
def EndsLineComment (tokens : List SpannedToken) (p : Position) : Prop :=
  ∃ t ∈ tokens, t.token.isLineComment = true ∧ t.span.stop = p

/-- Tokens that tile a part of a text start and stop behind what comes before the part. -/
theorem Tiles.exists_of_boundary {before cs : List Char} {tokens : List SpannedToken}
    (h : Tiles before cs tokens) {p : Position} (boundary : IsBoundary tokens p) :
    ∃ xs, xs <+: cs ∧ p = placeBehind (before ++ xs) := by
  -- by induction on the tokens, of which the first one is in front or behind
  induction h with
  | @done before gap _ =>
    obtain ⟨t, ht, place⟩ := boundary
    obtain rfl := List.mem_singleton.mp ht
    refine ⟨gap, List.prefix_refl _, ?_⟩
    rcases place with start | stop
    · exact start.symm
    · exact stop.symm
  | @lexeme before gap c cs s tokens _ _ _ _ _ _ ih =>
    obtain ⟨t, ht, place⟩ := boundary
    rcases List.mem_cons.mp ht with rfl | ht
    · rcases place with start | stop
      · exact ⟨gap, by rw [List.append_assoc]; exact List.prefix_append _ _, start.symm⟩
      · exact ⟨gap ++ s.lexeme, List.prefix_append _ _, by rw [← stop, List.append_assoc]⟩
    · obtain ⟨xs, starts, place⟩ := ih ⟨t, ht, place⟩
      refine ⟨gap ++ s.lexeme ++ xs, (List.prefix_append_right_inj _).mpr starts, ?_⟩
      rw [place]
      simp only [List.append_assoc]

/-- A boundary of a text that starts with blanks and a lexeme is in front of the lexeme or behind it. -/
theorem cases_of_boundary {before front lexeme rest xs ys : List Char} {t : SpannedToken}
    {tokens : List SpannedToken} (split : front ++ lexeme ++ rest = xs ++ ys)
    (span : t.span = ⟨placeBehind (before ++ front), placeBehind (before ++ front ++ lexeme)⟩)
    (behind : Tiles (before ++ front ++ lexeme) rest tokens)
    (boundary : IsBoundary (t :: tokens) (placeBehind (before ++ xs))) :
    (xs = front ∧ ys = lexeme ++ rest) ∨
      ∃ more, xs = front ++ lexeme ++ more ∧ rest = more ++ ys ∧
        (more ≠ [] → IsBoundary tokens (placeBehind (before ++ front ++ lexeme ++ more))) := by
  -- the place tells which first part of the text it is behind
  have eq_of_place {zs : List Char} (starts : zs <+: front ++ lexeme ++ rest)
      (same : placeBehind (before ++ zs) = placeBehind (before ++ xs)) : xs = zs := by
    have inside : before ++ xs <+: before ++ (xs ++ ys) :=
      (List.prefix_append_right_inj _).mpr (List.prefix_append _ _)
    have insideToo : before ++ zs <+: before ++ (xs ++ ys) :=
      split ▸ (List.prefix_append_right_inj _).mpr starts
    exact (List.append_cancel_left (eq_of_placeBehind insideToo inside same)).symm
  obtain ⟨u, hu, place⟩ := boundary
  rcases List.mem_cons.mp hu with rfl | hu
  · rw [span] at place
    rcases place with start | stop
    · obtain rfl := eq_of_place (by rw [List.append_assoc]; exact List.prefix_append _ _) start
      rw [List.append_assoc] at split
      exact .inl ⟨rfl, (List.append_cancel_left split).symm⟩
    · obtain rfl := eq_of_place (List.prefix_append _ _) (by rw [← stop, List.append_assoc])
      refine .inr ⟨[], (List.append_nil _).symm, List.append_cancel_left split, fun some => absurd rfl some⟩
  · obtain ⟨zs, starts, same⟩ := behind.exists_of_boundary ⟨u, hu, place⟩
    obtain rfl := eq_of_place ((List.prefix_append_right_inj _).mpr starts)
      (by rw [same]; simp only [List.append_assoc])
    rw [List.append_assoc (front ++ lexeme) zs] at split
    exact .inr ⟨zs, rfl, List.append_cancel_left split, fun _ => ⟨u, hu, by rwa [same] at place⟩⟩

/-- Where tokens tile a text, spacing can be put in at the place of a token, but for the end of a line
comment: then the same tokens tile the longer text, and those of the spacing. -/
theorem Tiles.insert {before cs : List Char} {tokens : List SpannedToken} (h : Tiles before cs tokens)
    {countComments : Bool} {counted : Nat} {gap : List Char} {extra : List Token}
    (spacing : ReadsAsSpacing countComments counted gap extra)
    (spaced : ∀ rest, Spaced rest (gap ++ rest)) {xs ys : List Char} (split : cs = xs ++ ys)
    (boundary : IsBoundary tokens (placeBehind (before ++ xs)))
    (line : ¬EndsLineComment tokens (placeBehind (before ++ xs))) :
    ∃ tokens' first second, Tiles before (xs ++ gap ++ ys) tokens' ∧
      valuesOf tokens = first ++ second ∧ valuesOf tokens' = first ++ extra ++ second := by
  -- by induction on the tiles, up to the one before which the spacing stands
  induction h generalizing xs with
  | @done before whole blank =>
    have parts : Text.allBlank xs = true ∧ Text.allBlank ys = true := by
      rw [split, Text.allBlank, List.all_append] at blank
      exact Bool.and_eq_true_iff.mp blank
    have last : Tiles before ys _ := .done parts.2
    obtain ⟨tokens', tiled, same⟩ := spacing.reads before parts.1 last
    exact ⟨tokens', [], [.eof], tiled, rfl, same⟩
  | @lexeme before front c cs s tokens blank read text some notEof behind ih =>
    rcases cases_of_boundary split rfl behind boundary with ⟨rfl, rfl⟩ | ⟨more, rfl, left, boundary⟩
    · -- the spacing comes before the first lexeme
      have first : Tiles (before ++ xs) ([] ++ s.lexeme ++ s.rest) _ :=
        .lexeme rfl read text some notEof (by rwa [List.append_nil])
      obtain ⟨tokens', tiled, same⟩ := spacing.reads before blank first
      exact ⟨tokens', [], _, tiled, rfl, same⟩
    · -- the spacing comes later, and the first lexeme is read as before
      obtain ⟨tokens', first, second, tiled, values, same⟩ : ∃ tokens' first second,
          Tiles (before ++ front ++ s.lexeme) (more ++ gap ++ ys) tokens' ∧
            valuesOf tokens = first ++ second ∧ valuesOf tokens' = first ++ extra ++ second := by
        cases more with
        | nil =>
          have none : Text.allBlank [] = true := rfl
          obtain ⟨tokens', tiled, same⟩ := spacing.reads (before ++ front ++ s.lexeme) none behind
          rw [left] at tiled
          exact ⟨tokens', [], _, tiled, rfl, same⟩
        | cons d more =>
          refine ih left (boundary (List.cons_ne_nil _ _)) ?_
          rintro ⟨t, ht, comment, stop⟩
          exact line ⟨t, List.mem_cons_of_mem _ ht, comment, by rw [stop]; simp only [List.append_assoc]⟩
      have further : Spaced s.rest (more ++ gap ++ ys) := by
        rw [left, List.append_assoc]
        exact (spaced ys).append more
      have next : s.token.isLineComment = true → (more ++ gap ++ ys).head? = s.rest.head? := by
        intro comment
        cases more with
        | nil =>
          refine absurd ⟨_, List.mem_cons_self, comment, ?_⟩ line
          simp only [List.append_assoc, List.append_nil]
        | cons d more =>
          rw [left]
          rfl
      obtain ⟨cs', text', read'⟩ := scan_of_spaced read further fun comment => .inl (next comment)
      have longer := Tiles.lexeme blank read' text' some notEof tiled
      have parts : front ++ s.lexeme ++ (more ++ gap ++ ys) = front ++ s.lexeme ++ more ++ gap ++ ys := by
        simp only [List.append_assoc]
      rw [← parts]
      exact ⟨_, s.token :: first, second, longer, congrArg (List.cons s.token) values,
        congrArg (List.cons s.token) same⟩

end Lexer

end Planfile
