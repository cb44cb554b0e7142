import Planfile.Proofs.Course.Invariant
import Planfile.Proofs.Course.Language
import Planfile.Proofs.Statement.Language

/-!
# Planfile — entries are linked

Only headers make entries: a header makes its own below the one that is current, which is there already. So
parents come before their children, and the id of a task below another one starts with the id of that one,
wherever a plan is being read.

Main results:

* `Prepared.cases_of_entryLists` — only headers and the ends of bodies change the entries and which one is
  current.
* `EntryLists.Linked` — what all the entries of a plan keep.
* `Language.linked_of_visits` — wherever matching comes, the entries are linked.
-/

namespace Planfile

open Matcher
open Plan (PropertyKind)

namespace EntryLists

/-- Whether parents come before their children, and the id of a task below another one starts with the id of
that one. -/
structure Linked (r : EntryLists) : Prop where
  placed : r.Placed
  parent_lt : ∀ (kind : PropertyKind) (i : Nat) (h : Heading) (k : Nat), (r.headings kind)[i]? = some h →
    h.parent = some k → k < i
  path : ∀ (i : Nat) (h : Heading) (k : Nat), (r.headings .task)[i]? = some h → h.parent = some k →
    ∃ (a : Heading) (own : String), (r.headings .task)[k]? = some a ∧ h.id = a.id ++ "." ++ own

variable {r s : EntryLists} {kind : PropertyKind}

/-- It is about nothing but the entries and the one that is current. -/
theorem Linked.of_eq (h : r.Linked) (placed : s.Placed) (same : ∀ kind, s.headings kind = r.headings kind) :
    s.Linked where
  placed := placed
  parent_lt kind := same kind ▸ h.parent_lt kind
  path := same .task ▸ h.path

/-- The entry around the next statement is one of its kind. -/
theorem exists_above {i : Nat} {id : String} (around : r.above kind = some (i, id)) :
    ∃ a, (r.headings kind)[i]? = some a ∧ a.id = id := by
  unfold above at around
  split at around
  · split at around
    · obtain ⟨a, entry, same⟩ := Option.map_eq_some_iff.mp around
      cases same
      exact ⟨a, entry, rfl⟩
    · cases around
  · cases around

/-- Behind a header the entries are those of before and the one of the header. -/
theorem cases_headings_enter {id name : String} {i : Nat} {q : Heading}
    (entry : ((r.enter kind id name).headings kind)[i]? = some q) :
    (r.headings kind)[i]? = some q ∨ i = (r.headings kind).length ∧
      q = ⟨Forest.fullId kind ((r.above kind).map (·.2)) id, name, (r.above kind).map (·.1)⟩ := by
  rw [headings_enter, List.getElem?_append] at entry
  split at entry
  · exact .inl entry
  · rw [List.getElem?_singleton] at entry
    split at entry
    · exact .inr ⟨by omega, (Option.some.inj entry).symm⟩
    · cases entry

/-- A header makes its entry below one that is there. -/
theorem Linked.enter (h : r.Linked) (kind : PropertyKind) (id name : String) :
    (r.enter kind id name).Linked := by
  -- the entry below which the new one is made
  have around {k : Nat} (parent : (r.above kind).map (·.1) = some k) :
      ∃ a, (r.headings kind)[k]? = some a ∧ (r.above kind).map (·.2) = some a.id := by
    obtain ⟨⟨i, above⟩, found, same⟩ := Option.map_eq_some_iff.mp parent
    cases same
    obtain ⟨a, entry, rfl⟩ := exists_above found
    exact ⟨a, entry, by rw [found, Option.map_some]⟩
  constructor
  case placed => exact h.placed.enter
  case parent_lt =>
    intro other i q k entry parent
    by_cases same : other = kind
    · subst same
      rcases cases_headings_enter entry with old | ⟨rfl, rfl⟩
      · exact h.parent_lt other i q k old parent
      · obtain ⟨a, there, -⟩ := around parent
        exact (List.getElem?_eq_some_iff.mp there).1
    · rw [headings_enter_ne same] at entry
      exact h.parent_lt other i q k entry parent
  case path =>
    intro i q k entry parent
    by_cases same : PropertyKind.task = kind
    · subst same
      have still {a : Heading} (there : (r.headings .task)[k]? = some a) :
          ((r.enter .task id name).headings .task)[k]? = some a := by
        rw [headings_enter, List.getElem?_append_left (List.getElem?_eq_some_iff.mp there).1]
        exact there
      rcases cases_headings_enter entry with old | ⟨rfl, rfl⟩
      · obtain ⟨a, own, there, path⟩ := h.path i q k old parent
        exact ⟨a, own, still there, path⟩
      · obtain ⟨a, there, above⟩ := around parent
        refine ⟨a, id, still there, ?_⟩
        rw [above]
        rfl
    · rw [headings_enter_ne same] at entry ⊢
      exact h.path i q k entry parent

/-- The end of a body goes back to an entry that is there. -/
theorem Linked.leave (h : r.Linked) : r.leave.Linked := by
  refine h.of_eq ⟨h.placed.kinds, fun kind i inside => ?_⟩ fun kind => rfl
  obtain ⟨⟨other, k⟩, current, inside⟩ := Option.bind_eq_some_iff.mp inside
  obtain ⟨q, entry, inside⟩ := Option.bind_eq_some_iff.mp inside
  obtain ⟨j, parent, same⟩ := Option.bind_eq_some_iff.mp inside
  cases same
  have before : i < k := h.parent_lt kind k q i entry parent
  exact Nat.lt_trans before (List.getElem?_eq_some_iff.mp entry).1

end EntryLists

/-- Before the first token there are no entries that could be linked. -/
theorem Context.linked_initial (tokens : TokenSource) (journal : Log.Journal) :
    (Context.initial tokens journal).entryLists.Linked := by
  have nothing {kind : PropertyKind} {i : Nat} {q : Heading}
      (entry : ((Context.initial tokens journal).entryLists.headings kind)[i]? = some q) : False := by
    cases entry
  exact ⟨placed_initial tokens journal, fun _ _ _ _ entry => (nothing entry).elim,
    fun _ _ _ entry => (nothing entry).elim⟩

section
variable {ofRule : RuleId → Shape} {effects : Effects} {env : Surroundings} {reference : RuleId}
  {p : Pattern} {a : Action} {v : Values} {c d : Context}

/-- Only headers make entries, and only headers and the ends of bodies change which one is current. -/
theorem Prepared.cases_of_entryLists (ht : env.grammar.Typed ofRule)
    (known : env.grammar.ruleId? "referenceBody" = some reference)
    (prepared : Prepared env.grammar ofRule effects p v c) (action : p.action = some a)
    (placed : c.entryLists.Placed) {matchRule : RuleId → Matcher (Option Value)} {x : Option Value}
    (run : a.perform matchRule v env c = (.ok x, d)) :
    (d.entryLists.property = c.entryLists.property ∧
      (∀ kind, d.entryLists.headings kind = c.entryLists.headings kind) ∧
      d.entryLists.Placed) ∨
    (∃ kind id name, d.entryLists = c.entryLists.enter kind id name) ∨ d.entryLists = c.entryLists.leave := by
  cases plain : a.isPlain with
  | true =>
    have records := (prepared.records ht known action plain placed run).2
    exact .inl ⟨records.property, fun kind => (records.headings kind).trans (List.append_nil _),
      records.placed⟩
  | false =>
    unfold Action.isPlain at plain
    split at plain
    · next kind =>
      obtain ⟨id, name, -, -, -, -, entered⟩ := PropertyAction.entryLists_header placed run
      exact .inr (.inl ⟨kind, id, name, entered⟩)
    · obtain ⟨-, -, left⟩ := PropertyAction.entryLists_close (v := v) run
      exact .inr (.inr left)
    · obtain ⟨kind, _, name, -, -, -, -, -, entered⟩ := ReportAction.entryLists_header run
      exact .inl (entered ▸ ⟨rfl, fun _ => rfl, (placed.records_enterReport kind name).placed⟩)
    · obtain ⟨-, path, tokens, journal, -, rfl, -⟩ := Action.eq_of_run_includeFile v run
      exact .inl ⟨rfl, fun _ => rfl, placed⟩
    · exact ((prepared.allows _ action).not_rule).elim
    · cases plain

/-- Whatever is done while a plan is read, its entries stay linked. -/
theorem Prepared.linked (ht : env.grammar.Typed ofRule)
    (known : env.grammar.ruleId? "referenceBody" = some reference)
    (prepared : Prepared env.grammar ofRule effects p v c) (action : p.action = some a)
    (linked : c.entryLists.Linked) {matchRule : RuleId → Matcher (Option Value)} {x : Option Value}
    (run : a.perform matchRule v env c = (.ok x, d)) : d.entryLists.Linked := by
  rcases prepared.cases_of_entryLists ht known action linked.placed run with
    ⟨-, same, placed⟩ | ⟨kind, id, name, entered⟩ | left
  · exact linked.of_eq placed same
  · exact entered ▸ linked.enter kind id name
  · exact left ▸ linked.leave

end

end Planfile

namespace Planfile.Language

section
variable {env : Surroundings} (h : grammar = .ok env.grammar) {tokens : TokenSource}
  {journal : Log.Journal} {id : RuleId} (known : env.grammar.ruleId? "project" = some id)

include h known

/-- Wherever matching comes, the entries of the plan are linked. -/
theorem linked_of_visits {n : Nat} {s : Stage} {c : Context}
    (visit : Visits env ampleFuel (.symbols [.rule id]) (.initial tokens journal) n s c) :
    c.entryLists.Linked := by
  obtain ⟨charted, -⟩ := exists_charted h
  obtain ⟨reference, body⟩ := charted.typed.extensible.reference
  refine visit.holds charted (fun c => c.entryLists.Linked) (fun _ _ _ _ _ linked => linked) ?_
    (grounded_initial _ _ tokens journal) (stands_initial h known) (Context.linked_initial tokens journal)
  intro matchRule p v a x c d prepared action linked run
  exact prepared.linked charted.typed body action linked run

end

end Planfile.Language
