import Mathlib.Tactic.Tauto
import VisiblyPushdown.Grammar.Tagging

/-!
# Commitments

An assignment of roles goes through the ranked pairs and decides about each one with the roles that
were given before. `commit_cases` is one step: the pair contradicts those roles and nothing happens,
or its sides get their roles. `committed` lists the pairs of a whole run for which the latter is the
case. They are all that a run depends on: the tagged terminals are their sides
(`toList_foldl_commit`), and the other pairs can be left out (`foldl_commit_filter`).
-/

namespace VisiblyPushdown.RoleAssignment

variable {plain : SymbolSet} {assigned : RoleAssignment} {pair other : TerminalPair}
  {pairs ranked : List TerminalPair} {terminal : Symbol}

theorem contradicts_eq_false_iff :
    assigned.contradicts plain pair = false ↔
      pair.1 ≠ pair.2 ∧ pair.1 ∉ plain.toList ∧ pair.2 ∉ plain.toList ∧
        pair.1 ∉ assigned.returns.toList ∧ pair.2 ∉ assigned.calls.toList := by
  simp only [contradicts, OrderedSet.contains_eq_decide, Bool.or_eq_false_iff,
    decide_eq_false_iff_not, and_assoc, ne_eq]

/-- Committing a pair gives its sides their roles, unless it contradicts the plain terminals. -/
theorem commit_cases (plain : SymbolSet) (assigned : RoleAssignment) (pair : TerminalPair) :
    (assigned.contradicts plain pair ∧ commit plain assigned pair = assigned) ∨
      (assigned.contradicts plain pair = false ∧
        (commit plain assigned pair).calls.toList =
          InsertionOrder.insert assigned.calls.toList pair.1 ∧
        (commit plain assigned pair).returns.toList =
          InsertionOrder.insert assigned.returns.toList pair.2) := by
  unfold commit
  split
  · next contradictory => exact .inl ⟨contradictory, rfl⟩
  · next compatible =>
      rw [Bool.not_eq_true] at compatible
      exact .inr ⟨compatible, OrderedSet.toList_insert _ _, OrderedSet.toList_insert _ _⟩

/-- The roles that a commitment gives speak against exactly those pairs that need the others. -/
theorem contradicts_commit_eq_false_iff (compatible : assigned.contradicts plain other = false) :
    (commit plain assigned other).contradicts plain pair = false ↔
      assigned.contradicts plain pair = false ∧ other.2 ≠ pair.1 ∧ other.1 ≠ pair.2 := by
  rcases commit_cases plain assigned other with ⟨contradictory, _⟩ | ⟨_, calls_eq, returns_eq⟩
  · rw [compatible] at contradictory
    cases contradictory
  · simp only [contradicts_eq_false_iff, calls_eq, returns_eq, InsertionOrder.mem_insert]
    tauto

/-- The pairs that a run commits, in order; the others contradict the roles given before. -/
def committed (plain : SymbolSet) : RoleAssignment → List TerminalPair → List TerminalPair
  | _, [] => []
  | assigned, pair :: ranked =>
    if assigned.contradicts plain pair then committed plain assigned ranked
    else pair :: committed plain (commit plain assigned pair) ranked

theorem committed_cons_of_contradicts (contradictory : assigned.contradicts plain pair) :
    committed plain assigned (pair :: ranked) = committed plain assigned ranked := by
  simp [committed, contradictory]

theorem committed_cons_of_compatible (compatible : assigned.contradicts plain pair = false) :
    committed plain assigned (pair :: ranked) =
      pair :: committed plain (commit plain assigned pair) ranked := by
  simp [committed, compatible]

theorem committed_sublist (plain : SymbolSet) (assigned : RoleAssignment)
    (ranked : List TerminalPair) : (committed plain assigned ranked).Sublist ranked := by
  induction ranked generalizing assigned with
  | nil => exact .slnil
  | cons pair ranked ih =>
      rcases commit_cases plain assigned pair with ⟨contradictory, _⟩ | ⟨compatible, _⟩
      · rw [committed_cons_of_contradicts contradictory]
        exact (ih assigned).cons pair
      · rw [committed_cons_of_compatible compatible]
        exact (ih _).cons_cons pair

/-- A run gives roles to the sides of the pairs that it commits and to nothing else. -/
theorem toList_foldl_commit (plain : SymbolSet) (assigned : RoleAssignment)
    (ranked : List TerminalPair) :
    (ranked.foldl (commit plain) assigned).calls.toList = InsertionOrder.insertAll
      assigned.calls.toList ((committed plain assigned ranked).map Prod.fst) ∧
    (ranked.foldl (commit plain) assigned).returns.toList = InsertionOrder.insertAll
      assigned.returns.toList ((committed plain assigned ranked).map Prod.snd) := by
  induction ranked generalizing assigned with
  | nil => exact ⟨rfl, rfl⟩
  | cons pair ranked ih =>
      rcases commit_cases plain assigned pair with
        ⟨contradictory, unchanged⟩ | ⟨compatible, calls_eq, returns_eq⟩
      · rw [List.foldl_cons, unchanged, committed_cons_of_contradicts contradictory]
        exact ih assigned
      · rw [List.foldl_cons, committed_cons_of_compatible compatible, (ih _).1, (ih _).2, calls_eq,
          returns_eq]
        exact ⟨rfl, rfl⟩

/-- Dropping pairs that a run does not commit does not change the run. -/
theorem foldl_commit_filter {keep : TerminalPair → Bool}
    (kept : ∀ pair ∈ committed plain assigned ranked, keep pair) :
    (ranked.filter keep).foldl (commit plain) assigned = ranked.foldl (commit plain) assigned := by
  induction ranked generalizing assigned with
  | nil => rfl
  | cons pair ranked ih =>
      rcases commit_cases plain assigned pair with ⟨contradictory, unchanged⟩ | ⟨compatible, _⟩
      · rw [committed_cons_of_contradicts contradictory] at kept
        by_cases pair_kept : keep pair
        · rw [List.filter_cons_of_pos pair_kept, List.foldl_cons, List.foldl_cons, unchanged,
            ih kept]
        · rw [List.filter_cons_of_neg pair_kept, List.foldl_cons, unchanged, ih kept]
      · rw [committed_cons_of_compatible compatible, List.forall_mem_cons] at kept
        rw [List.filter_cons_of_pos kept.1, List.foldl_cons, List.foldl_cons]
        exact ih kept.2

/-- The pairs of a multiset that are committed, from the first rank to the last. -/
def accepted (plain : SymbolSet) (pairs : List TerminalPair) : List TerminalPair :=
  committed plain {} (rankByFrequency pairs)

theorem calls_ofPairs (plain : SymbolSet) (pairs : List TerminalPair) :
    (ofPairs plain pairs).calls.toList =
      InsertionOrder.distinct ((accepted plain pairs).map Prod.fst) :=
  (toList_foldl_commit plain {} (rankByFrequency pairs)).1

theorem returns_ofPairs (plain : SymbolSet) (pairs : List TerminalPair) :
    (ofPairs plain pairs).returns.toList =
      InsertionOrder.distinct ((accepted plain pairs).map Prod.snd) :=
  (toList_foldl_commit plain {} (rankByFrequency pairs)).2

theorem mem_calls_ofPairs :
    terminal ∈ (ofPairs plain pairs).calls.toList ↔
      ∃ pair ∈ accepted plain pairs, pair.1 = terminal := by
  rw [calls_ofPairs, InsertionOrder.mem_distinct, List.mem_map]

theorem mem_returns_ofPairs :
    terminal ∈ (ofPairs plain pairs).returns.toList ↔
      ∃ pair ∈ accepted plain pairs, pair.2 = terminal := by
  rw [returns_ofPairs, InsertionOrder.mem_distinct, List.mem_map]

end VisiblyPushdown.RoleAssignment
