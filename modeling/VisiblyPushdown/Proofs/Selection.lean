import Mathlib.Data.Set.Basic
import VisiblyPushdown.Proofs.Ranking
import VisiblyPushdown.Proofs.TerminalRoles

/-!
# The pairs that a tagging selects

An assignment of roles decides about each pair with the roles that were given before, in the order
of the ranking. `isSelection_iff` describes the outcome without the run: the accepted pairs are the
only set that contains a pair exactly if the pair can be tagged and no pair of the set that ranks
before it has one of its sides in the other role. They are also those that do not contradict the
roles in the end (`mem_accepted_iff`), so it makes no difference when a rejected pair is noticed.

Only accepted pairs leave a trace in a run, and the ranking of some pairs does not depend on the
others. So tagging again after the rejected ones were dropped changes nothing.
-/

namespace VisiblyPushdown

namespace RoleAssignment

variable {plain : SymbolSet} {assigned : RoleAssignment} {pair : TerminalPair}
  {pairs ranked : List TerminalPair}

/--
A run commits the pairs that contradict neither the roles given before it nor a committed pair of an
earlier rank.
-/
theorem mem_committed_iff (sorted : ranked.Pairwise (RanksBefore pairs)) :
    pair ∈ committed plain assigned ranked ↔
      pair ∈ ranked ∧ assigned.contradicts plain pair = false ∧
        ∀ other ∈ committed plain assigned ranked, RanksBefore pairs other pair →
          other.2 ≠ pair.1 ∧ other.1 ≠ pair.2 := by
  induction ranked generalizing assigned with
  | nil => simp [committed]
  | cons first ranked ih =>
      rw [List.pairwise_cons] at sorted
      rcases sorted with ⟨first_before, sorted⟩
      by_cases contradictory : assigned.contradicts plain first
      · rw [committed_cons_of_contradicts contradictory, ih sorted, List.mem_cons]
        constructor
        · rintro ⟨mem, compatible, free⟩
          exact ⟨.inr mem, compatible, free⟩
        · rintro ⟨rfl | mem, compatible, free⟩
          · rw [contradictory] at compatible
            cases compatible
          · exact ⟨mem, compatible, free⟩
      · rw [Bool.not_eq_true] at contradictory
        rw [committed_cons_of_compatible contradictory]
        by_cases same : pair = first
        · subst same
          -- No committed pair ranks before the first one, so nothing can hold it up.
          have earliest : ∀ other ∈ pair :: committed plain (commit plain assigned pair) ranked,
              ¬RanksBefore pairs other pair := by
            intro other mem before
            rcases List.mem_cons.1 mem with rfl | later
            · exact before.asymm before
            · exact (first_before other ((committed_sublist ..).subset later)).asymm before
          refine iff_of_true (List.mem_cons_self ..) ⟨List.mem_cons_self .., contradictory, ?_⟩
          exact fun other mem before => absurd before (earliest other mem)
        · simp only [List.mem_cons, same, false_or, forall_eq_or_imp, ih sorted,
            contradicts_commit_eq_false_iff contradictory]
          constructor
          · rintro ⟨mem, ⟨compatible, apart⟩, free⟩
            exact ⟨mem, compatible, fun _ => apart, free⟩
          · rintro ⟨mem, compatible, apart, free⟩
            exact ⟨mem, ⟨compatible, apart (first_before pair mem)⟩, free⟩

/-- Whether an assignment gives the sides of a pair their roles. -/
def Accepts (assigned : RoleAssignment) (pair : TerminalPair) : Prop :=
  pair.1 ∈ assigned.calls.toList ∧ pair.2 ∈ assigned.returns.toList

theorem IsApart.contradicts_eq_false (apart : assigned.IsApart plain)
    (accepted : assigned.Accepts pair) : assigned.contradicts plain pair = false := by
  rcases accepted with ⟨call_mem, ret_mem⟩
  apply contradicts_eq_false_iff.2
  refine ⟨?_, apart.calls_plain _ call_mem, apart.returns_plain _ ret_mem,
    apart.calls_returns _ call_mem, fun called => apart.calls_returns _ called ret_mem⟩
  intro same
  apply apart.calls_returns _ call_mem
  rwa [same]

theorem accepts_of_mem_accepted (mem : pair ∈ accepted plain pairs) :
    (ofPairs plain pairs).Accepts pair :=
  ⟨mem_calls_ofPairs.2 ⟨pair, mem, rfl⟩, mem_returns_ofPairs.2 ⟨pair, mem, rfl⟩⟩

/-- A pair is accepted if no accepted pair of an earlier rank needs one of its sides otherwise. -/
theorem mem_accepted_iff_ranked :
    pair ∈ accepted plain pairs ↔ pair ∈ pairs ∧ pair.1 ≠ pair.2 ∧ pair.1 ∉ plain.toList ∧
      pair.2 ∉ plain.toList ∧ ∀ other ∈ accepted plain pairs, RanksBefore pairs other pair →
        other.2 ≠ pair.1 ∧ other.1 ≠ pair.2 := by
  rw [accepted, mem_committed_iff (pairwise_rankByFrequency pairs), mem_rankByFrequency]
  simp [contradicts_eq_false_iff, and_assoc]

/-- The accepted pairs are those that do not contradict the assignment in the end. -/
theorem mem_accepted_iff :
    pair ∈ accepted plain pairs ↔
      pair ∈ pairs ∧ (ofPairs plain pairs).contradicts plain pair = false := by
  constructor
  · intro mem
    exact ⟨mem_of_mem_accepted mem,
      (isApart_ofPairs plain pairs).contradicts_eq_false (accepts_of_mem_accepted mem)⟩
  · rintro ⟨mem, compatible⟩
    rw [contradicts_eq_false_iff] at compatible
    rcases compatible with ⟨different, call_taggable, ret_taggable, call_free, ret_free⟩
    rw [mem_accepted_iff_ranked]
    refine ⟨mem, different, call_taggable, ret_taggable, ?_⟩
    intro other other_mem _
    rcases accepts_of_mem_accepted other_mem with ⟨call_mem, ret_mem⟩
    exact ⟨fun same => call_free (same ▸ ret_mem), fun same => ret_free (same ▸ call_mem)⟩

/-- Dropping pairs that are not accepted does not change the assignment. -/
theorem ofPairs_filter {keep : TerminalPair → Bool}
    (kept : ∀ pair ∈ accepted plain pairs, keep pair) :
    ofPairs plain (pairs.filter keep) = ofPairs plain pairs := by
  rw [ofPairs, rankByFrequency_filter, foldl_commit_filter kept, ofPairs]

end RoleAssignment

/--
Whether a set of pairs is selected from a multiset by rank: a pair is in it exactly if its sides are
different terminals that can be tagged and no pair of the set that ranks before it has its call as
the return or its return as the call.
-/
def IsSelection (plain : List Symbol) (pairs : List TerminalPair) (selected : Set TerminalPair) :
    Prop :=
  ∀ pair, pair ∈ selected ↔
    pair ∈ pairs ∧ pair.1 ≠ pair.2 ∧ pair.1 ∉ plain ∧ pair.2 ∉ plain ∧
      ∀ other ∈ selected, RanksBefore pairs other pair → other.2 ≠ pair.1 ∧ other.1 ≠ pair.2

/-- Membership of a pair depends on the pairs that rank before it, so there is one selection. -/
theorem IsSelection.unique {plain : List Symbol} {pairs : List TerminalPair}
    {first second : Set TerminalPair} (first_selected : IsSelection plain pairs first)
    (second_selected : IsSelection plain pairs second) : first = second := by
  ext pair
  induction pair using (wellFounded_ranksBefore pairs).induction with
  | h pair ih =>
    have alike : (∀ other ∈ first, RanksBefore pairs other pair →
          other.2 ≠ pair.1 ∧ other.1 ≠ pair.2) ↔
        ∀ other ∈ second, RanksBefore pairs other pair →
          other.2 ≠ pair.1 ∧ other.1 ≠ pair.2 := by
      constructor
      · exact fun free other mem before => free other ((ih other before).2 mem) before
      · exact fun free other mem before => free other ((ih other before).1 mem) before
    rw [first_selected pair, second_selected pair, alike]

namespace Grammar

variable {grammar : Grammar}

/-- The pairs that an assignment of roles accepts, from the first rank to the last. -/
def acceptedPairs (grammar : Grammar) : List TerminalPair :=
  RoleAssignment.accepted (.ofList compare grammar.plain) grammar.pairs

/-- The roles that the pairs of a grammar give. -/
def assignment (grammar : Grammar) : RoleAssignment :=
  .ofPairs (.ofList compare grammar.plain) grammar.pairs

theorem isSelection_acceptedPairs (grammar : Grammar) :
    IsSelection grammar.plain grammar.pairs {pair | pair ∈ grammar.acceptedPairs} := by
  intro pair
  rw [Set.mem_ofPred_eq, acceptedPairs, RoleAssignment.mem_accepted_iff_ranked]
  simp

theorem isSelection_iff {selected : Set TerminalPair} :
    IsSelection grammar.plain grammar.pairs selected ↔
      selected = {pair | pair ∈ grammar.acceptedPairs} := by
  constructor
  · exact fun isSelection => isSelection.unique grammar.isSelection_acceptedPairs
  · rintro rfl
    exact grammar.isSelection_acceptedPairs

section AssignRoles

variable (grammar) (dropRejected : Bool)

theorem calls_assignRoles :
    (grammar.assignRoles dropRejected).calls = grammar.assignment.calls.toList :=
  rfl

theorem returns_assignRoles :
    (grammar.assignRoles dropRejected).returns = grammar.assignment.returns.toList :=
  rfl

theorem pairs_assignRoles_false : (grammar.assignRoles false).pairs = grammar.pairs := by
  simp [assignRoles]

theorem pairs_assignRoles_true :
    (grammar.assignRoles true).pairs = grammar.pairs.filter (· ∈ grammar.acceptedPairs) := by
  apply List.filter_congr
  intro pair mem
  rw [Bool.eq_iff_iff, Bool.not_eq_true', decide_eq_true_iff, acceptedPairs,
    RoleAssignment.mem_accepted_iff]
  exact (and_iff_right mem).symm

theorem assignment_assignRoles :
    (grammar.assignRoles dropRejected).assignment = grammar.assignment := by
  cases dropRejected with
  | false => rfl
  | true =>
      apply RoleAssignment.ofPairs_filter
      intro pair mem
      rw [Bool.not_eq_true']
      exact (RoleAssignment.mem_accepted_iff.1 mem).2

end AssignRoles

/--
An assignment of roles accepts the pairs of the only selection by rank, in the order of their rank.
Calls are their first sides and returns their second ones. When rejected pairs are dropped, all
copies of the accepted ones stay in the table, at their places.
-/
theorem assignRoles_selects (grammar : Grammar) (dropRejected : Bool) :
    let final := grammar.assignRoles dropRejected
    let accepted := grammar.acceptedPairs
    (∀ selected : Set TerminalPair, IsSelection grammar.plain grammar.pairs selected ↔
      selected = {pair | pair ∈ accepted}) ∧
    accepted.Pairwise (RanksBefore grammar.pairs) ∧
    final.calls = InsertionOrder.distinct (accepted.map Prod.fst) ∧
    final.returns = InsertionOrder.distinct (accepted.map Prod.snd) ∧
    final.pairs =
      if dropRejected then grammar.pairs.filter (· ∈ accepted) else grammar.pairs := by
  intro final accepted
  refine ⟨fun _ => isSelection_iff, ?_, RoleAssignment.calls_ofPairs _ _,
    RoleAssignment.returns_ofPairs _ _, ?_⟩
  · exact (pairwise_rankByFrequency grammar.pairs).sublist (RoleAssignment.committed_sublist ..)
  · cases dropRejected with
    | false => exact grammar.pairs_assignRoles_false
    | true => exact grammar.pairs_assignRoles_true

/-- A second assignment of roles gives the same roles and drops what is left to drop. -/
theorem assignRoles_assignRoles (grammar : Grammar) (first second : Bool) :
    (grammar.assignRoles first).assignRoles second = grammar.assignRoles (first || second) := by
  have step (earlier : Grammar) : earlier.assignRoles second =
      { earlier with
        calls := earlier.assignment.calls.toList
        returns := earlier.assignment.returns.toList
        pairs := (earlier.assignRoles second).pairs } :=
    rfl
  cases first with
  | false => rfl
  | true =>
      have pairs_eq : ((grammar.assignRoles true).assignRoles second).pairs =
          (grammar.assignRoles true).pairs := by
        cases second with
        | false => exact pairs_assignRoles_false _
        | true =>
            have same : RoleAssignment.ofPairs (.ofList compare (grammar.assignRoles true).plain)
                (grammar.assignRoles true).pairs = grammar.assignment :=
              grammar.assignment_assignRoles true
            apply List.filter_eq_self.2
            intro pair mem
            rw [same]
            exact (List.mem_filter.1 mem).2
      rw [step, pairs_eq, assignment_assignRoles]
      rfl

/--
Assigning roles again changes no role, whether rejected pairs are dropped or not, and changes the
pair table only if the first assignment left the rejected pairs in it.
-/
theorem assignRoles_idempotent (grammar : Grammar) (first second : Bool) :
    let once := grammar.assignRoles first
    let twice := once.assignRoles second
    (twice.calls = once.calls ∧ twice.returns = once.returns) ∧
      (twice.calls = (grammar.assignRoles second).calls ∧
        twice.returns = (grammar.assignRoles second).returns) ∧
      twice.pairs = if first then once.pairs else (grammar.assignRoles second).pairs := by
  intro once twice
  have twice_eq : twice = grammar.assignRoles (first || second) :=
    grammar.assignRoles_assignRoles first second
  rw [twice_eq]
  refine ⟨⟨rfl, rfl⟩, ⟨rfl, rfl⟩, ?_⟩
  cases first with
  | false => rfl
  | true => rfl

end Grammar

end VisiblyPushdown
