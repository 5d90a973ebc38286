import Mathlib.Data.List.Induction
import Mathlib.Data.List.Sort
import VisiblyPushdown.Proofs.Tagging

/-!
# The ranking of pairs

Pairs are committed in the order of their rank: the more frequent one first and, among pairs of the
same frequency, the one that stands first in the multiset. `RanksBefore` is this order.
`pairwise_rankByFrequency` says that the ranked list is in order, so it is determined by the pairs
that are in it.

Dropping all copies of some pairs changes neither the frequency of the others nor which of two comes
first. `rankByFrequency_filter` says that their ranking stays as it is.
-/

namespace VisiblyPushdown

namespace InsertionOrder

section Order

variable {α : Type} [DecidableEq α] [BEq α] [LawfulBEq α]

/-- Distinct members keep the order of their first occurrences. -/
theorem pairwise_distinct (members : List α) :
    (distinct members).Pairwise fun left right => members.idxOf left < members.idxOf right := by
  induction members using List.reverseRecOn with
  | nil => exact .nil
  | append_singleton members added ih =>
      have kept : (distinct members).Pairwise fun left right =>
          (members ++ [added]).idxOf left < (members ++ [added]).idxOf right := by
        apply ih.imp_of_mem
        intro left right left_mem right_mem before
        rw [mem_distinct] at left_mem right_mem
        rwa [List.idxOf_append_of_mem left_mem, List.idxOf_append_of_mem right_mem]
      rw [distinct_append_singleton, insert]
      split
      · exact kept
      · next fresh =>
        rw [mem_distinct] at fresh
        rw [List.pairwise_append]
        refine ⟨kept, List.pairwise_singleton .., ?_⟩
        intro left left_mem right right_mem
        rw [mem_distinct] at left_mem
        rw [List.mem_singleton.1 right_mem, List.idxOf_append_of_mem left_mem,
          List.idxOf_append_of_notMem fresh]
        have bound := List.idxOf_lt_length_of_mem left_mem
        omega

omit [DecidableEq α] in
/-- Dropping members does not change which one of two others comes first. -/
theorem idxOf_filter_lt {members : List α} {keep : α → Bool} {left right : α}
    (left_kept : keep left) (right_kept : keep right)
    (before : members.idxOf left < members.idxOf right) :
    (members.filter keep).idxOf left < (members.filter keep).idxOf right := by
  induction members with
  | nil => exact before
  | cons member members ih =>
      by_cases first : member = left
      · subst first
        have different : member ≠ right := by
          rintro rfl
          exact Nat.lt_irrefl _ before
        rw [List.filter_cons_of_pos left_kept, List.idxOf_cons_self, List.idxOf_cons_ne _ different]
        exact Nat.succ_pos _
      · have second : member ≠ right := by
          rintro rfl
          rw [List.idxOf_cons_self] at before
          exact Nat.not_lt_zero _ before
        rw [List.idxOf_cons_ne _ first, List.idxOf_cons_ne _ second] at before
        have later := ih (Nat.lt_of_succ_lt_succ before)
        by_cases kept : keep member
        · rw [List.filter_cons_of_pos kept, List.idxOf_cons_ne _ first,
            List.idxOf_cons_ne _ second]
          exact Nat.succ_lt_succ later
        · rwa [List.filter_cons_of_neg kept]

end Order

end InsertionOrder

/--
Whether a pair comes before another one: it is more frequent in the multiset or, with the same
frequency, its first occurrence is the earlier one.
-/
def RanksBefore (pairs : List TerminalPair) (pair other : TerminalPair) : Prop :=
  pairs.count other < pairs.count pair ∨
    pairs.count other = pairs.count pair ∧ pairs.idxOf pair < pairs.idxOf other

variable {pairs : List TerminalPair} {pair other : TerminalPair}

theorem RanksBefore.asymm (before : RanksBefore pairs pair other) :
    ¬RanksBefore pairs other pair := by
  unfold RanksBefore at *
  omega

theorem RanksBefore.filter {keep : TerminalPair → Bool} (pair_kept : keep pair)
    (other_kept : keep other) (before : RanksBefore pairs pair other) :
    RanksBefore (pairs.filter keep) pair other := by
  unfold RanksBefore at before ⊢
  rw [List.count_filter pair_kept, List.count_filter other_kept]
  rcases before with more | ⟨same, first⟩
  · exact .inl more
  · exact .inr ⟨same, InsertionOrder.idxOf_filter_lt pair_kept other_kept first⟩

/-- Each pair that comes before another one lowers a measure, so there is no endless descent. -/
theorem wellFounded_ranksBefore (pairs : List TerminalPair) : WellFounded (RanksBefore pairs) := by
  have decreasing : Subrelation (RanksBefore pairs)
      (InvImage (Prod.Lex (· < ·) (· < ·)) fun pair : TerminalPair =>
        (pairs.length - pairs.count pair, pairs.idxOf pair)) := by
    intro pair other before
    have bound := List.count_le_length (a := pair) (l := pairs)
    rcases before with more | ⟨same, first⟩
    · apply Prod.Lex.left
      omega
    · simp only [InvImage, same]
      exact .right _ first
  exact decreasing.wf (InvImage.wf _ (Prod.lex Nat.lt_wfRel Nat.lt_wfRel).wf)

/-- Distinct numbers that are sorted downwards decrease strictly. -/
theorem pairwise_sort_distinct (numbers : List Nat) :
    (sort (fun left right => right ≤ left) (InsertionOrder.distinct numbers)).Pairwise
      (· > ·) := by
  have sorted : (sort (fun left right : Nat => right ≤ left)
      (InsertionOrder.distinct numbers)).Pairwise fun left right => decide (right ≤ left) := by
    apply pairwise_sort
    · simp [Nat.le_total]
    · intro first second third larger largest
      simp only [decide_eq_true_eq] at larger largest ⊢
      exact largest.trans larger
  have nodup := (sort_perm (fun left right : Nat => decide (right ≤ left))
    (InsertionOrder.distinct numbers)).nodup_iff.2 (InsertionOrder.nodup_distinct numbers)
  apply (sorted.and nodup).imp
  rintro left right ⟨most, different⟩
  rw [decide_eq_true_eq] at most
  omega

theorem pairwise_rankByFrequency (pairs : List TerminalPair) :
    (rankByFrequency pairs).Pairwise (RanksBefore pairs) := by
  rw [rankByFrequency_eq, List.pairwise_flatMap]
  constructor
  · intro frequency _
    apply List.Pairwise.imp_of_mem _ ((InsertionOrder.pairwise_distinct pairs).filter _)
    intro left right left_mem right_mem before
    simp only [List.mem_filter, decide_eq_true_eq] at left_mem right_mem
    exact .inr ⟨right_mem.2.trans left_mem.2.symm, before⟩
  · apply (pairwise_sort_distinct ((InsertionOrder.distinct pairs).map (pairs.count ·))).imp
    intro larger smaller less left left_mem right right_mem
    simp only [List.mem_filter, decide_eq_true_eq] at left_mem right_mem
    left
    rwa [left_mem.2, right_mem.2]

theorem nodup_of_pairwise_ranksBefore {ranked : List TerminalPair}
    (sorted : ranked.Pairwise (RanksBefore pairs)) : ranked.Nodup := by
  apply sorted.imp
  rintro left right before rfl
  exact before.asymm before

/-- The ranking is the only list of the pairs in the order of their rank. -/
theorem eq_rankByFrequency {ranked : List TerminalPair}
    (members : ∀ pair, pair ∈ ranked ↔ pair ∈ pairs)
    (sorted : ranked.Pairwise (RanksBefore pairs)) : ranked = rankByFrequency pairs := by
  have ranking := pairwise_rankByFrequency pairs
  have perm : ranked.Perm (rankByFrequency pairs) := by
    rw [List.perm_ext_iff_of_nodup (nodup_of_pairwise_ranksBefore sorted)
      (nodup_of_pairwise_ranksBefore ranking)]
    intro pair
    rw [members, mem_rankByFrequency]
  apply perm.eq_of_pairwise _ sorted ranking
  intro left right _ _ before after
  exact absurd after before.asymm

/-- Dropping all copies of some pairs does not change the ranking of the others. -/
theorem rankByFrequency_filter (pairs : List TerminalPair) (keep : TerminalPair → Bool) :
    rankByFrequency (pairs.filter keep) = (rankByFrequency pairs).filter keep := by
  symm
  apply eq_rankByFrequency
  · intro pair
    simp only [List.mem_filter, mem_rankByFrequency]
  · apply List.Pairwise.imp_of_mem _ ((pairwise_rankByFrequency pairs).filter keep)
    intro pair other pair_mem other_mem before
    exact before.filter (List.mem_filter.1 pair_mem).2 (List.mem_filter.1 other_mem).2

end VisiblyPushdown
