/-!
# Sorting

Lists put in order by a test that says whether one item may stand in front of another. Items that
may stand on either side of each other keep their order. `sort_perm` says that nothing is lost or
added, and `pairwise_sort` that the result is in order when the test is total and transitive.
-/

namespace VisiblyPushdown

universe u

variable {α : Type u}

/-- Puts an item in front of the first one that it may precede. -/
def insertSorted (precedes : α → α → Bool) (item : α) : List α → List α
  | [] => [item]
  | other :: rest =>
    if precedes item other then item :: other :: rest
    else other :: insertSorted precedes item rest

/-- The items of a list in order. -/
def sort (precedes : α → α → Bool) (items : List α) : List α :=
  items.foldr (insertSorted precedes) []

theorem insertSorted_perm (precedes : α → α → Bool) (item : α) (items : List α) :
    (insertSorted precedes item items).Perm (item :: items) := by
  induction items with
  | nil => exact .refl _
  | cons other rest ih =>
    unfold insertSorted
    split
    · exact .refl _
    · exact (ih.cons other).trans (.swap item other rest)

theorem sort_perm (precedes : α → α → Bool) (items : List α) :
    (sort precedes items).Perm items := by
  induction items with
  | nil => exact .refl _
  | cons item items ih => exact (insertSorted_perm precedes item _).trans (ih.cons item)

@[simp]
theorem mem_sort {precedes : α → α → Bool} {items : List α} {item : α} :
    item ∈ sort precedes items ↔ item ∈ items :=
  (sort_perm precedes items).mem_iff

theorem pairwise_insertSorted {precedes : α → α → Bool}
    (total : ∀ left right, precedes left right ∨ precedes right left)
    (transitive : ∀ {first second third},
      precedes first second → precedes second third → precedes first third)
    (item : α) {items : List α} (sorted : items.Pairwise (precedes · ·)) :
    (insertSorted precedes item items).Pairwise (precedes · ·) := by
  induction items with
  | nil => simp [insertSorted]
  | cons other rest ih =>
    rw [List.pairwise_cons] at sorted
    unfold insertSorted
    split
    · next before =>
      rw [List.pairwise_cons, List.pairwise_cons]
      refine ⟨?_, sorted⟩
      intro later laterMem
      rcases List.mem_cons.1 laterMem with rfl | laterMem
      · exact before
      · exact transitive before (sorted.1 later laterMem)
    · next notBefore =>
      rw [List.pairwise_cons]
      refine ⟨?_, ih sorted.2⟩
      intro later laterMem
      rcases List.mem_cons.1 ((insertSorted_perm precedes item rest).mem_iff.1 laterMem) with
        rfl | laterMem
      · exact (total other later).resolve_right notBefore
      · exact sorted.1 later laterMem

theorem pairwise_sort {precedes : α → α → Bool}
    (total : ∀ left right, precedes left right ∨ precedes right left)
    (transitive : ∀ {first second third},
      precedes first second → precedes second third → precedes first third)
    (items : List α) : (sort precedes items).Pairwise (precedes · ·) := by
  induction items with
  | nil => exact .nil
  | cons item items ih => exact pairwise_insertSorted total transitive item ih

end VisiblyPushdown
