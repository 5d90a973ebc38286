import Std.Data.TreeSet
import VisiblyPushdown.InsertionOrder

/-!
# Ordered sets

Finite sets that list their members in the order in which they were first added and find a member
with a search tree. `toList_insert` and `toList_ofList` say that the list is the one of the plain
operations `InsertionOrder.insert` and `InsertionOrder.distinct`, and `mem_toList` that a look-up
finds exactly the listed members.
-/

namespace VisiblyPushdown

universe u

/-- The members of a set, the last one first, and a search tree of the same members. -/
structure OrderedSet {α : Type u} (cmp : α → α → Ordering) where
  newestFirst : List α := []
  tree : Std.TreeSet α cmp := ∅
  mem_tree : ∀ member, tree.contains member ↔ member ∈ newestFirst := by simp

namespace OrderedSet

variable {α : Type u} {cmp : α → α → Ordering}

/-- Whether the set has a member. -/
def contains (set : OrderedSet cmp) (member : α) : Bool :=
  set.tree.contains member

/-- The members in the order in which they were first added. -/
def toList (set : OrderedSet cmp) : List α :=
  set.newestFirst.reverse

theorem contains_iff_mem_toList (set : OrderedSet cmp) (member : α) :
    set.contains member ↔ member ∈ set.toList := by
  simp [contains, toList, set.mem_tree]

theorem contains_eq_decide [DecidableEq α] (set : OrderedSet cmp) (member : α) :
    set.contains member = decide (member ∈ set.toList) := by
  rw [Bool.eq_iff_iff, contains_iff_mem_toList, decide_eq_true_iff]

/-- The set without members. -/
def empty : OrderedSet cmp :=
  {}

@[simp]
theorem toList_empty : (empty : OrderedSet cmp).toList = [] :=
  rfl

@[simp]
theorem contains_empty (member : α) : (empty : OrderedSet cmp).contains member = false := by
  simp [contains, empty]

variable [Std.TransCmp cmp] [Std.LawfulEqCmp cmp]

/-- Adds a member unless it is there already. -/
def insert (set : OrderedSet cmp) (member : α) : OrderedSet cmp :=
  if set.contains member then set
  else
    { newestFirst := member :: set.newestFirst
      tree := set.tree.insert member
      mem_tree := by
        intro other
        rw [Std.TreeSet.contains_insert, Bool.or_eq_true, set.mem_tree, List.mem_cons, beq_iff_eq,
          Std.LawfulEqCmp.compare_eq_iff_eq, eq_comm] }

/-- The set of the members of a list. -/
def ofList (cmp : α → α → Ordering) [Std.TransCmp cmp] [Std.LawfulEqCmp cmp]
    (members : List α) : OrderedSet cmp :=
  members.foldl insert empty

variable [DecidableEq α]

theorem toList_insert (set : OrderedSet cmp) (added : α) :
    (set.insert added).toList = InsertionOrder.insert set.toList added := by
  unfold insert InsertionOrder.insert
  simp only [contains_iff_mem_toList]
  split
  · rfl
  · simp [toList]

theorem toList_foldl_insert (set : OrderedSet cmp) (additions : List α) :
    (additions.foldl insert set).toList = InsertionOrder.insertAll set.toList additions := by
  induction additions generalizing set with
  | nil => rfl
  | cons added additions ih =>
    rw [List.foldl_cons, ih, toList_insert]
    rfl

@[simp]
theorem toList_ofList (members : List α) :
    (ofList cmp members).toList = InsertionOrder.distinct members :=
  toList_foldl_insert empty members

@[simp]
theorem contains_insert (set : OrderedSet cmp) (added member : α) :
    (set.insert added).contains member ↔ set.contains member ∨ member = added := by
  rw [contains_iff_mem_toList, toList_insert, InsertionOrder.mem_insert, contains_iff_mem_toList]

theorem contains_foldl_insert (set : OrderedSet cmp) (additions : List α) (member : α) :
    (additions.foldl insert set).contains member ↔ set.contains member ∨ member ∈ additions := by
  rw [contains_iff_mem_toList, toList_foldl_insert, InsertionOrder.mem_insertAll,
    contains_iff_mem_toList]

@[simp]
theorem contains_ofList (members : List α) (member : α) :
    (ofList cmp members).contains member ↔ member ∈ members := by
  rw [contains_iff_mem_toList, toList_ofList, InsertionOrder.mem_distinct]

end OrderedSet

end VisiblyPushdown
