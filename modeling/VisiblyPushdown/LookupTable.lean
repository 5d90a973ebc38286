import Std.Data.TreeMap

/-!
# Look-up tables

Search trees for questions that are asked often about one list. `getElem?_firstValues` says that the
table of first values answers as a search through the list of entries, `getElem?_ofFunction` that
the table of a function answers as the function, and `getD_multiplicities` that the table of
multiplicities answers as a count.
-/

namespace VisiblyPushdown.LookupTable

universe u v

variable {α : Type u} {β : Type v}

/-- The first value that a list of entries has for each key. -/
def firstValues (cmp : α → α → Ordering) (entries : List (α × β)) : Std.TreeMap α β cmp :=
  entries.foldl (fun table entry => table.insertIfNew entry.1 entry.2) ∅

/-- The values of a function at the given keys. -/
def ofFunction (cmp : α → α → Ordering) (keys : List α) (value : α → β) : Std.TreeMap α β cmp :=
  firstValues cmp (keys.map fun key => (key, value key))

/-- How often each item occurs in a list; an item that does not occur is not in the table. -/
def multiplicities (cmp : α → α → Ordering) (items : List α) : Std.TreeMap α Nat cmp :=
  items.foldl (fun table item => table.insert item (table.getD item 0 + 1)) ∅

variable [BEq α] [LawfulBEq α] {cmp : α → α → Ordering} [Std.TransCmp cmp] [Std.LawfulEqCmp cmp]

theorem getElem?_foldl_insertIfNew (table : Std.TreeMap α β cmp) (entries : List (α × β))
    (key : α) :
    (entries.foldl (fun table entry => table.insertIfNew entry.1 entry.2) table)[key]? =
      table[key]?.or (entries.lookup key) := by
  induction entries generalizing table with
  | nil => simp
  | cons entry entries ih =>
    rcases entry with ⟨known, value⟩
    rw [List.foldl_cons, ih, Std.TreeMap.getElem?_insertIfNew, List.lookup_cons]
    by_cases same : known = key
    · subst same
      by_cases present : known ∈ table <;> simp [present]
    · simp [same, Std.LawfulEqCmp.compare_eq_iff_eq, beq_false_of_ne (Ne.symm same)]

theorem getElem?_firstValues (entries : List (α × β)) (key : α) :
    (firstValues cmp entries)[key]? = entries.lookup key := by
  simp [firstValues, getElem?_foldl_insertIfNew]

theorem getElem?_ofFunction (keys : List α) (value : α → β) (key : α) :
    (ofFunction cmp keys value)[key]? = if key ∈ keys then some (value key) else none := by
  rw [ofFunction, getElem?_firstValues]
  induction keys with
  | nil => rfl
  | cons other keys ih =>
    rw [List.map_cons, List.lookup_cons]
    by_cases same : key = other
    · simp [same]
    · simp [same, beq_false_of_ne same, ih]

theorem getD_foldl_insert (table : Std.TreeMap α Nat cmp) (items : List α) (item : α) :
    (items.foldl (fun table item => table.insert item (table.getD item 0 + 1)) table).getD item 0 =
      table.getD item 0 + items.count item := by
  induction items generalizing table with
  | nil => simp
  | cons other items ih =>
    rw [List.foldl_cons, ih, Std.TreeMap.getD_insert, List.count_cons]
    by_cases same : other = item
    · subst same
      simp [Nat.add_assoc, Nat.add_comm]
    · simp [same, Std.LawfulEqCmp.compare_eq_iff_eq]

theorem getD_multiplicities (items : List α) (item : α) :
    (multiplicities cmp items).getD item 0 = items.count item := by
  simp [multiplicities, getD_foldl_insert]

end VisiblyPushdown.LookupTable
