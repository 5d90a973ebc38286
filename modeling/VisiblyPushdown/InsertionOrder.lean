/-!
# Insertion order

Finite sets and finite maps kept as lists, in the order in which their members were first added.
A member that is added again keeps its place, and a key that is written again keeps its place and
takes the new value. `mem_insertAll` and `nodup_insertAll` say that adding members builds exactly
their union without repetition; `lookup_put_self` and `lookup_put_of_ne` say that writing a key
changes that key alone.
-/

namespace VisiblyPushdown.InsertionOrder

universe u v

section Sets

variable {α : Type u} [DecidableEq α]

/-- Adds a member behind the others unless it is there already. -/
def insert (members : List α) (member : α) : List α :=
  if member ∈ members then members else members ++ [member]

/-- Adds several members, one after the other. -/
def insertAll (members additions : List α) : List α :=
  additions.foldl insert members

/-- The distinct members of a list, each at the place of its first occurrence. -/
def distinct (members : List α) : List α :=
  insertAll [] members

@[simp]
theorem mem_insert {members : List α} {added member : α} :
    member ∈ insert members added ↔ member ∈ members ∨ member = added := by
  unfold insert
  split
  · next present =>
    refine ⟨Or.inl, ?_⟩
    rintro (old | rfl)
    · exact old
    · exact present
  · simp

@[simp]
theorem mem_insertAll {members additions : List α} {member : α} :
    member ∈ insertAll members additions ↔ member ∈ members ∨ member ∈ additions := by
  induction additions generalizing members with
  | nil => simp [insertAll]
  | cons added additions ih =>
    have step : insertAll members (added :: additions) =
        insertAll (insert members added) additions := rfl
    rw [step, ih, mem_insert, List.mem_cons, or_assoc]

@[simp]
theorem mem_distinct {members : List α} {member : α} :
    member ∈ distinct members ↔ member ∈ members := by
  simp [distinct]

theorem nodup_insert {members : List α} (nodup : members.Nodup) (added : α) :
    (insert members added).Nodup := by
  unfold insert
  split
  · exact nodup
  · next absent =>
    rw [List.nodup_append]
    refine ⟨nodup, by simp, ?_⟩
    intro old oldMem new newMem same
    simp only [List.mem_singleton] at newMem
    exact absent (newMem ▸ same ▸ oldMem)

theorem nodup_insertAll {members : List α} (nodup : members.Nodup) (additions : List α) :
    (insertAll members additions).Nodup := by
  induction additions generalizing members with
  | nil => exact nodup
  | cons added additions ih => exact ih (nodup_insert nodup added)

theorem nodup_distinct (members : List α) : (distinct members).Nodup :=
  nodup_insertAll List.nodup_nil members

theorem insertAll_of_nodup {members additions : List α}
    (nodup : (members ++ additions).Nodup) :
    insertAll members additions = members ++ additions := by
  induction additions generalizing members with
  | nil => simp [insertAll]
  | cons added additions ih =>
      have absent : added ∉ members := fun known =>
        (List.nodup_append.1 nodup).2.2 _ known _ List.mem_cons_self rfl
      have step : insert members added = members ++ [added] := if_neg absent
      rw [insertAll, List.foldl_cons, step, ← insertAll, ih (by simpa using nodup)]
      simp

theorem distinct_append_singleton (members : List α) (added : α) :
    distinct (members ++ [added]) = insert (distinct members) added := by
  simp only [distinct, insertAll, List.foldl_append, List.foldl_cons, List.foldl_nil]

theorem distinct_of_nodup {members : List α} (nodup : members.Nodup) : distinct members = members :=
  insertAll_of_nodup nodup

end Sets

section Maps

variable {κ : Type u} {β : Type v} [DecidableEq κ]

/-- Writes a value under a key: in place when the key is known, behind the others when it is new. -/
def put : List (κ × β) → κ → β → List (κ × β)
  | [], key, value => [(key, value)]
  | (known, old) :: entries, key, value =>
    if known = key then (known, value) :: entries
    else (known, old) :: put entries key value

@[simp]
theorem lookup_put_self (entries : List (κ × β)) (key : κ) (value : β) :
    (put entries key value).lookup key = some value := by
  induction entries with
  | nil => simp [put]
  | cons entry entries ih =>
    rcases entry with ⟨known, old⟩
    by_cases same : known = key
    · simp [put, same]
    · simp [put, same, List.lookup_cons, beq_false_of_ne (Ne.symm same), ih]

theorem lookup_put_of_ne (entries : List (κ × β)) {key other : κ} (value : β)
    (different : other ≠ key) :
    (put entries key value).lookup other = entries.lookup other := by
  induction entries with
  | nil => simp [put, List.lookup_cons, beq_false_of_ne different]
  | cons entry entries ih =>
    rcases entry with ⟨known, old⟩
    by_cases same : known = key
    · subst same
      simp [put, List.lookup_cons, beq_false_of_ne different]
    · simp only [put, same, if_false, List.lookup_cons, ih]

theorem put_of_absent {entries : List (κ × β)} {key : κ} (absent : key ∉ entries.map Prod.fst)
    (value : β) : put entries key value = entries ++ [(key, value)] := by
  induction entries with
  | nil => rfl
  | cons entry entries ih =>
      rw [List.map_cons, List.mem_cons, not_or] at absent
      rw [put, if_neg (Ne.symm absent.1), ih absent.2, List.cons_append]

theorem put_put_self (entries : List (κ × β)) (key : κ) (old value : β) :
    put (put entries key old) key value = put entries key value := by
  induction entries with
  | nil => simp [put]
  | cons entry entries ih =>
      by_cases same : entry.1 = key
      · simp [put, same]
      · simp [put, same, ih]

end Maps

section Lookup

variable {κ : Type u} {β : Type v} [BEq κ] [LawfulBEq κ]

theorem mem_of_lookup_eq_some {entries : List (κ × β)} {key : κ} {value : β}
    (found : entries.lookup key = some value) : (key, value) ∈ entries := by
  rcases List.lookup_eq_some_iff.1 found with ⟨before, after, split, _⟩
  simp [split]

theorem lookup_eq_some_of_unique {entries : List (κ × β)} {key : κ} {value : β}
    (mem : (key, value) ∈ entries)
    (unique : ∀ other, (key, other) ∈ entries → other = value) :
    entries.lookup key = some value := by
  cases found : entries.lookup key with
  | none => simpa using List.lookup_eq_none_iff.1 found (key, value) mem
  | some other => rw [unique other (mem_of_lookup_eq_some found)]

end Lookup

end VisiblyPushdown.InsertionOrder
