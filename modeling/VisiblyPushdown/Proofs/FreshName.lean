import VisiblyPushdown.Grammar.FreshName

/-!
# Free names

Trying as many primes as there are taken names finds a free name. Primes do not add to the *bulk* of
a name, the number of its other characters, so that the bulk of a name tells how much went into it
before primes were added.
-/

namespace VisiblyPushdown

/-- The number of characters of a name that are not primes. -/
def bulk (name : String) : Nat :=
  name.toList.countP (· ≠ '\'')

@[simp]
theorem bulk_append (left right : String) : bulk (left ++ right) = bulk left + bulk right := by
  simp [bulk]

/-- Whether trying a name with more and more primes ends after so many tries, with a free one. -/
inductive Tries (taken : String → Bool) : (name : String) → (tries : Nat) → (found : String) → Prop
  | free {name : String} : taken name = false → Tries taken name 1 name
  | prime {name found : String} {tries : Nat} : taken name → Tries taken (name ++ "'") tries found →
      Tries taken name (tries + 1) found

theorem Tries.taken_eq_false {taken : String → Bool} {name found : String} {tries : Nat}
    (ends : Tries taken name tries found) : taken found = false := by
  induction ends with
  | free free => exact free
  | prime _ _ ih => exact ih

/--
With enough primes to spare, a name is found with one try for each taken name and one more. Only
names at least as long as the first one tried count, for these are the only ones that a prime can
lead to.
-/
theorem tries_firstFree (taken : String → Bool) (primes : Nat) (name : String) (names : List String)
    (covered : ∀ other, taken other → name.length ≤ other.length → other ∈ names)
    (enough : names.length ≤ primes) :
    ∃ tries ≤ names.length + 1, Tries taken name tries (firstFree taken primes name) := by
  induction primes generalizing name names with
  | zero =>
      obtain rfl : names = [] := List.eq_nil_of_length_eq_zero (by omega)
      refine ⟨1, Nat.le_refl _, .free ?_⟩
      rw [← Bool.not_eq_true]
      intro name_taken
      exact List.not_mem_nil (covered name name_taken (Nat.le_refl _))
  | succ primes ih =>
      rw [firstFree]
      split
      · next name_taken =>
          -- The name just tried no longer counts, for all names to come are longer.
          have name_mem := covered name name_taken (Nat.le_refl _)
          have fewer := List.length_erase_of_mem name_mem
          have positive := List.length_pos_of_mem name_mem
          have covered_later (other : String) (other_taken : taken other)
              (longer : (name ++ "'").length ≤ other.length) : other ∈ names.erase name := by
            have prime_length : "'".length = 1 := rfl
            rw [String.length_append, prime_length] at longer
            refine (List.mem_erase_of_ne ?_).2 (covered other other_taken (by omega))
            rintro rfl
            omega
          rcases ih (name ++ "'") (names.erase name) covered_later (by omega) with
            ⟨tries, le, ends⟩
          exact ⟨tries + 1, by omega, .prime name_taken ends⟩
      · next free => exact ⟨1, Nat.le_add_left _ _, .free (Bool.eq_false_iff.2 free)⟩

/-- A name that is found with enough primes to spare is free. -/
theorem taken_firstFree (taken : String → Bool) (primes : Nat) (name : String) (names : List String)
    (covered : ∀ other, taken other → name.length ≤ other.length → other ∈ names)
    (enough : names.length ≤ primes) : taken (firstFree taken primes name) = false := by
  rcases tries_firstFree taken primes name names covered enough with ⟨_, _, ends⟩
  exact ends.taken_eq_false

theorem bulk_firstFree (taken : String → Bool) (primes : Nat) (name : String) :
    bulk (firstFree taken primes name) = bulk name := by
  induction primes generalizing name with
  | zero => rfl
  | succ primes ih =>
      rw [firstFree]
      split
      · rw [ih, bulk_append]
        rfl
      · rfl

theorem firstFree_of_free {taken : String → Bool} {name : String} (free : taken name = false)
    (primes : Nat) : firstFree taken primes name = name := by
  cases primes with
  | zero => rfl
  | succ primes => rw [firstFree, free, if_neg Bool.false_ne_true]

/-- The names that are tried, the one that is found last. -/
def triedNames (taken : String → Bool) : (primes : Nat) → (name : String) → List String
  | 0, name => [name]
  | primes + 1, name =>
    name :: if taken name then triedNames taken primes (name ++ "'") else []

theorem firstFree_mem_triedNames (taken : String → Bool) (primes : Nat) (name : String) :
    firstFree taken primes name ∈ triedNames taken primes name := by
  induction primes generalizing name with
  | zero => exact List.mem_singleton_self name
  | succ primes ih =>
      rw [firstFree, triedNames]
      split
      · exact List.mem_cons_of_mem name (ih _)
      · exact List.mem_cons_self

/-- Every name that is tried begins with the first one. -/
theorem prefix_of_mem_triedNames {taken : String → Bool} {primes : Nat} {name tried : String}
    (mem : tried ∈ triedNames taken primes name) : name.toList <+: tried.toList := by
  induction primes generalizing name with
  | zero =>
      cases List.mem_singleton.1 mem
      exact List.prefix_rfl
  | succ primes ih =>
      rw [triedNames] at mem
      rcases List.mem_cons.1 mem with rfl | mem
      · exact List.prefix_rfl
      · split at mem
        · have longer := ih mem
          rw [String.toList_append] at longer
          exact (List.prefix_append _ _).trans longer
        · cases mem

/--
The name that is found depends on the names that are tried only, and not on the number of primes to
spare.
-/
theorem firstFree_congr {taken other_taken : String → Bool} {primes more : Nat} {name : String}
    (agree : ∀ tried ∈ triedNames taken primes name, other_taken tried = taken tried)
    (free : taken (firstFree taken primes name) = false) (enough : primes ≤ more) :
    firstFree other_taken more name = firstFree taken primes name := by
  induction primes generalizing name more with
  | zero =>
      rw [firstFree] at free ⊢
      rw [← agree name (List.mem_singleton_self name)] at free
      exact firstFree_of_free free more
  | succ primes ih =>
      rcases Nat.exists_eq_add_of_le' enough with ⟨spare, rfl⟩
      rw [triedNames, List.forall_mem_cons] at agree
      rw [← Nat.add_assoc, firstFree, firstFree, agree.1]
      rw [firstFree] at free
      split
      · next name_taken =>
          rw [if_pos name_taken] at free agree
          exact ih agree.2 free (Nat.le_add_left _ _)
      · rfl

end VisiblyPushdown
