import VisiblyPushdown.Palette

/-!
# Text with escape codes

Coloured text is plain text with codes put in between. Each code begins with an escape character and
has no other one, and none is the beginning of another. So as long as the plain text has no escape
characters, a code stands in coloured text only where it was put: codes can be deleted one after the
other, in any order, without new ones coming up, and a code in a concatenation lies in one part.
-/

namespace VisiblyPushdown

/--
Deletes a code, which is not empty, wherever it stands in a text, from left to right. The first
`skip` characters belong to a code that is being deleted.
-/
def deleteFrom (code : List Char) : (skip : Nat) → List Char → List Char
  | _, [] => []
  | skip + 1, _ :: rest => deleteFrom code skip rest
  | 0, char :: rest =>
    if code <+: char :: rest then deleteFrom code (code.length - 1) rest
    else char :: deleteFrom code 0 rest

/-- A text without a code that is deleted wherever it stands. -/
def withoutCode (text code : String) : String :=
  String.ofList (deleteFrom code.toList 0 text.toList)

/-- Whether all codes begin with their only escape character and none begins another. -/
structure AreCodes (codes : List String) : Prop where
  escape : ∀ code ∈ codes, code.toList.head? = some '\x1b' ∧ '\x1b' ∉ code.toList.tail
  apart : ∀ code ∈ codes, ∀ other ∈ codes, code.toList <+: other.toList → code = other

/-- Whether a text is a plain one, without escape characters, with codes put in between. -/
inductive Painted (codes : List String) : (text plain : List Char) → Prop
  | nil : Painted codes [] []
  | char {char : Char} {text plain : List Char} : char ≠ '\x1b' → Painted codes text plain →
      Painted codes (char :: text) (char :: plain)
  | code {code : String} {text plain : List Char} : code ∈ codes → Painted codes text plain →
      Painted codes (code.toList ++ text) plain

variable {codes more : List String} {code other : String} {text plain rest : List Char}

theorem AreCodes.exists_cons (are_codes : AreCodes codes) (mem : code ∈ codes) :
    ∃ tail, code.toList = '\x1b' :: tail ∧ '\x1b' ∉ tail := by
  rcases are_codes.escape code mem with ⟨head_eq, only⟩
  rcases List.head?_eq_some_iff.1 head_eq with ⟨tail, code_eq⟩
  rw [code_eq] at only
  exact ⟨tail, code_eq, only⟩

/-- Codes that a text begins with are the same. -/
theorem AreCodes.eq_of_starts (are_codes : AreCodes codes) (mem : code ∈ codes)
    (other_mem : other ∈ codes) (starts : code.toList <+: text)
    (starts_other : other.toList <+: text) : code = other := by
  rcases List.prefix_or_prefix_of_prefix starts starts_other with shorter | longer
  · exact are_codes.apart code mem other other_mem shorter
  · exact (are_codes.apart other other_mem code mem longer).symm

theorem AreCodes.mono (are_codes : AreCodes codes) (subset : more ⊆ codes) : AreCodes more where
  escape code mem := are_codes.escape code (subset mem)
  apart code mem other other_mem := are_codes.apart code (subset mem) other (subset other_mem)

namespace Painted

theorem mono (painted : Painted codes text plain) (subset : codes ⊆ more) :
    Painted more text plain := by
  induction painted with
  | nil => exact .nil
  | char unescaped _ ih => exact .char unescaped ih
  | code mem _ ih => exact .code (subset mem) ih

theorem append {text' plain' : List Char} (painted : Painted codes text plain)
    (behind : Painted codes text' plain') : Painted codes (text ++ text') (plain ++ plain') := by
  induction painted with
  | nil => exact behind
  | char unescaped _ ih => exact .char unescaped ih
  | code mem _ ih =>
      rw [List.append_assoc]
      exact .code mem ih

theorem of_unescaped (unescaped : '\x1b' ∉ text) : Painted codes text text := by
  induction text with
  | nil => exact .nil
  | cons char rest ih =>
      rw [List.mem_cons, not_or] at unescaped
      exact .char (Ne.symm unescaped.1) (ih unescaped.2)

theorem eq_of_no_codes (painted : Painted [] text plain) : text = plain := by
  induction painted with
  | nil => rfl
  | char _ _ ih => rw [ih]
  | code mem => cases mem

end Painted

section Deletion

theorem deleteFrom_eq (code : List Char) (skip : Nat) (text : List Char) :
    deleteFrom code skip text = deleteFrom code 0 (text.drop skip) := by
  induction text generalizing skip with
  | nil => simp [deleteFrom]
  | cons char rest ih =>
      cases skip with
      | zero => rfl
      | succ skip => exact ih skip

variable (are_codes : AreCodes codes) (mem : code ∈ codes)

include are_codes mem

theorem deleteFrom_unescaped {front : List Char} (unescaped : '\x1b' ∉ front) (rest : List Char) :
    deleteFrom code.toList 0 (front ++ rest) = front ++ deleteFrom code.toList 0 rest := by
  induction front with
  | nil => rfl
  | cons char front ih =>
      rw [List.mem_cons, not_or] at unescaped
      have elsewhere : ¬ code.toList <+: char :: (front ++ rest) := by
        rcases are_codes.exists_cons mem with ⟨tail, code_eq, _⟩
        rw [code_eq, List.cons_prefix_cons]
        exact fun ⟨same, _⟩ => unescaped.1 same
      rw [List.cons_append, deleteFrom, if_neg elsewhere, ih unescaped.2, List.cons_append]

theorem deleteFrom_self (rest : List Char) :
    deleteFrom code.toList 0 (code.toList ++ rest) = deleteFrom code.toList 0 rest := by
  rcases are_codes.exists_cons mem with ⟨tail, code_eq, _⟩
  have starts : code.toList <+: '\x1b' :: (tail ++ rest) := ⟨rest, by rw [code_eq]; rfl⟩
  rw [code_eq, List.cons_append, deleteFrom, ← code_eq, if_pos starts, deleteFrom_eq, code_eq]
  simp

theorem deleteFrom_other (other_mem : other ∈ codes) (different : code ≠ other) (rest : List Char) :
    deleteFrom code.toList 0 (other.toList ++ rest) =
      other.toList ++ deleteFrom code.toList 0 rest := by
  have elsewhere : ¬ code.toList <+: other.toList ++ rest := fun starts =>
    different (are_codes.eq_of_starts mem other_mem starts (List.prefix_append _ _))
  rcases are_codes.exists_cons other_mem with ⟨tail, other_eq, only⟩
  rw [other_eq, List.cons_append] at elsewhere ⊢
  -- Behind its first character the other code has no escape character for this one to begin with.
  rw [deleteFrom, if_neg elsewhere, deleteFrom_unescaped are_codes mem only, List.cons_append]

end Deletion

/-- Deleting a code leaves the other ones where they were put. -/
theorem Painted.deleteFrom (are_codes : AreCodes (code :: codes))
    (painted : Painted (code :: codes) text plain) :
    Painted codes (deleteFrom code.toList 0 text) plain := by
  have here : code ∈ code :: codes := List.mem_cons_self
  induction painted with
  | nil => exact .nil
  | @char char text plain unescaped _ ih =>
      have single : '\x1b' ∉ [char] := fun mem => unescaped (List.mem_singleton.1 mem).symm
      have kept := deleteFrom_unescaped are_codes here single text
      rw [List.singleton_append] at kept
      rw [kept]
      exact .char unescaped ih
  | @code other text plain mem _ ih =>
      by_cases same : code = other
      · rw [← same, deleteFrom_self are_codes here]
        exact ih
      · rw [deleteFrom_other are_codes here mem same]
        exact .code ((List.mem_cons.1 mem).resolve_left (Ne.symm same)) ih

/-- Deleting all codes, one after the other, gives the plain text. -/
theorem Painted.foldl_withoutCode {text plain : String} (are_codes : AreCodes codes)
    (painted : Painted codes text.toList plain.toList) : codes.foldl withoutCode text = plain := by
  induction codes generalizing text with
  | nil => exact String.toList_injective painted.eq_of_no_codes
  | cons code codes ih =>
      -- What remains is painted with the codes that are still to be deleted.
      apply ih (are_codes.mono (List.subset_cons_self _ _))
      rw [withoutCode, String.toList_ofList]
      exact painted.deleteFrom are_codes

section Places

variable (are_codes : AreCodes codes) (mem : code ∈ codes)

include are_codes mem

/-- No code begins in text without escape characters. -/
theorem prefix_unescaped_append_iff {front : List Char} (unescaped : '\x1b' ∉ front)
    (before rest : List Char) :
    before ++ code.toList <+: front ++ rest ↔
      ∃ inner, before = front ++ inner ∧ inner ++ code.toList <+: rest := by
  rcases are_codes.exists_cons mem with ⟨tail, code_eq, _⟩
  induction front generalizing before with
  | nil => simp
  | cons char front ih =>
      rw [List.mem_cons, not_or] at unescaped
      cases before with
      | nil => simp [code_eq, unescaped.1]
      | cons first before =>
          simp only [List.cons_append, List.cons_prefix_cons, ih unescaped.2, List.cons.injEq]
          constructor
          · rintro ⟨rfl, inner, rfl, starts⟩
            exact ⟨inner, ⟨rfl, rfl⟩, starts⟩
          · rintro ⟨inner, ⟨rfl, rfl⟩, starts⟩
            exact ⟨rfl, inner, rfl, starts⟩

/-- No code begins inside another one. -/
theorem prefix_code_append_iff (other_mem : other ∈ codes) (before rest : List Char) :
    before ++ code.toList <+: other.toList ++ rest ↔
      before = [] ∧ code = other ∨
        ∃ inner, before = other.toList ++ inner ∧ inner ++ code.toList <+: rest := by
  rcases are_codes.exists_cons other_mem with ⟨tail, other_eq, only⟩
  cases before with
  | nil =>
      simp only [List.nil_append, true_and, other_eq, List.cons_append, List.nil_eq, reduceCtorEq,
        false_and, exists_false, or_false]
      rw [← List.cons_append, ← other_eq]
      constructor
      · exact fun starts => are_codes.eq_of_starts mem other_mem starts (List.prefix_append _ _)
      · rintro rfl
        exact List.prefix_append _ _
  | cons first before =>
      simp only [other_eq, List.cons_append, List.cons_prefix_cons, reduceCtorEq, false_and,
        false_or, prefix_unescaped_append_iff are_codes mem only, List.cons.injEq]
      constructor
      · rintro ⟨rfl, inner, rfl, starts⟩
        exact ⟨inner, ⟨rfl, rfl⟩, starts⟩
      · rintro ⟨inner, ⟨rfl, rfl⟩, starts⟩
        exact ⟨rfl, inner, rfl, starts⟩

/-- There is no code in text without escape characters. -/
theorem not_prefix_of_unescaped (unescaped : '\x1b' ∉ text) (before : List Char) :
    ¬ before ++ code.toList <+: text := by
  rcases are_codes.exists_cons mem with ⟨tail, code_eq, _⟩
  simpa [code_eq] using prefix_unescaped_append_iff are_codes mem unescaped before []

/-- There are two codes in a coloured text: the one in front of it and the one that ends it. -/
theorem prefix_coloured_iff {opening closing : String} (opens : opening ∈ codes)
    (closes : closing ∈ codes) (different : code ≠ closing) (unescaped : '\x1b' ∉ text)
    (before : List Char) :
    before ++ code.toList <+: opening.toList ++ (text ++ closing.toList) ↔
      before = [] ∧ opening = code := by
  have ends (inner : List Char) : ¬ inner ++ code.toList <+: closing.toList := by
    have nothing := not_prefix_of_unescaped are_codes mem List.not_mem_nil
    simpa only [List.append_nil, different, nothing, and_false, exists_false, or_false,
      iff_false] using prefix_code_append_iff are_codes mem closes inner []
  rw [prefix_code_append_iff are_codes mem opens, eq_comm (a := code)]
  simp only [prefix_unescaped_append_iff are_codes mem unescaped, ends, and_false, exists_false,
    or_false]

/-- A code in a concatenation lies in one of the parts. -/
theorem Painted.prefix_append_iff (painted : Painted codes text plain) (before rest : List Char) :
    before ++ code.toList <+: text ++ rest ↔
      before ++ code.toList <+: text ∨
        ∃ inner, before = text ++ inner ∧ inner ++ code.toList <+: rest := by
  have code_ne : code.toList ≠ [] := by
    rcases are_codes.exists_cons mem with ⟨tail, code_eq, _⟩
    simp [code_eq]
  induction painted generalizing before with
  | nil => simp [code_ne]
  | @char char text plain unescaped _ ih =>
      have single : '\x1b' ∉ [char] := fun mem => unescaped (List.mem_singleton.1 mem).symm
      have passed := prefix_unescaped_append_iff are_codes mem single before
      simp only [List.singleton_append] at passed
      rw [List.cons_append, passed, passed]
      simp only [ih, and_or_left, exists_or]
      refine or_congr_right ⟨?_, ?_⟩
      · rintro ⟨_, rfl, inner, rfl, stands⟩
        exact ⟨inner, rfl, stands⟩
      · rintro ⟨inner, rfl, stands⟩
        exact ⟨_, rfl, inner, rfl, stands⟩
  | @code other text plain other_mem _ ih =>
      rw [List.append_assoc, prefix_code_append_iff are_codes mem other_mem,
        prefix_code_append_iff are_codes mem other_mem, or_assoc]
      simp only [ih, and_or_left, exists_or]
      refine or_congr_right (or_congr_right ⟨?_, ?_⟩)
      · rintro ⟨_, rfl, inner, rfl, stands⟩
        exact ⟨inner, (List.append_assoc _ _ _).symm, stands⟩
      · rintro ⟨inner, rfl, stands⟩
        exact ⟨_, List.append_assoc _ _ _, inner, rfl, stands⟩

end Places

end VisiblyPushdown
