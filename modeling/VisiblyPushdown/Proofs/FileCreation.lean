import Mathlib.Data.List.Induction
import Mathlib.Data.List.Nodup
import VisiblyPushdown.Files.Tree

/-!
# Creating files and directories

What is there stays as it is: every operation on a file tree only puts entries where nothing was.
In a sound tree everything stands in a directory, so a path without `..` leads to the place that its
names spell, and leads there exactly when there is something. `Adds` says what a sequence of
operations has put into a sound tree. A path that ends in a name can be made a directory exactly
when no file is in the way.
-/

namespace VisiblyPushdown

namespace InsertionOrder

theorem lookup_append_single {κ β : Type} [DecidableEq κ] (entries : List (κ × β)) (key other : κ)
    (value : β) : (entries ++ [(key, value)]).lookup other =
      (entries.lookup other).or (if other = key then some value else none) := by
  rw [List.lookup_append, List.lookup_cons]
  by_cases same : other = key
  · simp [same]
  · simp [same, beq_false_of_ne same]

end InsertionOrder

namespace FileTree

variable {tree earlier middle later : FileTree}

/-- Whether everything in a file tree is still there, unchanged, in another one. -/
def IsWithin (earlier later : FileTree) : Prop :=
  ∀ place entry, earlier.entryAt? place = some entry → later.entryAt? place = some entry

theorem IsWithin.refl (tree : FileTree) : tree.IsWithin tree :=
  fun _ _ found => found

theorem IsWithin.trans (first : earlier.IsWithin middle) (second : middle.IsWithin later) :
    earlier.IsWithin later :=
  fun place entry found => second place entry (first place entry found)

theorem hasDirectory_iff {place : Place} :
    tree.hasDirectory place ↔ tree.entryAt? place = some .directory := by
  unfold hasDirectory
  split
  · next found => simp [found]
  · next other => simpa using other

theorem IsWithin.hasDirectory (within : earlier.IsWithin later) {place : Place}
    (directory : earlier.hasDirectory place) : later.hasDirectory place :=
  hasDirectory_iff.2 (within place .directory (hasDirectory_iff.1 directory))

/-- The file tree with one more entry. -/
def withEntry (tree : FileTree) (place : Place) (entry : FileEntry) : FileTree where
  entries := tree.entries ++ [(place, entry)]

theorem entryAt?_withEntry {place : Place} (free : tree.entryAt? place = none)
    (entry : FileEntry) (other : Place) :
    (tree.withEntry place entry).entryAt? other =
      if other = place then some entry else tree.entryAt? other := by
  have lookup_eq := InsertionOrder.lookup_append_single tree.entries place other entry
  unfold entryAt? withEntry at *
  grind

theorem isWithin_withEntry {place : Place} (free : tree.entryAt? place = none)
    (entry : FileEntry) : tree.IsWithin (tree.withEntry place entry) := by
  intro other found_entry found
  rw [entryAt?_withEntry free, if_neg]
  · exact found
  · rintro rfl
    rw [free] at found
    cases found

/-- Something is created at one place, where nothing was, in a directory. -/
theorem create?_eq_some {segments : List String} {entry : FileEntry}
    (created : tree.create? segments entry = some later) :
    ∃ parent name, tree.walk? [] segments.dropLast = some parent ∧
      segments.getLast? = some name ∧ tree.hasDirectory parent ∧
      tree.entryAt? (step parent name) = none ∧
      later = tree.withEntry (step parent name) entry := by
  unfold create? at created
  simp only [Option.bind_eq_bind, Option.bind_eq_some_iff] at created
  rcases created with ⟨parent, walked, name, last, created⟩
  split at created
  · next allowed =>
      rw [Bool.and_eq_true, Option.isNone_iff_eq_none] at allowed
      cases created
      exact ⟨parent, name, walked, last, allowed.1, allowed.2, rfl⟩
  · cases created

theorem isWithin_create? {segments : List String} {entry : FileEntry}
    (created : tree.create? segments entry = some later) : tree.IsWithin later := by
  rcases create?_eq_some created with ⟨_, _, _, _, _, free, rfl⟩
  exact isWithin_withEntry free entry

theorem isWithin_ensureDirectory (state : FileTree × Bool) (segments : List String) :
    state.1.IsWithin (ensureDirectory state segments).1 := by
  unfold ensureDirectory
  dsimp only
  split
  · exact .refl _
  · split
    · next created => exact isWithin_create? created
    · exact .refl _

theorem isWithin_ensureDirectories (tree : FileTree) (path : Path) :
    tree.IsWithin (tree.ensureDirectories path).1 := by
  have ensured (chain : List (List String)) (state : FileTree × Bool) :
      state.1.IsWithin (chain.foldl ensureDirectory state).1 := by
    induction chain generalizing state with
    | nil => exact .refl _
    | cons segments chain ih => exact (isWithin_ensureDirectory state segments).trans (ih _)
  exact ensured _ (tree, true)

/-- The place that segments without `..` spell. -/
def spelled (segments : List String) : Place :=
  segments.filter (· ≠ ".")

@[simp]
theorem spelled_append (left right : List String) :
    spelled (left ++ right) = spelled left ++ spelled right :=
  List.filter_append ..

theorem spelled_prefix_spelled {parents segments : List String} (above : parents <+: segments) :
    spelled parents <+: spelled segments :=
  above.filter _

/-- Whether each place is listed once, stands in a directory and has names that are no dots. -/
structure IsSound (tree : FileTree) : Prop where
  nodup : (tree.entries.map Prod.fst).Nodup
  ne_nil : ∀ entry ∈ tree.entries, entry.1 ≠ []
  parent : ∀ entry ∈ tree.entries, tree.hasDirectory entry.1.dropLast
  no_dots : ∀ entry ∈ tree.entries, "." ∉ entry.1 ∧ ".." ∉ entry.1

theorem walk?_append (tree : FileTree) (place : Place) (left right : List String) :
    tree.walk? place (left ++ right) = (tree.walk? place left).bind (tree.walk? · right) := by
  induction left generalizing place with
  | nil => rfl
  | cons segment left ih =>
      rw [List.cons_append, walk?, walk?]
      split
      · exact ih _
      · rfl

theorem step_append_spelled (place : Place) {segment : String} (no_parent : segment ≠ "..")
    (rest : List String) :
    step place segment ++ spelled rest = place ++ spelled (segment :: rest) := by
  by_cases dot : segment = "."
  · simp [step, dot, spelled]
  · simp [step, dot, no_parent, spelled]

theorem eq_spelled_of_walk? {place found : Place} {segments : List String}
    (no_parent : ".." ∉ segments) (walked : tree.walk? place segments = some found) :
    found = place ++ spelled segments := by
  induction segments generalizing place with
  | nil =>
      cases walked
      exact (List.append_nil _).symm
  | cons segment rest ih =>
      rw [List.mem_cons, not_or] at no_parent
      rw [walk?] at walked
      split at walked
      · rw [ih no_parent.2 walked, step_append_spelled place (Ne.symm no_parent.1)]
      · cases walked

theorem exists_entry {place : Place} {entry : FileEntry} (found : tree.entryAt? place = some entry)
    (ne_nil : place ≠ []) : (place, entry) ∈ tree.entries := by
  rw [entryAt?, if_neg ne_nil] at found
  exact InsertionOrder.mem_of_lookup_eq_some found

namespace IsSound

variable (sound : tree.IsSound)

include sound

theorem hasDirectory_dropLast {place : Place} (there : (tree.entryAt? place).isSome) :
    tree.hasDirectory place.dropLast := by
  rcases Option.isSome_iff_exists.1 there with ⟨entry, found⟩
  by_cases nil : place = []
  · subst nil
    rfl
  · exact sound.parent _ (exists_entry found nil)

theorem hasDirectory_above {above below : Place} (directory : tree.hasDirectory (above ++ below)) :
    tree.hasDirectory above := by
  induction below using List.reverseRecOn with
  | nil => rwa [List.append_nil] at directory
  | append_singleton below name ih =>
      apply ih
      have there : (tree.entryAt? (above ++ (below ++ [name]))).isSome := by
        rw [hasDirectory_iff.1 directory]
        rfl
      have parent := sound.hasDirectory_dropLast there
      rwa [← List.append_assoc, List.dropLast_concat] at parent

/-- A path without `..` leads to each directory that it spells. -/
theorem walk?_of_hasDirectory {place : Place} {segments : List String}
    (no_parent : ".." ∉ segments) (directory : tree.hasDirectory (place ++ spelled segments)) :
    tree.walk? place segments = some (place ++ spelled segments) := by
  induction segments generalizing place with
  | nil => simp [walk?, spelled]
  | cons segment rest ih =>
      rw [List.mem_cons, not_or] at no_parent
      rw [← step_append_spelled place (Ne.symm no_parent.1)] at directory ⊢
      have next := sound.hasDirectory_above directory
      have here : tree.hasDirectory place := by
        by_cases dot : segment = "."
        · rwa [step, if_pos dot] at next
        · rw [step, if_neg dot, if_neg (Ne.symm no_parent.1)] at next
          exact sound.hasDirectory_above next
      rw [walk?, here, hasDirectory_iff.1 next]
      exact ih no_parent.2 directory

theorem walk?_spelled {segments : List String} (no_parent : ".." ∉ segments)
    (directory : tree.hasDirectory (spelled segments)) :
    tree.walk? [] segments = some (spelled segments) :=
  sound.walk?_of_hasDirectory no_parent directory

theorem walk?_of_there {directory : List String} {name : String}
    (no_parent : ".." ∉ directory) (no_dot : name ≠ ".") (no_dots : name ≠ "..")
    (there : (tree.entryAt? (spelled directory ++ [name])).isSome) :
    tree.walk? [] (directory ++ [name]) = some (spelled directory ++ [name]) := by
  have parent := sound.hasDirectory_dropLast there
  rw [List.dropLast_concat] at parent
  have walked := sound.walk?_spelled no_parent parent
  rw [walk?_append, walked]
  simp [walk?, step, parent, no_dot, no_dots, there]

/-- A path to something in a directory leads there. -/
theorem locate?_of_there {directory : List String} {name : String}
    (no_parent : ".." ∉ directory) (no_dot : name ≠ ".") (no_dots : name ≠ "..")
    (there : (tree.entryAt? (spelled directory ++ [name])).isSome) :
    tree.locate? { segments := directory ++ [name] } = some (spelled directory ++ [name]) := by
  simp [locate?, sound.walk?_of_there no_parent no_dot no_dots there]

theorem entryAt?_eq_none {directory : List String} {name : String}
    (no_parent : ".." ∉ directory) (no_dot : name ≠ ".") (no_dots : name ≠ "..")
    (absent : tree.contains { segments := directory ++ [name] } = false) :
    tree.entryAt? (spelled directory ++ [name]) = none := by
  by_contra there
  have located := sound.locate?_of_there no_parent no_dot no_dots
    (Option.isSome_iff_ne_none.2 there)
  rw [contains, located] at absent
  cases absent

theorem withEntry {place : Place} (free : tree.entryAt? place = none)
    (parent : tree.hasDirectory place.dropLast) (no_dot : "." ∉ place) (no_dots : ".." ∉ place)
    (entry : FileEntry) : (tree.withEntry place entry).IsSound := by
  have ne_nil : place ≠ [] := by
    rintro rfl
    cases free
  have within := isWithin_withEntry free entry
  rw [entryAt?, if_neg ne_nil, List.lookup_eq_none_iff] at free
  have unlisted : place ∉ tree.entries.map Prod.fst := by
    intro listed
    rcases List.mem_map.1 listed with ⟨old, old_mem, rfl⟩
    simpa using free old old_mem
  refine ⟨?_, ?_, ?_, ?_⟩
  · rw [FileTree.withEntry, List.map_append, List.nodup_append]
    refine ⟨sound.nodup, List.nodup_singleton _, ?_⟩
    rintro other other_mem _ last rfl
    cases List.mem_singleton.1 last
    exact unlisted other_mem
  all_goals
    intro other other_mem
    rcases List.mem_append.1 other_mem with old | new
  · exact sound.ne_nil other old
  · cases List.mem_singleton.1 new
    exact ne_nil
  · exact within.hasDirectory (sound.parent other old)
  · cases List.mem_singleton.1 new
    exact within.hasDirectory parent
  · exact sound.no_dots other old
  · cases List.mem_singleton.1 new
    exact ⟨no_dot, no_dots⟩

/-- Whatever a path spells, what is created at its end leaves the tree sound. -/
theorem of_create? {segments : List String} {entry : FileEntry}
    (created : tree.create? segments entry = some later) : later.IsSound := by
  rcases FileTree.create?_eq_some created with ⟨parent, name, walked, last, directory, free, rfl⟩
  have there : (tree.entryAt? parent).isSome := by
    rw [hasDirectory_iff.1 directory]
    rfl
  -- Neither dot leads to a place where nothing is.
  have no_dot : name ≠ "." := by
    rintro rfl
    rw [step, if_pos rfl, hasDirectory_iff.1 directory] at free
    cases free
  have no_dots : name ≠ ".." := by
    rintro rfl
    rw [step, if_neg (by decide), if_pos rfl,
      hasDirectory_iff.1 (sound.hasDirectory_dropLast there)] at free
    cases free
  have parent_no_dots : "." ∉ parent ∧ ".." ∉ parent := by
    by_cases nil : parent = []
    · simp [nil]
    · exact sound.no_dots _ (exists_entry (hasDirectory_iff.1 directory) nil)
  rw [step, if_neg no_dot, if_neg no_dots] at free ⊢
  apply sound.withEntry free
  · rwa [List.dropLast_concat]
  · simp [parent_no_dots.1, Ne.symm no_dot]
  · simp [parent_no_dots.2, Ne.symm no_dots]

/-- Without `..` a path names the place where something is created. -/
theorem create?_eq_some {segments : List String} {entry : FileEntry} (no_parent : ".." ∉ segments)
    (created : tree.create? segments entry = some later) :
    tree.entryAt? (spelled segments) = none ∧ later = tree.withEntry (spelled segments) entry ∧
      later.IsSound := by
  have later_sound := sound.of_create? created
  rcases FileTree.create?_eq_some created with ⟨parent, name, walked, last, directory, free, rfl⟩
  rcases List.getLast?_eq_some_iff.1 last with ⟨above, rfl⟩
  rw [List.dropLast_concat] at walked
  simp only [List.mem_append, List.mem_singleton, not_or] at no_parent
  have parent_eq := eq_spelled_of_walk? no_parent.1 walked
  rw [List.nil_append] at parent_eq
  subst parent_eq
  have place_eq := step_append_spelled (spelled above) (Ne.symm no_parent.2) []
  have nil_eq : spelled [] = [] := rfl
  rw [nil_eq, List.append_nil] at place_eq
  rw [place_eq] at free later_sound
  rw [spelled_append, place_eq]
  exact ⟨free, rfl, later_sound⟩

theorem create?_of_free {directory : List String} {name : String} (no_parent : ".." ∉ directory)
    (no_dot : name ≠ ".") (no_dots : name ≠ "..")
    (parent : tree.hasDirectory (spelled directory))
    (free : tree.entryAt? (spelled directory ++ [name]) = none) (entry : FileEntry) :
    tree.create? (directory ++ [name]) entry =
      some (tree.withEntry (spelled directory ++ [name]) entry) := by
  have walked := sound.walk?_spelled no_parent parent
  simp [create?, walked, step, no_dot, no_dots, parent, free, FileTree.withEntry]

end IsSound

theorem isSound_empty : ({} : FileTree).IsSound := by
  constructor <;> simp

theorem IsSound.ensureDirectories (sound : tree.IsSound) (path : Path) :
    (tree.ensureDirectories path).1.IsSound := by
  have ensured (chain : List (List String)) (state : FileTree × Bool) (sound : state.1.IsSound) :
      (chain.foldl ensureDirectory state).1.IsSound := by
    induction chain generalizing state with
    | nil => exact sound
    | cons segments chain ih =>
        apply ih
        unfold ensureDirectory
        dsimp only
        split
        · exact sound
        · split
          · next created => exact sound.of_create? created
          · exact sound
  exact ensured _ (tree, true) sound

theorem IsSound.addFile (sound : tree.IsSound) (path : Path) (content : ByteArray) :
    (tree.addFile path content).IsSound := by
  have above := sound.ensureDirectories { segments := path.segments.dropLast }
  unfold FileTree.addFile
  dsimp only
  cases created : FileTree.create? _ path.segments (.file content) with
  | none => exact above
  | some later => exact above.of_create? created

/-- Every file tree that is put together by adding files is sound. -/
theorem isSound_foldl_addFile (files : List (Path × ByteArray)) :
    (files.foldl (fun tree file => addFile tree file.1 file.2) {}).IsSound := by
  induction files using List.reverseRecOn with
  | nil => exact isSound_empty
  | append_singleton files file ih =>
      rw [List.foldl_append]
      exact ih.addFile file.1 file.2

/--
Whether operations on a sound file tree have added directories at or above some places, files with
given texts, and nothing else.
-/
structure Adds (earlier : FileTree) (directories : List Place) (texts : List (Place × String))
    (later : FileTree) : Prop where
  sound : later.IsSound
  within : earlier.IsWithin later
  written : ∀ text ∈ texts, earlier.entryAt? text.1 = none ∧
    later.entryAt? text.1 = some (.file text.2.toUTF8)
  new : ∀ place entry, later.entryAt? place = some entry →
    earlier.entryAt? place = some entry ∨
      (entry = .directory ∧ ∃ directory ∈ directories, place <+: directory) ∨
      ∃ text ∈ texts, text.1 = place ∧ entry = .file text.2.toUTF8

namespace Adds

variable {directories others : List Place} {texts further : List (Place × String)}

theorem refl (sound : tree.IsSound) : tree.Adds directories [] tree where
  sound := sound
  within := .refl tree
  written _ mem := absurd mem List.not_mem_nil
  new _ _ found := .inl found

theorem trans (first : earlier.Adds directories texts middle)
    (second : middle.Adds others further later) :
    earlier.Adds (directories ++ others) (texts ++ further) later where
  sound := second.sound
  within := first.within.trans second.within
  written text text_mem := by
    rcases List.mem_append.1 text_mem with mem | mem
    · rcases first.written text mem with ⟨free, there⟩
      exact ⟨free, second.within _ _ there⟩
    · rcases second.written text mem with ⟨free, there⟩
      refine ⟨?_, there⟩
      cases before : earlier.entryAt? text.1 with
      | none => rfl
      | some entry =>
          rw [first.within _ _ before] at free
          cases free
  new place entry found := by
    simp only [List.mem_append]
    rcases second.new place entry found with
      old | ⟨directory, above, mem, at_or_above⟩ | ⟨text, mem, place_eq⟩
    · rcases first.new place entry old with
        older | ⟨directory, above, mem, at_or_above⟩ | ⟨text, mem, place_eq⟩
      · exact .inl older
      · exact .inr (.inl ⟨directory, above, .inl mem, at_or_above⟩)
      · exact .inr (.inr ⟨text, .inl mem, place_eq⟩)
    · exact .inr (.inl ⟨directory, above, .inr mem, at_or_above⟩)
    · exact .inr (.inr ⟨text, .inr mem, place_eq⟩)

theorem mono (adds : earlier.Adds directories texts later) (subset : directories ⊆ others) :
    earlier.Adds others texts later where
  sound := adds.sound
  within := adds.within
  written := adds.written
  new place entry found := by
    rcases adds.new place entry found with old | ⟨directory, above, mem, at_or_above⟩ | new
    · exact .inl old
    · exact .inr (.inl ⟨directory, above, subset mem, at_or_above⟩)
    · exact .inr (.inr new)

/-- Making a directory puts nothing into it. -/
theorem entryAt?_eq_none {directory : Place} (adds : earlier.Adds [directory] [] later)
    {name : String} (free : earlier.entryAt? (directory ++ [name]) = none) :
    later.entryAt? (directory ++ [name]) = none := by
  by_contra there
  rcases Option.ne_none_iff_exists'.1 there with ⟨entry, found⟩
  rcases adds.new _ _ found with old | ⟨_, made, made_mem, above⟩ | ⟨_, none_mem, _⟩
  · rw [free] at old
    cases old
  · cases List.mem_singleton.1 made_mem
    have shorter := above.length_le
    rw [List.length_append, List.length_singleton] at shorter
    omega
  · cases none_mem

end Adds

/-- A new file in a directory. -/
theorem IsSound.adds_file (sound : tree.IsSound) {directory : List String} {name : String}
    (no_parent : ".." ∉ directory) (no_dot : name ≠ ".") (no_dots : name ≠ "..")
    (parent : tree.hasDirectory (spelled directory))
    (free : tree.entryAt? (spelled directory ++ [name]) = none) (text : String) :
    tree.Adds [] [(spelled directory ++ [name], text)]
      (tree.withEntry (spelled directory ++ [name]) (.file text.toUTF8)) where
  sound := by
    apply sound.withEntry free
    · rwa [List.dropLast_concat]
    · simp [spelled, Ne.symm no_dot]
    · simp [spelled, no_parent, Ne.symm no_dots]
  within := isWithin_withEntry free _
  written := by
    rw [List.forall_mem_singleton]
    refine ⟨free, ?_⟩
    rw [entryAt?_withEntry free, if_pos rfl]
  new other entry found := by
    rw [entryAt?_withEntry free] at found
    split at found
    · next same =>
        cases found
        exact .inr (.inr ⟨_, List.mem_singleton_self _, same.symm, rfl⟩)
    · exact .inl found

section Ensure

variable {segments : List String} {place : Place}

theorem adds_ensureDirectory {state : FileTree × Bool} (sound : state.1.IsSound)
    (no_parent : ".." ∉ segments) (above : spelled segments <+: place) :
    state.1.Adds [place] [] (ensureDirectory state segments).1 := by
  unfold ensureDirectory
  dsimp only
  split
  · exact .refl sound
  · split
    · next created =>
        rcases sound.create?_eq_some no_parent created with ⟨free, rfl, later_sound⟩
        refine ⟨later_sound, isWithin_withEntry free _, List.forall_mem_nil _, ?_⟩
        intro other entry found
        rw [entryAt?_withEntry free] at found
        split at found
        · next same =>
            subst same
            cases found
            exact .inr (.inl ⟨rfl, place, List.mem_singleton_self _, above⟩)
        · exact .inl found
    · exact .refl sound

theorem hasDirectory_of_isDirectory (no_parent : ".." ∉ segments)
    (directory : tree.isDirectory { segments }) : tree.hasDirectory (spelled segments) := by
  cases located : tree.locate? { segments } with
  | none => simp [isDirectory, located] at directory
  | some found =>
      rw [isDirectory, located] at directory
      simp only [locate?, Option.bind_eq_bind, Option.bind_eq_some_iff] at located
      rcases located with ⟨walked, walk_eq, located⟩
      have place_eq := eq_spelled_of_walk? no_parent walk_eq
      rw [List.nil_append] at place_eq
      subst place_eq
      have same : spelled segments = found := by grind
      rwa [same]

theorem hasDirectory_ensureDirectory {state : FileTree × Bool} (sound : state.1.IsSound)
    (no_parent : ".." ∉ segments) (done : (ensureDirectory state segments).2 = true) :
    (ensureDirectory state segments).1.hasDirectory (spelled segments) := by
  unfold ensureDirectory at done ⊢
  dsimp only at done ⊢
  split
  · next ready =>
      rw [if_pos ready] at done
      rw [Bool.or_eq_true, Bool.or_eq_true] at ready
      rcases ready with (undone | empty) | directory
      · simp [show state.2 = true from done] at undone
      · rw [List.isEmpty_iff.1 empty]
        rfl
      · exact hasDirectory_of_isDirectory no_parent directory
  · next missing =>
      rw [if_neg missing] at done
      split
      · next created =>
          rcases sound.create?_eq_some no_parent created with ⟨free, rfl, _⟩
          rw [hasDirectory_iff, entryAt?_withEntry free, if_pos rfl]
      · next refused =>
          rw [refused] at done
          cases done

theorem adds_foldl_ensureDirectory {chain : List (List String)} (state : FileTree × Bool)
    (sound : state.1.IsSound) (no_parent : ".." ∉ segments)
    (prefixes : ∀ parents ∈ chain, parents <+: segments) :
    state.1.Adds [spelled segments] [] (chain.foldl ensureDirectory state).1 := by
  induction chain generalizing state with
  | nil => exact .refl sound
  | cons parents chain ih =>
      rw [List.forall_mem_cons] at prefixes
      have no_parent_above : ".." ∉ parents := fun mem => no_parent (prefixes.1.subset mem)
      have first := adds_ensureDirectory sound no_parent_above (spelled_prefix_spelled prefixes.1)
      exact (first.trans (ih _ first.sound prefixes.2)).mono (by simp)

/-- The segments of the places on the way to a place, that one last. -/
def inits (segments : List String) : List (List String) :=
  (List.range segments.length).map fun count => segments.take (count + 1)

theorem prefix_of_mem_inits {parents : List String} (mem : parents ∈ inits segments) :
    parents <+: segments := by
  rcases List.mem_map.1 mem with ⟨count, _, rfl⟩
  exact List.take_prefix (count + 1) segments

theorem directoryChain_eq (segments : List String) :
    ∃ above, directoryChain segments = above ++ [segments] ∧
      ∀ parents ∈ above, parents <+: segments := by
  refine ⟨inits _, rfl, ?_⟩
  intro parents mem
  apply (prefix_of_mem_inits mem).trans
  rw [← List.reverse_suffix, List.reverse_reverse]
  exact (List.drop_suffix _ _).trans (List.dropWhile_suffix _)

variable (sound : tree.IsSound) (no_parent : ".." ∉ segments)

include sound no_parent

theorem adds_ensureDirectories :
    tree.Adds [spelled segments] [] (tree.ensureDirectories { segments }).1 := by
  rcases directoryChain_eq segments with ⟨above, chain_eq, prefixes⟩
  apply adds_foldl_ensureDirectory (tree, true) sound no_parent
  rw [chain_eq, List.forall_mem_append, List.forall_mem_singleton]
  exact ⟨prefixes, List.prefix_rfl⟩

theorem hasDirectory_ensureDirectories
    (done : (tree.ensureDirectories { segments }).2 = true) :
    (tree.ensureDirectories { segments }).1.hasDirectory (spelled segments) := by
  rcases directoryChain_eq segments with ⟨above, chain_eq, prefixes⟩
  rw [ensureDirectories, chain_eq, List.foldl_append] at done ⊢
  have made := adds_foldl_ensureDirectory (tree, true) sound no_parent prefixes
  exact hasDirectory_ensureDirectory made.sound no_parent done

end Ensure

/-- Whether no file stands at a place or above it. -/
def HasNoFileAbove (tree : FileTree) (place : Place) : Prop :=
  ∀ above content, above <+: place → tree.entryAt? above ≠ some (.file content)

section Success

variable {segments directory : List String} {name : String} {place : Place}

theorem IsSound.hasNoFileAbove (sound : tree.IsSound) (there : tree.hasDirectory place) :
    tree.HasNoFileAbove place := by
  rintro above content ⟨below, rfl⟩ found
  rw [hasDirectory_iff.1 (sound.hasDirectory_above there)] at found
  cases found

theorem HasNoFileAbove.of_isWithin (within : earlier.IsWithin later)
    (clear : later.HasNoFileAbove place) : earlier.HasNoFileAbove place :=
  fun above content is_above found => clear above content is_above (within _ _ found)

/-- What is added is in the way only where it is a file. -/
theorem Adds.hasNoFileAbove {directories : List Place} {texts : List (Place × String)}
    (adds : earlier.Adds directories texts later)
    (aside : ∀ text ∈ texts, ¬text.1 <+: place) (clear : earlier.HasNoFileAbove place) :
    later.HasNoFileAbove place := by
  intro above content is_above found
  rcases adds.new _ _ found with old | ⟨is_directory, _⟩ | ⟨text, text_mem, rfl, _⟩
  · exact clear above content is_above old
  · cases is_directory
  · exact aside text text_mem is_above

theorem IsSound.isDirectory_of_hasDirectory (sound : tree.IsSound) (no_parent : ".." ∉ segments)
    (nonempty : segments ≠ []) (there : tree.hasDirectory (spelled segments)) :
    tree.isDirectory { segments } := by
  simp [isDirectory, locate?, sound.walk?_spelled no_parent there, nonempty, there]

/-- A directory is made in another one, unless a file has its place. -/
theorem ensureDirectory_of_parent {state : FileTree × Bool} (sound : state.1.IsSound)
    (no_parent : ".." ∉ directory ++ [name]) (done : state.2 = true)
    (parent : state.1.hasDirectory (spelled directory))
    (clear : state.1.HasNoFileAbove (spelled (directory ++ [name]))) :
    (ensureDirectory state (directory ++ [name])).2 = true := by
  unfold ensureDirectory
  dsimp only
  split
  · exact done
  · next missing =>
      have absent : state.1.entryAt? (spelled (directory ++ [name])) = none := by
        cases found : state.1.entryAt? (spelled (directory ++ [name])) with
        | none => rfl
        | some entry =>
            cases entry with
            | directory =>
                have is_directory := sound.isDirectory_of_hasDirectory no_parent (by simp)
                  (hasDirectory_iff.2 found)
                simp [is_directory] at missing
            | file content => exact absurd found (clear _ content List.prefix_rfl)
      have no_dot : name ≠ "." := by
        rintro rfl
        rw [spelled_append, show spelled ["."] = [] from rfl, List.append_nil,
          hasDirectory_iff.1 parent] at absent
        cases absent
      rw [List.mem_append, List.mem_singleton, not_or] at no_parent
      have free : state.1.entryAt? (spelled directory ++ [name]) = none := by
        simpa [spelled, no_dot] using absent
      rw [sound.create?_of_free no_parent.1 no_dot (Ne.symm no_parent.2) parent free]

theorem inits_concat (directory : List String) (name : String) :
    inits (directory ++ [name]) = inits directory ++ [directory ++ [name]] := by
  rw [inits, List.length_append, List.length_singleton, List.range_succ, List.map_append,
    List.map_singleton, List.take_of_length_le (by simp)]
  congr 1
  apply List.map_congr_left
  intro count count_mem
  exact List.take_append_of_le_length (List.mem_range.1 count_mem)

theorem directoryChain_concat (no_dot : name ≠ ".") :
    directoryChain (directory ++ [name]) = inits (directory ++ [name]) := by
  have parents_eq : (((directory ++ [name]).reverse.dropWhile (· = ".")).drop 1).reverse =
      directory := by
    simp [no_dot]
  rw [directoryChain, parents_eq, inits_concat]
  rfl

/-- The places on the way to a place can be made directories, unless a file is in the way. -/
theorem foldl_ensureDirectory_inits (sound : tree.IsSound) (no_parent : ".." ∉ segments)
    (clear : tree.HasNoFileAbove (spelled segments)) :
    ((inits segments).foldl ensureDirectory (tree, true)).2 = true ∧
      ((inits segments).foldl ensureDirectory (tree, true)).1.hasDirectory (spelled segments) := by
  induction segments using List.reverseRecOn with
  | nil => exact ⟨rfl, rfl⟩
  | append_singleton directory name ih =>
      have no_parent_above : ".." ∉ directory := fun mem => no_parent (List.mem_append_left _ mem)
      have is_above := spelled_prefix_spelled (List.prefix_append directory [name])
      rcases ih no_parent_above (fun above content before found =>
        clear above content (before.trans is_above) found) with ⟨done, parent⟩
      have adds := adds_foldl_ensureDirectory (tree, true) sound no_parent_above
        fun _ => prefix_of_mem_inits
      have ready := ensureDirectory_of_parent adds.sound no_parent done parent
        (adds.hasNoFileAbove (List.forall_mem_nil _) clear)
      rw [inits_concat, List.foldl_append]
      exact ⟨ready, hasDirectory_ensureDirectory adds.sound no_parent ready⟩

/-- A directory can be made, with the ones above it, exactly when no file is in the way. -/
theorem ensureDirectories_iff (sound : tree.IsSound) (no_parent : ".." ∉ directory ++ [name])
    (no_dot : name ≠ ".") :
    (tree.ensureDirectories { segments := directory ++ [name] }).2 = true ↔
      tree.HasNoFileAbove (spelled (directory ++ [name])) := by
  constructor
  · intro done
    have adds := adds_ensureDirectories sound no_parent
    exact (adds.sound.hasNoFileAbove
      (hasDirectory_ensureDirectories sound no_parent done)).of_isWithin adds.within
  · intro clear
    rw [ensureDirectories, directoryChain_concat no_dot]
    exact (foldl_ensureDirectory_inits sound no_parent clear).1

end Success

end FileTree

end VisiblyPushdown
