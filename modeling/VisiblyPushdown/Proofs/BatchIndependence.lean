import VisiblyPushdown.Proofs.BatchReports

/-!
# Independence in a batch

A batch comes to the same as separate batches, each over one of its grammar files: the counts add
up, and the new files are those of the separate batches, no two of which write the same one. What a
visit to a file gives depends on the grammar in it, on whether a file is in the way of the directory
for its reports, and on the reports that are there; the visits to the other files touch none of
these. This needs that the directory for the reports is spelled out: when the output path has `..`,
or a dot at its end, whether it leads anywhere can depend on what other visits have made.
-/

namespace VisiblyPushdown

namespace FileTree

variable {tree earlier later : FileTree} {place file found : Place} {entry : FileEntry}
  {segments : List String}

theorem IsWithin.walk? (within : earlier.IsWithin later)
    (walked : earlier.walk? place segments = some found) :
    later.walk? place segments = some found := by
  induction segments generalizing place with
  | nil => exact walked
  | cons segment rest ih =>
      rw [FileTree.walk?] at walked ⊢
      split at walked
      · next ready =>
          rw [Bool.and_eq_true, Option.isSome_iff_exists] at ready
          rcases ready with ⟨directory, entry, there⟩
          rw [within.hasDirectory directory, within _ _ there]
          exact ih walked
      · cases walked

theorem IsWithin.contains (within : earlier.IsWithin later) {path : Path}
    (there : earlier.contains path) : later.contains path := by
  rw [FileTree.contains, Option.isSome_iff_exists] at there ⊢
  rcases there with ⟨found, located⟩
  simp only [locate?, Option.bind_eq_bind, Option.bind_eq_some_iff] at located ⊢
  rcases located with ⟨walked, walk_eq, located⟩
  refine ⟨found, walked, within.walk? walk_eq, ?_⟩
  by_cases directory : earlier.hasDirectory walked
  · rw [within.hasDirectory directory]
    rwa [directory] at located
  · grind

/-- A walk leads to something if it starts at something. -/
theorem isSome_of_walk? (there : (tree.entryAt? place).isSome)
    (walked : tree.walk? place segments = some found) : (tree.entryAt? found).isSome := by
  induction segments generalizing place with
  | nil =>
      cases walked
      exact there
  | cons segment rest ih =>
      rw [walk?] at walked
      split at walked
      · next ready => exact ih (Bool.and_eq_true_iff.1 ready).2 walked
      · cases walked

/-- A walk to a directory leads through directories. -/
theorem hasDirectory_of_walk? (walked : tree.walk? place segments = some found)
    (directory : tree.hasDirectory found) : tree.hasDirectory place := by
  cases segments with
  | nil =>
      cases walked
      exact directory
  | cons segment rest =>
      rw [walk?] at walked
      split at walked
      · next ready => exact (Bool.and_eq_true_iff.1 ready).1
      · cases walked

theorem walk?_of_directories
    (directories : ∀ place, earlier.hasDirectory place → later.hasDirectory place)
    (walked : earlier.walk? place segments = some found) (directory : earlier.hasDirectory found) :
    later.walk? place segments = some found := by
  induction segments generalizing place with
  | nil => exact walked
  | cons segment rest ih =>
      rw [walk?] at walked ⊢
      split at walked
      · next ready =>
          have next := hasDirectory_of_walk? walked directory
          rw [directories _ (Bool.and_eq_true_iff.1 ready).1,
            hasDirectory_iff.1 (directories _ next)]
          exact ih walked
      · cases walked

/-- A path that leads to a directory leads there whenever the directories are there. -/
theorem locate?_of_directories
    (directories : ∀ place, earlier.hasDirectory place → later.hasDirectory place) {path : Path}
    (located : earlier.locate? path = some found) (directory : earlier.hasDirectory found) :
    later.locate? path = some found := by
  simp only [locate?, Option.bind_eq_bind, Option.bind_eq_some_iff] at located ⊢
  rcases located with ⟨walked, walk_eq, located⟩
  have walked_eq : walked = found := by grind
  subst walked_eq
  refine ⟨walked, walk?_of_directories directories walk_eq directory, ?_⟩
  rw [directories walked directory]
  rw [directory] at located
  exact located

theorem entryAt?_eq_some_iff (nodup : (tree.entries.map Prod.fst).Nodup) (ne_nil : place ≠ []) :
    tree.entryAt? place = some entry ↔ (place, entry) ∈ tree.entries := by
  refine ⟨fun there => exists_entry there ne_nil, ?_⟩
  intro mem
  rw [entryAt?, if_neg ne_nil]
  apply InsertionOrder.lookup_eq_some_of_unique mem
  intro other other_mem
  exact congrArg Prod.snd (List.inj_on_of_nodup_map nodup other_mem mem rfl)

section Only

/-- The file tree in which a file below a place is the only one that is left there. -/
def only (tree : FileTree) (place file : Place) : FileTree where
  entries := tree.entries.filter fun (found, entry) =>
    match entry with
    | .directory => true
    | .file _ => !place.isPrefixOf found || found = place ++ file

theorem mem_entries_only : (found, entry) ∈ (tree.only place file).entries ↔
    (found, entry) ∈ tree.entries ∧
      (entry = .directory ∨ ¬place <+: found ∨ found = place ++ file) := by
  rw [only, List.mem_filter]
  apply and_congr_right
  intro _
  cases entry with
  | directory => simp
  | file content => simp [← Bool.not_eq_true, List.isPrefixOf_iff_prefix]

variable (sound : tree.IsSound)

include sound

theorem entryAt?_only :
    (tree.only place file).entryAt? found = some entry ↔ tree.entryAt? found = some entry ∧
      (entry = .directory ∨ ¬place <+: found ∨ found = place ++ file) := by
  by_cases nil : found = []
  · subst nil
    have root (tree : FileTree) : tree.entryAt? [] = some .directory := rfl
    rw [root, root, Option.some_inj]
    exact ⟨fun same => ⟨same, .inl same.symm⟩, fun both => both.1⟩
  · have nodup : ((tree.only place file).entries.map Prod.fst).Nodup :=
      sound.nodup.sublist (List.filter_sublist.map _)
    rw [entryAt?_eq_some_iff nodup nil, entryAt?_eq_some_iff sound.nodup nil]
    exact mem_entries_only

theorem isWithin_only : (tree.only place file).IsWithin tree :=
  fun _ _ there => ((entryAt?_only sound).1 there).1

theorem hasDirectory_only :
    (tree.only place file).hasDirectory found = tree.hasDirectory found := by
  rw [Bool.eq_iff_iff, hasDirectory_iff, hasDirectory_iff, entryAt?_only sound]
  exact ⟨fun both => both.1, fun there => ⟨there, .inl rfl⟩⟩

theorem IsSound.only : (tree.only place file).IsSound where
  nodup := sound.nodup.sublist (List.filter_sublist.map _)
  ne_nil other mem := sound.ne_nil other (List.mem_of_mem_filter mem)
  parent other mem := by
    rw [hasDirectory_only sound]
    exact sound.parent other (List.mem_of_mem_filter mem)
  no_dots other mem := sound.no_dots other (List.mem_of_mem_filter mem)

end Only

/-- Whether a file with some content has been added to a file tree. -/
def IsNewFile (earlier later : FileTree) (found : Place) (content : ByteArray) : Prop :=
  later.entryAt? found = some (.file content) ∧ earlier.entryAt? found = none

theorem Adds.isNewFile_iff {directories : List Place} {texts : List (Place × String)}
    (adds : earlier.Adds directories texts later) {content : ByteArray} :
    IsNewFile earlier later found content ↔
      ∃ text ∈ texts, text.1 = found ∧ content = text.2.toUTF8 := by
  constructor
  · rintro ⟨there, absent⟩
    rcases adds.new _ _ there with old | ⟨is_directory, _⟩ | ⟨text, mem, place_eq, content_eq⟩
    · rw [absent] at old
      cases old
    · cases is_directory
    · cases content_eq
      exact ⟨text, mem, place_eq, rfl⟩
  · rintro ⟨text, mem, rfl, rfl⟩
    exact ⟨(adds.written text mem).2, (adds.written text mem).1⟩

end FileTree

namespace Summary

theorem zero_add (summary : Summary) : ({} : Summary).add summary = summary := by
  simp [add]

/-- A total that is the sum of the skipped and the processed ones stays so. -/
theorem total_foldl_add {summaries : List Summary} {start : Summary}
    (each : ∀ summary ∈ summaries, summary.total = summary.skipped + summary.processed)
    (first : start.total = start.skipped + start.processed) :
    (summaries.foldl add start).total =
      (summaries.foldl add start).skipped + (summaries.foldl add start).processed := by
  induction summaries generalizing start with
  | nil => exact first
  | cons summary summaries ih =>
      rw [List.forall_mem_cons] at each
      apply ih each.2
      simp only [add]
      omega

end Summary

namespace Batch

open FileTree

variable {batch : Batch} {tree earlier later : FileTree} {place file other : Place}

section Visit

/-- Whether the reports on a file have free places in a directory that is spelled out. -/
structure IsClear (batch : Batch) (tree : FileTree) (file : Place) : Prop where
  sound : tree.IsSound
  no_parent : ".." ∉ batch.reportDirectory file
  named : ∃ name ∈ (batch.reportDirectory file).getLast?, name ≠ "."
  free : ∀ ending ∈ endings, tree.entryAt? (batch.reportPlace file ending) = none

namespace IsClear

variable (clear : batch.IsClear tree file)

include clear

theorem contains_eq_false {ending : String} (mem : ending ∈ endings) :
    tree.contains (batch.reportPath file ending) = false := by
  rw [Bool.eq_false_iff]
  intro there
  rw [contains, Option.isSome_iff_exists] at there
  rcases there with ⟨found, located⟩
  rw [reportPath_eq] at located
  simp only [locate?, Option.bind_eq_bind, Option.bind_eq_some_iff] at located
  rcases located with ⟨walked, walk_eq, _⟩
  rcases append_ending_ne mem (fileStem (file.getLast?.getD "")) with ⟨no_dot, no_dots⟩
  have no_parent : ".." ∉ batch.reportDirectory file ++ [reportName file ending] := by
    rw [List.mem_append, List.mem_singleton, not_or]
    exact ⟨clear.no_parent, Ne.symm no_dots⟩
  have walked_eq : walked = batch.reportPlace file ending := by
    rw [eq_spelled_of_walk? no_parent walk_eq, List.nil_append, spelled_append, reportPlace]
    simp [spelled, reportName, no_dot]
  have absent := clear.free ending mem
  have something := isSome_of_walk? rfl walk_eq
  rw [walked_eq, absent] at something
  cases something

theorem ready_iff :
    (tree.ensureDirectories { segments := batch.reportDirectory file }).2 = true ↔
      tree.HasNoFileAbove (spelled (batch.reportDirectory file)) := by
  have no_parent := clear.no_parent
  rcases clear.named with ⟨name, last, no_dot⟩
  rcases List.getLast?_eq_some_iff.1 last with ⟨directory, split⟩
  rw [split] at no_parent ⊢
  exact ensureDirectories_iff clear.sound no_parent no_dot

/-- What a visit counts: the reports are written whenever their directory can be made. -/
theorem process_snd (place : Place) :
    (batch.process tree place file).2 =
      if isLexerFile (file.getLast?.getD "") then .ofSkipped
      else
        match grammarAt? tree place file with
        | none => .ofSkipped
        | some grammar =>
          if (tree.ensureDirectories { segments := batch.reportDirectory file }).2 then
            .ofAnalysis (batch.settings.analyze grammar)
          else .ofSkipped := by
  have below_eq : (Path.ofText batch.output).below file.dropLast =
    { segments := batch.reportDirectory file } := rfl
  unfold process
  rw [clear.contains_eq_false (by decide), clear.contains_eq_false (by decide), Bool.or_false,
    Bool.or_false]
  split
  · rfl
  · cases grammarAt? tree place file with
    | none => rfl
    | some grammar =>
        unfold report
        rw [below_eq]
        dsimp only
        split
        · next ready =>
            have made := adds_ensureDirectories clear.sound clear.no_parent
            have parent := hasDirectory_ensureDirectories clear.sound clear.no_parent ready
            have free : ∀ text ∈ reportTexts file (batch.settings.analyze grammar),
                (tree.ensureDirectories { segments := batch.reportDirectory file }).1.entryAt?
                  (batch.reportPlace file text.1) = none :=
              fun text mem => made.entryAt?_eq_none (clear.free text.1 (ending_mem mem).1)
            exact if_pos (adds_reports made.sound clear.no_parent parent free).1
        · rfl

end IsClear

/-- A visit counts the same when the same grammar is there and the same directory can be made. -/
theorem process_snd_congr (clear : batch.IsClear earlier file)
    (clear_too : batch.IsClear later file)
    (grammar_eq : grammarAt? earlier place file = grammarAt? later place file)
    (above_iff : earlier.HasNoFileAbove (spelled (batch.reportDirectory file)) ↔
      later.HasNoFileAbove (spelled (batch.reportDirectory file))) :
    (batch.process earlier place file).2 = (batch.process later place file).2 := by
  have ready_eq : (earlier.ensureDirectories { segments := batch.reportDirectory file }).2 =
      (later.ensureDirectories { segments := batch.reportDirectory file }).2 := by
    rw [Bool.eq_iff_iff, clear.ready_iff, clear_too.ready_iff]
    exact above_iff
  rw [clear.process_snd, clear_too.process_snd, grammar_eq, ready_eq]

theorem counted?_congr (clear : batch.IsClear earlier file)
    (clear_too : batch.IsClear later file)
    (grammar_eq : grammarAt? earlier place file = grammarAt? later place file)
    (above_iff : earlier.HasNoFileAbove (spelled (batch.reportDirectory file)) ↔
      later.HasNoFileAbove (spelled (batch.reportDirectory file))) :
    batch.counted? place earlier file = batch.counted? place later file := by
  rw [counted?, counted?, process_snd_congr clear clear_too grammar_eq above_iff, grammar_eq]

end Visit

section Apart

theorem mem_grammarFiles_iff (sound : tree.IsSound) :
    file ∈ grammarFiles tree place ↔
      isGrammarFile file ∧ ∃ content, tree.entryAt? (place ++ file) = some (.file content) := by
  rw [grammarFiles, mem_sort, List.mem_filter, filesBelow, List.mem_filterMap, and_comm]
  apply and_congr_right
  intro grammar_file
  have ne_nil : place ++ file ≠ [] := by
    rw [eq_append_of_isGrammarFile grammar_file]
    simp
  constructor
  · rintro ⟨⟨found, _ | content⟩, mem, kept⟩
    · cases kept
    · simp only [Option.ite_none_right_eq_some, List.isPrefixOf_iff_prefix] at kept
      rcases kept with ⟨⟨rest, rfl⟩, rest_eq⟩
      cases rest_eq
      rw [List.drop_left] at ne_nil ⊢
      exact ⟨content, (entryAt?_eq_some_iff sound.nodup ne_nil).2 mem⟩
  · rintro ⟨content, there⟩
    exact ⟨_, (entryAt?_eq_some_iff sound.nodup ne_nil).1 there, by simp⟩

/-- The file that is left is the only grammar file. -/
theorem grammarFiles_only (sound : tree.IsSound) (mem : file ∈ grammarFiles tree place) :
    grammarFiles (tree.only place file) place = [file] := by
  apply List.perm_singleton.1
  refine (List.perm_ext_iff_of_nodup (nodup_grammarFiles sound.only place)
    (List.nodup_singleton file)).2 ?_
  intro other
  rw [mem_grammarFiles_iff sound.only, List.mem_singleton]
  rcases (mem_grammarFiles_iff sound).1 mem with ⟨grammar_file, content, there⟩
  constructor
  · rintro ⟨_, _, found⟩
    rcases ((entryAt?_only sound).1 found).2 with is_directory | elsewhere | same
    · cases is_directory
    · exact absurd (List.prefix_append place other) elsewhere
    · exact List.append_cancel_left same
  · rintro rfl
    exact ⟨grammar_file, content, (entryAt?_only sound).2 ⟨there, .inr (.inr rfl)⟩⟩

theorem grammarAt?_of_isWithin (within : earlier.IsWithin later) {entry : FileEntry}
    (there : earlier.entryAt? (place ++ file) = some entry) :
    grammarAt? earlier place file = grammarAt? later place file := by
  rw [grammarAt?, grammarAt?, there, within _ _ there]

/--
Whether a batch writes to a directory that is missing and not in the one that it reads, where no
directory is named like a report. Both are in a sound file tree; the path of the missing one has no
`..` and no dot at its end.
-/
structure IsApart (batch : Batch) (place : Place) (tree : FileTree) : Prop where
  sound : tree.IsSound
  located : tree.locate? (Path.ofText batch.input) = some place
  directory : tree.hasDirectory place
  no_text_directory : ∀ entry ∈ tree.entries, place <+: entry.1 → tree.hasDirectory entry.1 →
    ∀ name ∈ entry.1.drop place.length, ¬".txt".toList <:+ name.toList
  missing : tree.contains (Path.ofText batch.output) = false
  outside : ¬place <+: spelled (Path.ofText batch.output).segments
  no_parent : ".." ∉ (Path.ofText batch.output).segments
  named : ∃ name ∈ (Path.ofText batch.output).segments.getLast?, name ≠ "."

namespace IsApart

variable (apart : batch.IsApart place tree) {before after : List Place} {ending : String}

include apart

theorem not_hasDirectory_output :
    ¬tree.hasDirectory (spelled (Path.ofText batch.output).segments) := by
  intro there
  have nonempty : (Path.ofText batch.output).segments ≠ [] := by
    intro nil
    rcases apart.named with ⟨_, last, _⟩
    rw [nil] at last
    cases last
  have walked := apart.sound.walk?_spelled apart.no_parent there
  have contained := apart.missing
  simp [contains, locate?, walked, there, nonempty] at contained

theorem not_prefix_output (below : Place) :
    ¬place <+: spelled (Path.ofText batch.output).segments ++ below := by
  intro above
  rcases List.prefix_or_prefix_of_prefix above (List.prefix_append _ below) with
    inside | ⟨rest, rest_eq⟩
  · exact apart.outside inside
  · have directory := apart.directory
    rw [← rest_eq] at directory
    exact apart.not_hasDirectory_output (apart.sound.hasDirectory_above directory)

theorem not_text_directory (mem : file ∈ grammarFiles tree place) {name : String}
    (name_mem : name ∈ file.dropLast) : ¬".txt".toList <:+ name.toList := by
  rcases (mem_grammarFiles_iff apart.sound).1 mem with ⟨_, content, there⟩
  have file_ne_nil : file ≠ [] := by
    rintro rfl
    cases name_mem
  have parent := apart.sound.hasDirectory_dropLast (Option.isSome_of_eq_some there)
  rw [List.dropLast_append_of_ne_nil file_ne_nil] at parent
  have listed := exists_entry (hasDirectory_iff.1 parent)
    (List.append_ne_nil_of_right_ne_nil _ (List.ne_nil_of_mem name_mem))
  apply apart.no_text_directory _ listed (List.prefix_append _ _) parent
  rwa [List.drop_left]

/-- No report on a file stands at or above the directory for the reports on a file. -/
theorem not_above_reportDirectory (mem : file ∈ grammarFiles tree place)
    (other_mem : other ∈ grammarFiles tree place) (listed : ending ∈ endings) :
    ¬batch.reportPlace other ending <+: spelled (batch.reportDirectory file) := by
  intro above
  rw [reportPlace, spelled_reportDirectory apart.sound mem,
    spelled_reportDirectory apart.sound other_mem, List.append_assoc,
    List.prefix_append_right_inj] at above
  have name_mem : reportName other ending ∈ file.dropLast := above.subset (by simp)
  apply apart.not_text_directory mem name_mem
  have all_text : ∀ ending ∈ endings, ".txt".toList <:+ ending.toList := by decide
  rw [reportName, String.toList_append]
  exact (all_text ending listed).trans (List.suffix_append _ _)

theorem entryAt?_reportPlace (mem : file ∈ grammarFiles tree place) (ending : String) :
    tree.entryAt? (batch.reportPlace file ending) = none := by
  by_contra there
  have parent := apart.sound.hasDirectory_dropLast (Option.isSome_iff_ne_none.2 there)
  rw [reportPlace, List.dropLast_concat, spelled_reportDirectory apart.sound mem] at parent
  exact apart.not_hasDirectory_output (apart.sound.hasDirectory_above parent)

theorem named_reportDirectory (mem : file ∈ grammarFiles tree place) :
    ∃ name ∈ (batch.reportDirectory file).getLast?, name ≠ "." := by
  rw [reportDirectory, List.getLast?_append]
  cases last : file.dropLast.getLast? with
  | none => exact apart.named
  | some name =>
      refine ⟨name, rfl, ?_⟩
      rintro rfl
      exact (no_dots_of_mem_grammarFiles apart.sound mem).1
        (List.dropLast_subset _ (List.mem_of_getLast? last))

theorem isClear (mem : file ∈ grammarFiles tree place) : batch.IsClear tree file where
  sound := apart.sound
  no_parent := no_parent_reportDirectory apart.sound apart.no_parent mem
  named := apart.named_reportDirectory mem
  free ending _ := apart.entryAt?_reportPlace mem ending

theorem isUnhindered : batch.IsUnhindered place tree where
  sound := apart.sound
  no_parent := apart.no_parent
  unsearched _ _ mem := (apart.isClear mem).contains_eq_false (by decide)

/-- Visits to other files leave the places for the reports on a file free. -/
theorem isClear_treeAfter (split : grammarFiles tree place = before ++ file :: after) :
    batch.IsClear (batch.treeAfter place tree before) file := by
  have adds := apart.isUnhindered.adds_treeAfter split
  have mem : file ∈ grammarFiles tree place := by simp [split]
  have visited_mem : before ⊆ grammarFiles tree place := by simp [split]
  have clear := apart.isClear mem
  refine ⟨adds.sound, clear.no_parent, clear.named, ?_⟩
  intro ending listed
  by_contra there
  rcases Option.ne_none_iff_exists'.1 there with ⟨entry, found⟩
  rcases adds.new _ _ found with
    old | ⟨_, directory, directory_mem, above⟩ | ⟨text, text_mem, same, _⟩
  · rw [clear.free ending listed] at old
    cases old
  · rcases List.mem_map.1 directory_mem with ⟨other, visited, rfl⟩
    exact apart.not_above_reportDirectory (visited_mem visited) mem listed above
  · rcases exists_of_mem_placedReportsOf text_mem with
      ⟨other, visited, other_ending, other_listed, place_eq⟩
    exact apart.isUnhindered.ne_of_visited split visited
      (apart.isUnhindered.eq_of_reportPlace_eq (visited_mem visited) mem other_listed listed
        (place_eq.trans same))

theorem hasNoFileAbove_treeAfter (split : grammarFiles tree place = before ++ file :: after) :
    (batch.treeAfter place tree before).HasNoFileAbove (spelled (batch.reportDirectory file)) ↔
      tree.HasNoFileAbove (spelled (batch.reportDirectory file)) := by
  have adds := apart.isUnhindered.adds_treeAfter split
  refine ⟨fun clear => clear.of_isWithin adds.within, adds.hasNoFileAbove ?_⟩
  intro text text_mem
  rcases exists_of_mem_placedReportsOf text_mem with ⟨other, visited, ending, listed, place_eq⟩
  rw [← place_eq]
  exact apart.not_above_reportDirectory (by simp [split]) (by simp [split, visited]) listed

/-- The other files below the input directory are not in the way of reports. -/
theorem hasNoFileAbove_only (mem : file ∈ grammarFiles tree place) :
    (tree.only place file).HasNoFileAbove (spelled (batch.reportDirectory file)) ↔
      tree.HasNoFileAbove (spelled (batch.reportDirectory file)) := by
  refine ⟨fun clear above content is_above found => ?_,
    fun clear => clear.of_isWithin (isWithin_only apart.sound)⟩
  have elsewhere : ¬place <+: above := by
    intro inside
    have below := inside.trans is_above
    rw [spelled_reportDirectory apart.sound mem] at below
    exact apart.not_prefix_output _ below
  exact clear above content is_above ((entryAt?_only apart.sound).2 ⟨found, .inr (.inl elsewhere)⟩)

theorem only : batch.IsApart place (tree.only place file) where
  sound := apart.sound.only
  located := by
    apply locate?_of_directories _ apart.located apart.directory
    exact fun found there => (hasDirectory_only apart.sound).trans there
  directory := (hasDirectory_only apart.sound).trans apart.directory
  no_text_directory entry mem := by
    rw [hasDirectory_only apart.sound]
    exact apart.no_text_directory entry (List.mem_of_mem_filter mem)
  missing := by
    rw [Bool.eq_false_iff]
    intro there
    have contained := (isWithin_only apart.sound).contains there
    rw [apart.missing] at contained
    cases contained
  outside := apart.outside
  no_parent := apart.no_parent
  named := apart.named

theorem mem_grammarFiles_only (mem : file ∈ grammarFiles tree place) :
    file ∈ grammarFiles (tree.only place file) place := by
  rw [grammarFiles_only apart.sound mem]
  exact List.mem_singleton_self file

/-- A visit in the batch counts what it counts when the file is the only one. -/
theorem visit_eq (split : grammarFiles tree place = before ++ file :: after) :
    (batch.process (batch.treeAfter place tree before) place file).2 =
        (batch.process (tree.only place file) place file).2 ∧
      batch.counted? place (batch.treeAfter place tree before) file =
        batch.counted? place (tree.only place file) file := by
  have mem : file ∈ grammarFiles tree place := by simp [split]
  rcases (mem_grammarFiles_iff apart.sound).1 mem with ⟨_, content, there⟩
  have there_only := (entryAt?_only apart.sound).2 ⟨there, .inr (.inr rfl)⟩
  have grammar_eq : grammarAt? (batch.treeAfter place tree before) place file =
      grammarAt? (tree.only place file) place file := by
    rw [← grammarAt?_of_isWithin (batch.isWithin_treeAfter place tree before) there,
      ← grammarAt?_of_isWithin (isWithin_only apart.sound) there_only]
  have above_iff := (apart.hasNoFileAbove_treeAfter split).trans
    (apart.hasNoFileAbove_only mem).symm
  have clear := apart.isClear_treeAfter split
  have clear_only := apart.only.isClear (apart.mem_grammarFiles_only mem)
  exact ⟨process_snd_congr clear clear_only grammar_eq above_iff,
    counted?_congr clear clear_only grammar_eq above_iff⟩

end IsApart

section Sum

/-- Visits in turn give the sum of their counts, if each count depends on the file only. -/
theorem foldl_process_eq {files : List Place} {count : Place → Summary}
    (counts : ∀ before file after, files = before ++ file :: after →
      (batch.process (batch.treeAfter place tree before) place file).2 = count file) :
    files.foldl (fun state file =>
      ((batch.process state.1 place file).1, state.2.add (batch.process state.1 place file).2))
      (tree, {}) =
        (batch.treeAfter place tree files, (files.map count).foldl Summary.add {}) := by
  induction files using List.reverseRecOn with
  | nil => rfl
  | append_singleton files file ih =>
      have earlier := ih fun before other after split =>
        counts before other (after ++ [file]) (by simp [split])
      rw [List.foldl_append, earlier, List.map_append, List.foldl_append, treeAfter_concat,
        List.map_singleton, ← counts files file [] rfl]
      rfl

theorem processed_eq_flatMap {files : List Place} {counted : Place → Option Analysis}
    (counts : ∀ before file after, files = before ++ file :: after →
      batch.counted? place (batch.treeAfter place tree before) file = counted file) :
    batch.processed place tree files =
      files.flatMap fun file => ((counted file).map (file, ·)).toList := by
  induction files using List.reverseRecOn with
  | nil => rfl
  | append_singleton files file ih =>
      have earlier := ih fun before other after split =>
        counts before other (after ++ [file]) (by simp [split])
      rw [processed_concat, earlier, counts files file [] rfl, List.flatMap_append]
      simp

theorem total_process (batch : Batch) (place : Place) (tree : FileTree) (file : Place) :
    (batch.process tree place file).2.total =
      (batch.process tree place file).2.skipped + (batch.process tree place file).2.processed := by
  rcases batch.process_snd_cases place tree file with ⟨skipped, _⟩ | ⟨analysis, analysed, _⟩
  · rw [skipped]
    rfl
  · rw [analysed]
    rfl

/-- What a batch comes to when a file is the only one below the input directory. -/
def alone (batch : Batch) (tree : FileTree) (place file : Place) : FileTree × Summary :=
  batch.process (tree.only place file) place file

namespace IsApart

variable (apart : batch.IsApart place tree)

include apart

theorem run_eq : batch.run tree = .ok (batch.treeAfter place tree (grammarFiles tree place),
    ((grammarFiles tree place).map fun file =>
      (batch.alone tree place file).2).foldl Summary.add {}) := by
  have counts : ∀ before file after, grammarFiles tree place = before ++ file :: after →
      (batch.process (batch.treeAfter place tree before) place file).2 =
        (batch.alone tree place file).2 :=
    fun before file after split => (apart.visit_eq split).1
  have visits := foldl_process_eq counts
  unfold run
  dsimp only
  rw [apart.located]
  dsimp only
  rw [if_pos apart.directory]
  exact congrArg Except.ok visits

/-- A batch over one file is a visit to it. -/
theorem run_only (mem : file ∈ grammarFiles tree place) :
    batch.run (tree.only place file) = .ok (batch.alone tree place file) := by
  unfold run
  dsimp only
  rw [apart.only.located]
  dsimp only
  rw [if_pos apart.only.directory, grammarFiles_only apart.sound mem]
  simp [Summary.zero_add, alone]

/-- The new files of a batch over one file are the reports that the visit to it writes. -/
theorem isNewFile_only (mem : file ∈ grammarFiles tree place) {found : Place}
    {content : ByteArray} :
    IsNewFile (tree.only place file) (batch.alone tree place file).1 found content ↔
      ∃ text ∈ batch.placedReportsOf
        ((batch.counted? place (tree.only place file) file).map (file, ·)).toList,
          text.1 = found ∧ content = text.2.toUTF8 := by
  have split : grammarFiles (tree.only place file) place = [file] ++ [] :=
    grammarFiles_only apart.sound mem
  have adds := apart.only.isUnhindered.adds_treeAfter split
  rw [processed, processed, List.append_nil] at adds
  exact adds.isNewFile_iff

theorem isNewFile_treeAfter {found : Place} {content : ByteArray} :
    IsNewFile tree (batch.treeAfter place tree (grammarFiles tree place)) found content ↔
      ∃ file ∈ grammarFiles tree place,
        IsNewFile (tree.only place file) (batch.alone tree place file).1 found content := by
  have adds := apart.isUnhindered.adds_treeAfter (List.append_nil (grammarFiles tree place)).symm
  rw [adds.isNewFile_iff, processed_eq_flatMap fun before file after split =>
    (apart.visit_eq split).2]
  constructor
  · rintro ⟨text, text_mem, written⟩
    rw [placedReportsOf, List.flatMap_assoc] at text_mem
    rcases List.mem_flatMap.1 text_mem with ⟨file, mem, listed⟩
    exact ⟨file, mem, (apart.isNewFile_only mem).2 ⟨text, listed, written⟩⟩
  · rintro ⟨file, mem, new⟩
    rcases (apart.isNewFile_only mem).1 new with ⟨text, listed, written⟩
    refine ⟨text, ?_, written⟩
    rw [placedReportsOf, List.flatMap_assoc]
    exact List.mem_flatMap.2 ⟨file, mem, listed⟩

theorem exists_of_isNewFile_only (mem : file ∈ grammarFiles tree place) {found : Place}
    {content : ByteArray}
    (new : IsNewFile (tree.only place file) (batch.alone tree place file).1 found content) :
    ∃ ending ∈ endings, batch.reportPlace file ending = found := by
  rcases (apart.isNewFile_only mem).1 new with ⟨text, listed, place_eq, _⟩
  have listed_alone : text ∈ batch.placedReportsOf
      (batch.processed place (tree.only place file) [file]) := by
    rwa [processed, processed, List.append_nil]
  rcases exists_of_mem_placedReportsOf listed_alone with ⟨_, only_mem, ending, ending_mem, same⟩
  cases List.mem_singleton.1 only_mem
  exact ⟨ending, ending_mem, same.trans place_eq⟩

/-- No two files have a new file in common. -/
theorem eq_of_isNewFile_only (mem : file ∈ grammarFiles tree place)
    (other_mem : other ∈ grammarFiles tree place) {found : Place} {content content' : ByteArray}
    (new : IsNewFile (tree.only place file) (batch.alone tree place file).1 found content)
    (other_new : IsNewFile (tree.only place other) (batch.alone tree place other).1 found
      content') : file = other := by
  rcases apart.exists_of_isNewFile_only mem new with ⟨ending, listed, place_eq⟩
  rcases apart.exists_of_isNewFile_only other_mem other_new with
    ⟨other_ending, other_listed, other_place_eq⟩
  exact apart.isUnhindered.eq_of_reportPlace_eq mem other_mem listed other_listed
    (place_eq.trans other_place_eq.symm)

end IsApart

/--
A batch over a directory is the sum of batches over its files, each visited once: the counts of the
batches over one file add up, a visit counts the same in the batch as on its own, and the new files
are those of the batches over one file, no two of which have one in common.
-/
theorem run_eq_sum (apart : batch.IsApart place tree) :
    let files := grammarFiles tree place
    let alone := batch.alone tree place
    files.Nodup ∧
    (∀ file, file ∈ files ↔
      isGrammarFile file ∧ ∃ content, tree.entryAt? (place ++ file) = some (.file content)) ∧
    (∀ file ∈ files, batch.run (tree.only place file) = .ok (alone file)) ∧
    ∃ final summary, batch.run tree = .ok (final, summary) ∧
      summary = (files.map fun file => (alone file).2).foldl Summary.add {} ∧
      summary.total = files.length ∧
      summary.total = summary.skipped + summary.processed ∧
      (∀ before file after, files = before ++ file :: after →
        (batch.process (batch.treeAfter place tree before) place file).2 = (alone file).2) ∧
      (∀ found content, IsNewFile tree final found content ↔
        ∃ file ∈ files, IsNewFile (tree.only place file) (alone file).1 found content) ∧
      ∀ file ∈ files, ∀ other ∈ files, ∀ found content content',
        IsNewFile (tree.only place file) (alone file).1 found content →
        IsNewFile (tree.only place other) (alone other).1 found content' → file = other := by
  intro files alone
  rcases run_eq_ok apart.run_eq with ⟨_, located, _, _, counted⟩
  cases apart.located.symm.trans located
  have each : ∀ summary ∈ files.map fun file => (alone file).2,
      summary.total = summary.skipped + summary.processed :=
    List.forall_mem_map.2 fun file _ => batch.total_process place (tree.only place file) file
  have first : ({} : Summary).total = ({} : Summary).skipped + ({} : Summary).processed := rfl
  have total := Summary.total_foldl_add each first
  refine ⟨nodup_grammarFiles apart.sound place, fun file => mem_grammarFiles_iff apart.sound,
    fun file => apart.run_only, _, _, apart.run_eq, rfl, total.trans counted, total, ?_, ?_, ?_⟩
  · exact fun before file after split => (apart.visit_eq split).1
  · exact fun found content => apart.isNewFile_treeAfter
  · intro file mem other other_mem found content content' new other_new
    exact apart.eq_of_isNewFile_only mem other_mem new other_new

/-- A grammar that is sound next to one that breaks off. -/
def soundAndBroken : FileTree :=
  parentheses [(["in", "sub"], .directory),
    (["in", "sub", "Broken.g4"], .file "grammar Broken;\ns : (;\n".toUTF8)]

theorem isSound_soundAndBroken : soundAndBroken.IsSound :=
  isSound_parentheses.addFile (.ofText "in/sub/Broken.g4") "grammar Broken;\ns : (;\n".toUTF8

theorem run_eq_sum_soundAndBroken :
    searching.IsApart ["in"] soundAndBroken ∧
      grammarFiles soundAndBroken ["in"] = [["Parens.g4"], ["sub", "Broken.g4"]] ∧
      ∃ final summary, searching.run soundAndBroken = .ok (final, summary) ∧
        summary.processed = 1 ∧ summary.skipped = 1 ∧
        summary = (searching.alone soundAndBroken ["in"] ["Parens.g4"]).2.add
          (searching.alone soundAndBroken ["in"] ["sub", "Broken.g4"]).2 ∧
        ∀ found content, IsNewFile soundAndBroken final found content ↔
          ∃ file ∈ [["Parens.g4"], ["sub", "Broken.g4"]],
            IsNewFile (soundAndBroken.only ["in"] file)
              (searching.alone soundAndBroken ["in"] file).1 found content := by
  have apart : searching.IsApart ["in"] soundAndBroken :=
    ⟨isSound_soundAndBroken, by decide, by decide, by decide, by decide, by decide, by decide,
      ⟨"out", by decide, by decide⟩⟩
  have files_eq : grammarFiles soundAndBroken ["in"] = [["Parens.g4"], ["sub", "Broken.g4"]] := by
    decide +kernel
  have counted : ((searching.run soundAndBroken).map fun result =>
      (result.2.processed, result.2.skipped)).toOption = some (1, 1) := by
    decide +kernel
  rcases exists_eq_ok counted with ⟨⟨final, summary⟩, ran, view_eq⟩
  rcases run_eq_sum apart with ⟨_, _, _, _, _, ran_too, summary_eq, _, _, _, new_files, _⟩
  cases ran.symm.trans ran_too
  rw [files_eq] at summary_eq new_files
  simp only [Prod.mk.injEq] at view_eq
  refine ⟨apart, files_eq, final, summary, ran, view_eq.1, view_eq.2, ?_, new_files⟩
  rw [summary_eq, List.map_cons, List.map_singleton, List.foldl_cons, Summary.zero_add]
  rfl

/--
With a dot at the end of the output path, a file that is skipped on its own is processed when a
directory for another one has been made before.
-/
theorem processed_of_skipped_alone :
    let batch : Batch := { input := "in", output := "out/.", settings := {} }
    let grammar : FileEntry := .file "s : '(' s ')' | ;".toUTF8
    let tree : FileTree := { entries := [(["in"], .directory), (["in", "a"], .directory),
      (["in", "a", "X.g4"], grammar), (["in", "b.g4"], grammar)] }
    let processed (tree : FileTree) : Option Nat :=
      ((batch.run tree).map fun result => result.2.processed).toOption
    tree.contains (Path.ofText batch.output) = false ∧
      processed (tree.only ["in"] ["a", "X.g4"]) = some 1 ∧
      processed (tree.only ["in"] ["b.g4"]) = some 0 ∧ processed tree = some 2 := by
  decide +kernel

-- With `..` the reports in `b` are noticed once a visit has made `a`, but not by a first visit.
example :
    let batch : Batch := { input := "in", output := "a/../b", settings := {} }
    let grammar : FileEntry := .file "s : '(' s ')' | ;".toUTF8
    let tree : FileTree := { entries := [(["in"], .directory), (["in", "A.g4"], grammar),
      (["in", "P.g4"], grammar), (["b"], .directory), (["b", "P_info.txt"], .file "".toUTF8)] }
    let reported (tree : FileTree) : Option Bool :=
      ((batch.run tree).map fun result =>
        result.1.contains (Path.ofText "b/P_tagged.txt")).toOption
    reported (tree.only ["in"] ["P.g4"]) = some true ∧ reported tree = some false := by
  decide +kernel

end Sum

end Apart

end Batch

end VisiblyPushdown
