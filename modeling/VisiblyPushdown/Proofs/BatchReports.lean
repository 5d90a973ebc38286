import Mathlib.Data.String.Basic
import VisiblyPushdown.Batch
import VisiblyPushdown.Proofs.FileCreation

/-!
# Reports of a batch

A batch changes nothing that is there. A grammar that it skips adds no file, and the files that it
adds are the reports of the grammars that it counts as processed, each with its text. This needs
that no outcome of a search stands where one is to be written: only the other two reports are looked
for before the first one is written. It also needs an output path without `..`, for otherwise making
the output directory can uncover reports that were out of reach before.
-/

namespace VisiblyPushdown

theorem eq_of_splitReversedName {name stem extension : List Char}
    (divided : splitReversedName name = some (stem, extension)) :
    name = extension.reverse ++ '.' :: stem.reverse := by
  have parts : name.takeWhile (· ≠ '.') ++ name.dropWhile (· ≠ '.') = name :=
    List.takeWhile_append_dropWhile
  unfold splitReversedName at divided
  split at divided
  · next dropped =>
      rw [dropped] at parts
      split at divided
      · cases divided
      · cases divided
        rw [List.reverse_reverse, List.reverse_reverse, parts]
  · cases divided

theorem eq_fileStem_append {name extension : String}
    (found : fileExtension? name = some extension) :
    name = fileStem name ++ ("." ++ extension) := by
  cases divided : splitReversedName name.toList.reverse with
  | none => simp [fileExtension?, divided] at found
  | some parts =>
      have parts_eq := congrArg List.reverse (eq_of_splitReversedName divided)
      simp only [fileExtension?, divided, Option.map_some, Option.some_inj] at found
      rw [← found, fileStem, divided]
      apply String.toList_inj.1
      simpa using parts_eq

namespace Batch

/-- What the names of reports end in. -/
def endings : List String :=
  ["_tagged.txt", "_info.txt", "_tagged_all.txt"]

theorem append_ending_ne {ending : String} (mem : ending ∈ endings) (stem : String) :
    stem ++ ending ≠ "." ∧ stem ++ ending ≠ ".." := by
  have long : ∀ ending ∈ endings, 3 ≤ ending.toList.length := by decide
  have ending_long := long ending mem
  constructor
  all_goals
    intro same
    have length_eq := congrArg (·.toList.length) same
    simp at length_eq ending_long
    omega

/-- The endings can be told apart by their last letters. -/
theorem eq_of_append_ending_eq {left right first second : String} (first_mem : first ∈ endings)
    (second_mem : second ∈ endings) (same : left ++ first = right ++ second) :
    left = right ∧ first = second := by
  have lasts {ending : String} (mem : ending ∈ endings) (stem : String) :
      (stem ++ ending).toList.reverse.take 5 = ending.toList.reverse.take 5 := by
    have long : ∀ ending ∈ endings, 5 ≤ ending.toList.reverse.length := by decide
    rw [String.toList_append, List.reverse_append, List.take_append_of_le_length (long ending mem)]
  have apart : ∀ first ∈ endings, ∀ second ∈ endings,
      first.toList.reverse.take 5 = second.toList.reverse.take 5 → first = second := by
    decide
  have ending_eq : first = second := by
    apply apart first first_mem second second_mem
    rw [← lasts first_mem left, same, lasts second_mem right]
  subst ending_eq
  exact ⟨String.append_left_inj _ |>.1 same, rfl⟩

open FileTree

variable {batch : Batch} {tree later : FileTree} {place file : Place}

/-- The directory for the reports on a file. -/
def reportDirectory (batch : Batch) (file : Place) : List String :=
  (Path.ofText batch.output).segments ++ file.dropLast

/-- The name of a report on a file. -/
def reportName (file : Place) (ending : String) : String :=
  fileStem (file.getLast?.getD "") ++ ending

/-- The place of a report on a file, for an output path without `..`. -/
def reportPlace (batch : Batch) (file : Place) (ending : String) : Place :=
  spelled (batch.reportDirectory file) ++ [reportName file ending]

theorem reportPath_eq (batch : Batch) (file : Place) (ending : String) :
    batch.reportPath file ending =
      { segments := batch.reportDirectory file ++ [reportName file ending] } := by
  rw [reportPath, Path.below, reportDirectory, List.append_assoc]
  rfl

/-- The places of the reports on a file, with their texts. -/
def placedReports (batch : Batch) (file : Place) (analysis : Analysis) : List (Place × String) :=
  (batch.reports file analysis).map fun report => (spelled report.1.segments, report.2)

/-- What each report on a file says, by the ending of its name. -/
def reportTexts (file : Place) (analysis : Analysis) : List (String × String) :=
  [("_tagged.txt",
      "grammar " ++ fileStem (file.getLast?.getD "") ++ ";\n\n" ++ analysis.grammar.print ++ "\n"),
    ("_info.txt", analysis.report.information)] ++
    (analysis.report.searchInformation?.map ("_tagged_all.txt", ·)).toList

theorem reports_eq (batch : Batch) (file : Place) (analysis : Analysis) :
    batch.reports file analysis =
      (reportTexts file analysis).map fun text => (batch.reportPath file text.1, text.2) := by
  rw [reports, reportTexts]
  cases analysis.report.searchInformation? <;> rfl

theorem map_fst_reportTexts (file : Place) (analysis : Analysis) :
    (reportTexts file analysis).map Prod.fst =
      if analysis.search.isSome then endings else endings.take 2 := by
  cases searched : analysis.search with
  | none =>
      simp [reportTexts, endings, Analysis.report, Report.ofAnalysis, Report.searchInformation?,
        searched]
  | some search =>
      simp [reportTexts, endings, Analysis.report, Report.ofAnalysis, Report.searchInformation?,
        searched]

theorem nodup_reportTexts (file : Place) (analysis : Analysis) :
    ((reportTexts file analysis).map Prod.fst).Nodup := by
  rw [map_fst_reportTexts]
  split <;> decide

theorem ending_mem {analysis : Analysis} {text : String × String}
    (mem : text ∈ reportTexts file analysis) :
    text.1 ∈ endings ∧ (analysis.search = none → text.1 ∈ endings.take 2) := by
  have listed := List.mem_map_of_mem (f := Prod.fst) mem
  rw [map_fst_reportTexts] at listed
  split at listed
  · next searched =>
      exact ⟨listed, fun missing => by simp [missing] at searched⟩
  · exact ⟨List.mem_of_mem_take listed, fun _ => listed⟩

theorem placedReports_eq (batch : Batch) (file : Place) (analysis : Analysis) :
    batch.placedReports file analysis =
      (reportTexts file analysis).map fun text => (batch.reportPlace file text.1, text.2) := by
  rw [placedReports, reports_eq, List.map_map]
  apply List.map_congr_left
  intro text text_mem
  have no_dot := (append_ending_ne (ending_mem text_mem).1 (fileStem (file.getLast?.getD ""))).1
  simp [reportPath_eq, reportPlace, spelled, reportName, no_dot]

/-- Reports with different names, none of them there yet, are all written. -/
theorem adds_writeReports (sound : tree.IsSound) {directory : List String}
    (no_parent : ".." ∉ directory) (parent : tree.hasDirectory (spelled directory))
    {texts : List (String × String)} (nodup : (texts.map Prod.fst).Nodup)
    (proper : ∀ text ∈ texts, text.1 ≠ "." ∧ text.1 ≠ "..")
    (free : ∀ text ∈ texts, tree.entryAt? (spelled directory ++ [text.1]) = none) :
    let written := writeReports tree
      (texts.map fun text => ({ segments := directory ++ [text.1] }, text.2))
    written.2 = true ∧
      tree.Adds [] (texts.map fun text => (spelled directory ++ [text.1], text.2)) written.1 := by
  induction texts generalizing tree with
  | nil => exact ⟨rfl, .refl sound⟩
  | cons text texts ih =>
      rw [List.map_cons, List.nodup_cons] at nodup
      rw [List.forall_mem_cons] at proper free
      have created := sound.create?_of_free no_parent proper.1.1 proper.1.2 parent free.1
        (.file text.2.toUTF8)
      have first := sound.adds_file no_parent proper.1.1 proper.1.2 parent free.1 text.2
      have free_still : ∀ other ∈ texts,
          (tree.withEntry (spelled directory ++ [text.1]) (.file text.2.toUTF8)).entryAt?
            (spelled directory ++ [other.1]) = none := by
        intro other other_mem
        rw [entryAt?_withEntry free.1, if_neg]
        · exact free.2 other other_mem
        · intro same
          have names_eq : other.1 = text.1 := by simpa using same
          exact nodup.1 (names_eq ▸ List.mem_map_of_mem other_mem)
      rcases ih first.sound (first.within.hasDirectory parent) nodup.2 proper.2 free_still with
        ⟨done, more⟩
      simp only [List.map_cons, writeReports, writeNew?, created]
      exact ⟨done, first.trans more⟩

theorem eq_of_reportName_eq {other : Place} {first second : String} (first_mem : first ∈ endings)
    (second_mem : second ∈ endings) (same : reportName file first = reportName other second) :
    fileStem (file.getLast?.getD "") = fileStem (other.getLast?.getD "") ∧ first = second :=
  eq_of_append_ending_eq first_mem second_mem same

/-- The reports on a file are all written when none of them is there. -/
theorem adds_reports (sound : tree.IsSound) (no_parent : ".." ∉ batch.reportDirectory file)
    (parent : tree.hasDirectory (spelled (batch.reportDirectory file))) {analysis : Analysis}
    (free : ∀ text ∈ reportTexts file analysis,
      tree.entryAt? (batch.reportPlace file text.1) = none) :
    (writeReports tree (batch.reports file analysis)).2 = true ∧
      tree.Adds [] (batch.placedReports file analysis)
        (writeReports tree (batch.reports file analysis)).1 := by
  let named := (reportTexts file analysis).map fun text => (reportName file text.1, text.2)
  have reports_named : batch.reports file analysis =
      named.map fun text => ({ segments := batch.reportDirectory file ++ [text.1] }, text.2) := by
    rw [reports_eq, List.map_map]
    exact List.map_congr_left fun text _ => by rw [reportPath_eq]; rfl
  have placed_named : batch.placedReports file analysis =
      named.map fun text => (spelled (batch.reportDirectory file) ++ [text.1], text.2) := by
    rw [placedReports_eq, List.map_map]
    rfl
  rw [reports_named, placed_named]
  apply adds_writeReports sound no_parent parent
  · have names_eq : named.map Prod.fst =
        ((reportTexts file analysis).map Prod.fst).map (reportName file) := by
      rw [List.map_map, List.map_map]
      rfl
    rw [names_eq]
    apply List.Nodup.map_on _ (nodup_reportTexts file analysis)
    intro first first_mem second second_mem same
    rcases List.mem_map.1 first_mem with ⟨text, text_mem, rfl⟩
    rcases List.mem_map.1 second_mem with ⟨other, other_mem, rfl⟩
    exact (eq_of_reportName_eq (ending_mem text_mem).1 (ending_mem other_mem).1 same).2
  · intro text mem
    rcases List.mem_map.1 mem with ⟨original, original_mem, rfl⟩
    exact append_ending_ne (ending_mem original_mem).1 _
  · intro text mem
    rcases List.mem_map.1 mem with ⟨original, original_mem, rfl⟩
    exact free original original_mem

theorem entryAt?_of_contains (sound : tree.IsSound) (no_parent : ".." ∉ batch.reportDirectory file)
    {ending : String} (mem : ending ∈ endings)
    (missing : tree.contains (batch.reportPath file ending) = false) :
    tree.entryAt? (batch.reportPlace file ending) = none := by
  rcases append_ending_ne mem (fileStem (file.getLast?.getD "")) with ⟨no_dot, no_dots⟩
  rw [reportPath_eq] at missing
  exact sound.entryAt?_eq_none no_parent no_dot no_dots missing

/-- Without a search in the settings, two of the reports are looked for and no other is written. -/
theorem entryAt?_reportPlace (sound : tree.IsSound)
    (no_parent : ".." ∉ batch.reportDirectory file)
    (no_tagged : tree.contains (batch.reportPath file "_tagged.txt") = false)
    (no_info : tree.contains (batch.reportPath file "_info.txt") = false)
    (unsearched : batch.settings.bruteForce = true →
      tree.entryAt? (batch.reportPlace file "_tagged_all.txt") = none) (grammar : Grammar) :
    ∀ text ∈ reportTexts file (batch.settings.analyze grammar),
      tree.entryAt? (batch.reportPlace file text.1) = none := by
  have first_two : ∀ ending ∈ endings.take 2,
      tree.entryAt? (batch.reportPlace file ending) = none := by
    have tagged_free := entryAt?_of_contains sound no_parent (by decide) no_tagged
    have info_free := entryAt?_of_contains sound no_parent (by decide) no_info
    simp only [endings, List.take, List.forall_mem_cons]
    exact ⟨tagged_free, info_free, List.forall_mem_nil _⟩
  intro text mem
  rcases ending_mem mem with ⟨listed, listed_unsearched⟩
  cases searches : batch.settings.bruteForce with
  | true =>
      have all_three : ∀ ending ∈ endings,
          tree.entryAt? (batch.reportPlace file ending) = none := by
        rw [← List.take_append_drop 2 endings, List.forall_mem_append]
        exact ⟨first_two, List.forall_mem_singleton.2 (unsearched searches)⟩
      exact all_three text.1 listed
  | false =>
      have no_search : (batch.settings.analyze grammar).search = none := by
        simp [Settings.analyze, Settings.validate, searches]
      exact first_two text.1 (listed_unsearched no_search)

/-- What a visit to a file counts, and what it adds. -/
theorem process_cases (place : Place) (sound : tree.IsSound)
    (no_parent : ".." ∉ batch.reportDirectory file)
    (unsearched : batch.settings.bruteForce = true →
      tree.entryAt? (batch.reportPlace file "_tagged_all.txt") = none) :
    ((batch.process tree place file).2 = .ofSkipped ∧
      tree.Adds [spelled (batch.reportDirectory file)] [] (batch.process tree place file).1) ∨
    ∃ grammar, grammarAt? tree place file = some grammar ∧
      (batch.process tree place file).2 = .ofAnalysis (batch.settings.analyze grammar) ∧
      tree.Adds [spelled (batch.reportDirectory file)]
        (batch.placedReports file (batch.settings.analyze grammar))
        (batch.process tree place file).1 := by
  unfold process
  split
  · exact .inl ⟨rfl, .refl sound⟩
  · next unreported =>
      simp only [Bool.or_eq_true, not_or, Bool.not_eq_true] at unreported
      rcases unreported with ⟨⟨_, no_tagged⟩, no_info⟩
      split
      · exact .inl ⟨rfl, .refl sound⟩
      · next grammar found =>
          have made := adds_ensureDirectories sound no_parent
          have below_eq : (Path.ofText batch.output).below file.dropLast =
            { segments := batch.reportDirectory file } := rfl
          unfold report
          rw [below_eq]
          dsimp only
          split
          · next ready =>
              have parent := hasDirectory_ensureDirectories sound no_parent ready
              rcases adds_reports made.sound no_parent parent fun text mem =>
                made.entryAt?_eq_none (entryAt?_reportPlace sound no_parent no_tagged no_info
                  unsearched grammar text mem) with ⟨written, adds⟩
              refine .inr ⟨grammar, found, ?_, made.trans adds⟩
              rw [if_pos written]
          · left
            dsimp only
            rw [if_neg Bool.false_ne_true]
            exact ⟨rfl, made⟩

section Order

variable {first second third : Place}

theorem precedes_append (common left right : Place) :
    precedes (common ++ left) (common ++ right) = precedes left right := by
  induction common with
  | nil => rfl
  | cons name common ih => simp [precedes, ih]

theorem precedes_total (left right : Place) : precedes left right ∨ precedes right left := by
  induction left generalizing right with
  | nil => exact .inl rfl
  | cons name left ih =>
      cases right with
      | nil => exact .inr rfl
      | cons other right =>
          simp only [precedes, Bool.or_eq_true, Bool.and_eq_true, decide_eq_true_eq]
          rcases lt_trichotomy name other with less | same | more
          · exact .inl (.inl less)
          · exact (ih right).imp (fun before => .inr ⟨same, before⟩)
              fun behind => .inr ⟨same.symm, behind⟩
          · exact .inr (.inl more)

theorem precedes_trans (before : precedes first second) (behind : precedes second third) :
    precedes first third := by
  induction first generalizing second third with
  | nil => rfl
  | cons name first ih =>
      cases second with
      | nil => cases before
      | cons middle second =>
          cases third with
          | nil => cases behind
          | cons last third =>
              simp only [precedes, Bool.or_eq_true, Bool.and_eq_true, decide_eq_true_eq]
                at before behind ⊢
              rcases before with less | ⟨rfl, before⟩
              · rcases behind with more | ⟨rfl, _⟩
                · exact .inl (less.trans more)
                · exact .inl less
              · rcases behind with more | ⟨rfl, behind⟩
                · exact .inl more
                · exact .inr ⟨rfl, ih before behind⟩

/-- A grammar file comes before what is in a directory that is named like its search report. -/
theorem not_precedes_of_reportName (directory : Place) (stem : String) (below : Place) :
    ¬precedes (directory ++ (stem ++ "_tagged_all.txt") :: below)
      (directory ++ [stem ++ ".g4"]) := by
  have less : stem ++ ".g4" < stem ++ "_tagged_all.txt" := by
    rw [String.lt_iff_toList_lt, String.toList_append, String.toList_append]
    exact List.append_left_lt (by decide)
  rw [precedes_append]
  simp [precedes, less.not_gt, less.ne']

end Order

section GrammarFiles

theorem map_filesBelow_sublist (tree : FileTree) (place : Place) :
    ((tree.filesBelow place).map (place ++ ·)).Sublist (tree.entries.map Prod.fst) := by
  rw [filesBelow]
  induction tree.entries with
  | nil => exact .slnil
  | cons entry entries ih =>
      rcases entry with ⟨found, _ | content⟩
      · exact ih.cons found
      · rw [List.filterMap_cons]
        by_cases above : place.isPrefixOf found
        · have found_eq : place ++ found.drop place.length = found := by
            rcases List.isPrefixOf_iff_prefix.1 above with ⟨rest, rfl⟩
            simp
          simp only [above, if_true, List.map_cons, found_eq]
          exact ih.cons_cons found
        · simp only [above, Bool.false_eq_true, if_false]
          exact ih.cons found

theorem exists_entry_of_mem_grammarFiles (mem : file ∈ grammarFiles tree place) :
    isGrammarFile file ∧ ∃ entry ∈ tree.entries, entry.1 = place ++ file := by
  rw [grammarFiles, mem_sort, List.mem_filter] at mem
  refine ⟨mem.2, ?_⟩
  have listed := (map_filesBelow_sublist tree place).subset (List.mem_map_of_mem mem.1)
  exact List.mem_map.1 listed

theorem no_dots_of_mem_grammarFiles (sound : tree.IsSound) (mem : file ∈ grammarFiles tree place) :
    "." ∉ file ∧ ".." ∉ file := by
  rcases (exists_entry_of_mem_grammarFiles mem).2 with ⟨entry, entry_mem, entry_eq⟩
  have no_dots := sound.no_dots entry entry_mem
  rw [entry_eq, List.mem_append, List.mem_append, not_or, not_or] at no_dots
  exact ⟨no_dots.1.2, no_dots.2.2⟩

/-- A grammar file is its directory and its stem. -/
theorem eq_append_of_isGrammarFile (grammar_file : isGrammarFile file) :
    file = file.dropLast ++ [fileStem (file.getLast?.getD "") ++ ".g4"] := by
  have extension_eq := eq_fileStem_append (of_decide_eq_true grammar_file)
  cases last : file.getLast? with
  | none =>
      rw [isGrammarFile, last] at grammar_file
      exact absurd grammar_file (by decide)
  | some name =>
      rw [last] at extension_eq
      rcases List.getLast?_eq_some_iff.1 last with ⟨directory, rfl⟩
      rw [List.dropLast_concat]
      exact congrArg (directory ++ [·]) extension_eq

theorem nodup_grammarFiles (sound : tree.IsSound) (place : Place) :
    (grammarFiles tree place).Nodup := by
  rw [grammarFiles, (sort_perm _ _).nodup_iff]
  apply List.Nodup.filter
  exact .of_map _ (sound.nodup.sublist (map_filesBelow_sublist tree place))

theorem spelled_reportDirectory (sound : tree.IsSound) (mem : file ∈ grammarFiles tree place) :
    spelled (batch.reportDirectory file) =
      spelled (Path.ofText batch.output).segments ++ file.dropLast := by
  have no_dot := (no_dots_of_mem_grammarFiles sound mem).1
  rw [reportDirectory, spelled_append]
  congr 1
  apply List.filter_eq_self.2
  intro name name_mem
  apply decide_eq_true
  rintro rfl
  exact no_dot (List.dropLast_subset _ name_mem)

theorem no_parent_reportDirectory (sound : tree.IsSound)
    (no_parent : ".." ∉ (Path.ofText batch.output).segments)
    (mem : file ∈ grammarFiles tree place) : ".." ∉ batch.reportDirectory file := by
  rw [reportDirectory, List.mem_append, not_or]
  refine ⟨no_parent, ?_⟩
  intro parent_mem
  exact (no_dots_of_mem_grammarFiles sound mem).2 (List.dropLast_subset _ parent_mem)

end GrammarFiles

section Run

/-- The file tree when a batch has visited some files. -/
def treeAfter (batch : Batch) (place : Place) (tree : FileTree) (files : List Place) : FileTree :=
  files.foldl (fun tree file => (batch.process tree place file).1) tree

/-- The analysis that a visit to a file counts, unless the file is skipped. -/
def counted? (batch : Batch) (place : Place) (tree : FileTree) (file : Place) : Option Analysis :=
  if (batch.process tree place file).2 = .ofSkipped then none
  else (grammarAt? tree place file).map batch.settings.analyze

/-- The files that are not skipped, with their analyses. -/
def processed (batch : Batch) (place : Place) : FileTree → List Place → List (Place × Analysis)
  | _, [] => []
  | tree, file :: files =>
    ((batch.counted? place tree file).map (file, ·)).toList ++
      processed batch place (batch.process tree place file).1 files

/-- The reports on some files, at their places. -/
def placedReportsOf (batch : Batch) (files : List (Place × Analysis)) : List (Place × String) :=
  files.flatMap fun entry => batch.placedReports entry.1 entry.2

theorem treeAfter_concat (batch : Batch) (place : Place) (tree : FileTree) (files : List Place)
    (file : Place) : batch.treeAfter place tree (files ++ [file]) =
      (batch.process (batch.treeAfter place tree files) place file).1 := by
  rw [treeAfter, List.foldl_append]
  rfl

theorem processed_concat (batch : Batch) (place : Place) (tree : FileTree) (files : List Place)
    (file : Place) : batch.processed place tree (files ++ [file]) =
      batch.processed place tree files ++
        ((batch.counted? place (batch.treeAfter place tree files) file).map (file, ·)).toList := by
  induction files generalizing tree with
  | nil => simp [processed, treeAfter]
  | cons first files ih =>
      rw [List.cons_append, processed, ih, processed, List.append_assoc]
      rfl

theorem fst_mem_of_mem_processed {files : List Place} {entry : Place × Analysis}
    (mem : entry ∈ batch.processed place tree files) : entry.1 ∈ files := by
  induction files generalizing tree with
  | nil => cases mem
  | cons file files ih =>
      rw [processed, List.mem_append] at mem
      rcases mem with now | later
      · rcases Option.map_eq_some_iff.1 (Option.mem_toList.1 now) with ⟨_, _, rfl⟩
        exact List.mem_cons_self
      · exact List.mem_cons_of_mem file (ih later)

theorem exists_of_mem_placedReportsOf {files : List Place} {text : Place × String}
    (mem : text ∈ batch.placedReportsOf (batch.processed place tree files)) :
    ∃ other ∈ files, ∃ ending ∈ endings, batch.reportPlace other ending = text.1 := by
  rcases List.mem_flatMap.1 mem with ⟨⟨other, analysis⟩, processed_mem, placed_mem⟩
  rw [placedReports_eq] at placed_mem
  rcases List.mem_map.1 placed_mem with ⟨original, original_mem, rfl⟩
  exact ⟨other, fst_mem_of_mem_processed processed_mem, original.1, (ending_mem original_mem).1,
    rfl⟩

theorem ofAnalysis_ne_ofSkipped (analysis : Analysis) :
    Summary.ofAnalysis analysis ≠ .ofSkipped := by
  intro same
  cases congrArg Summary.processed same

theorem process_snd_cases (batch : Batch) (place : Place) (tree : FileTree) (file : Place) :
    ((batch.process tree place file).2 = .ofSkipped ∧ batch.counted? place tree file = none) ∨
      ∃ analysis, (batch.process tree place file).2 = .ofAnalysis analysis ∧
        batch.counted? place tree file = some analysis := by
  by_cases skipped : (batch.process tree place file).2 = .ofSkipped
  · exact .inl ⟨skipped, if_pos skipped⟩
  · right
    rw [counted?, if_neg skipped]
    unfold process at skipped ⊢
    split at skipped
    · exact absurd rfl skipped
    · next reported =>
        split at skipped
        · exact absurd rfl skipped
        · next grammar found =>
            rw [if_neg reported, found]
            refine ⟨_, ?_, rfl⟩
            dsimp only at skipped ⊢
            split
            · rfl
            · next unwritten => exact absurd (if_neg unwritten) skipped

theorem adds_process (place : Place) (sound : tree.IsSound)
    (no_parent : ".." ∉ batch.reportDirectory file)
    (unsearched : batch.settings.bruteForce = true →
      tree.entryAt? (batch.reportPlace file "_tagged_all.txt") = none) :
    tree.Adds [spelled (batch.reportDirectory file)]
      (batch.placedReportsOf ((batch.counted? place tree file).map (file, ·)).toList)
      (batch.process tree place file).1 := by
  rcases process_cases place sound no_parent unsearched with
    ⟨skipped, adds⟩ | ⟨grammar, found, counted, adds⟩
  · rw [counted?, if_pos skipped]
    exact adds
  · rw [counted?, if_neg (counted ▸ ofAnalysis_ne_ofSkipped _), found]
    simpa [placedReportsOf] using adds

/--
Whether nothing is in the way of reports that is not looked for: the file tree is sound, the output
path has no `..`, and if there is a search no outcome of one stands where it is to be written.
-/
structure IsUnhindered (batch : Batch) (place : Place) (tree : FileTree) : Prop where
  sound : tree.IsSound
  no_parent : ".." ∉ (Path.ofText batch.output).segments
  unsearched : batch.settings.bruteForce = true → ∀ file ∈ grammarFiles tree place,
    tree.contains (batch.reportPath file "_tagged_all.txt") = false

namespace IsUnhindered

variable {before after : List Place} (unhindered : batch.IsUnhindered place tree)

include unhindered

theorem no_parent_reportDirectory (mem : file ∈ grammarFiles tree place) :
    ".." ∉ batch.reportDirectory file :=
  Batch.no_parent_reportDirectory unhindered.sound unhindered.no_parent mem

/-- Different files have their reports at different places. -/
theorem eq_of_reportPlace_eq {other : Place} (mem : file ∈ grammarFiles tree place)
    (other_mem : other ∈ grammarFiles tree place) {first second : String}
    (first_mem : first ∈ endings) (second_mem : second ∈ endings)
    (same : batch.reportPlace file first = batch.reportPlace other second) : file = other := by
  rw [reportPlace, reportPlace, spelled_reportDirectory unhindered.sound mem,
    spelled_reportDirectory unhindered.sound other_mem, List.append_assoc, List.append_assoc,
    List.append_cancel_left_eq] at same
  rcases List.append_inj' same rfl with ⟨directory_eq, name_eq⟩
  have stem_eq := (eq_of_reportName_eq first_mem second_mem (List.singleton_inj.1 name_eq)).1
  rw [eq_append_of_isGrammarFile (exists_entry_of_mem_grammarFiles mem).1,
    eq_append_of_isGrammarFile (exists_entry_of_mem_grammarFiles other_mem).1,
    directory_eq, stem_eq]

theorem ne_of_visited {other : Place} (split : grammarFiles tree place = before ++ file :: after)
    (visited : other ∈ before) : other ≠ file := by
  have nodup := nodup_grammarFiles unhindered.sound place
  rw [split, List.nodup_append] at nodup
  exact nodup.2.2 other visited file List.mem_cons_self

omit unhindered in
theorem precedes_of_visited {other : Place}
    (split : grammarFiles tree place = before ++ file :: after) (visited : other ∈ before) :
    precedes other file := by
  have sorted := pairwise_sort precedes_total precedes_trans
    ((tree.filesBelow place).filter isGrammarFile)
  rw [← grammarFiles, split, List.pairwise_append] at sorted
  exact sorted.2.2 other visited file List.mem_cons_self

/-- No file with reports in a directory named like the search report comes before. -/
theorem not_above_reportDirectory {other : Place}
    (split : grammarFiles tree place = before ++ file :: after) (visited : other ∈ before) :
    ¬batch.reportPlace file "_tagged_all.txt" <+: spelled (batch.reportDirectory other) := by
  intro above
  have mem : file ∈ grammarFiles tree place := by simp [split]
  have other_mem : other ∈ grammarFiles tree place := by simp [split, visited]
  rw [reportPlace, spelled_reportDirectory unhindered.sound mem,
    spelled_reportDirectory unhindered.sound other_mem, List.append_assoc,
    List.prefix_append_right_inj] at above
  rcases above.trans (List.dropLast_prefix other) with ⟨below, other_eq⟩
  have earlier := precedes_of_visited split visited
  have file_eq := eq_append_of_isGrammarFile (exists_entry_of_mem_grammarFiles mem).1
  rw [← other_eq, reportName, List.append_assoc] at earlier
  generalize fileStem (file.getLast?.getD "") = stem at file_eq earlier
  rw [file_eq, List.dropLast_concat] at earlier
  exact not_precedes_of_reportName _ _ _ earlier

/-- What came before a file in the batch has not taken the place of its search report. -/
theorem entryAt?_searchReport (split : grammarFiles tree place = before ++ file :: after)
    (adds : tree.Adds (before.map fun other => spelled (batch.reportDirectory other))
      (batch.placedReportsOf (batch.processed place tree before)) later)
    (searches : batch.settings.bruteForce = true) :
    later.entryAt? (batch.reportPlace file "_tagged_all.txt") = none := by
  have mem : file ∈ grammarFiles tree place := by simp [split]
  by_contra there
  rcases Option.ne_none_iff_exists'.1 there with ⟨entry, found⟩
  rcases adds.new _ _ found with
    old | ⟨_, directory, directory_mem, above⟩ | ⟨text, text_mem, same, _⟩
  · have absent := unhindered.unsearched searches file mem
    rw [entryAt?_of_contains unhindered.sound (unhindered.no_parent_reportDirectory mem)
      (by decide) absent] at old
    cases old
  · rcases List.mem_map.1 directory_mem with ⟨other, visited, rfl⟩
    exact unhindered.not_above_reportDirectory split visited above
  · rcases exists_of_mem_placedReportsOf text_mem with ⟨other, visited, ending, listed, place_eq⟩
    have other_mem : other ∈ grammarFiles tree place := by
      rw [split]
      exact List.mem_append_left _ visited
    exact unhindered.ne_of_visited split visited (unhindered.eq_of_reportPlace_eq other_mem mem
      listed (by decide) (place_eq.trans same))

theorem adds_treeAfter (split : grammarFiles tree place = before ++ after) :
    tree.Adds (before.map fun file => spelled (batch.reportDirectory file))
      (batch.placedReportsOf (batch.processed place tree before))
      (batch.treeAfter place tree before) := by
  induction before using List.reverseRecOn generalizing after with
  | nil => exact .refl unhindered.sound
  | append_singleton before file ih =>
      rw [List.append_assoc, List.singleton_append] at split
      have adds := ih split
      have mem : file ∈ grammarFiles tree place := by simp [split]
      have visit := adds_process place adds.sound (unhindered.no_parent_reportDirectory mem)
        (unhindered.entryAt?_searchReport split adds)
      rw [treeAfter_concat, processed_concat, placedReportsOf, List.flatMap_append, List.map_append]
      exact adds.trans visit

/-- A file that is skipped adds directories at most. -/
theorem eq_of_skipped (split : grammarFiles tree place = before ++ file :: after)
    (skipped : (batch.process (batch.treeAfter place tree before) place file).2 = .ofSkipped)
    {found : Place} {content : ByteArray}
    (there : (batch.treeAfter place tree (before ++ [file])).entryAt? found =
      some (.file content)) :
    (batch.treeAfter place tree before).entryAt? found = some (.file content) := by
  have adds := unhindered.adds_treeAfter split
  have mem : file ∈ grammarFiles tree place := by simp [split]
  have visit := adds_process place adds.sound (unhindered.no_parent_reportDirectory mem)
    (unhindered.entryAt?_searchReport split adds)
  rw [counted?, if_pos skipped] at visit
  rw [treeAfter_concat] at there
  rcases visit.new _ _ there with old | ⟨directory, _⟩ | ⟨_, none_mem, _⟩
  · exact old
  · cases directory
  · cases none_mem

/-- The path of a report that is there leads to its place. -/
theorem locate?_reportPath (sound : later.IsSound) (mem : file ∈ grammarFiles tree place)
    {ending : String} (listed : ending ∈ endings)
    (there : (later.entryAt? (batch.reportPlace file ending)).isSome) :
    later.locate? (batch.reportPath file ending) = some (batch.reportPlace file ending) := by
  rcases append_ending_ne listed (fileStem (file.getLast?.getD "")) with ⟨no_dot, no_dots⟩
  rw [reportPath_eq]
  exact sound.locate?_of_there (unhindered.no_parent_reportDirectory mem) no_dot no_dots there

/-- The new files are the reports on the files that are not skipped. -/
theorem new_files_iff {found : Place} {content : ByteArray} :
    let files := grammarFiles tree place
    let final := batch.treeAfter place tree files
    (final.entryAt? found = some (.file content) ∧ tree.entryAt? found = none) ↔
      ∃ entry ∈ batch.processed place tree files, ∃ report ∈ batch.reports entry.1 entry.2,
        final.locate? report.1 = some found ∧ content = report.2.toUTF8 := by
  intro files final
  have adds : tree.Adds _ (batch.placedReportsOf (batch.processed place tree files)) final :=
    unhindered.adds_treeAfter (List.append_nil files).symm
  constructor
  · rintro ⟨there, absent⟩
    rcases adds.new _ _ there with old | ⟨directory, _⟩ | ⟨text, text_mem, place_eq, content_eq⟩
    · rw [absent] at old
      cases old
    · cases directory
    · rcases List.mem_flatMap.1 text_mem with ⟨entry, entry_mem, placed_mem⟩
      rw [placedReports_eq] at placed_mem
      rcases List.mem_map.1 placed_mem with ⟨original, original_mem, rfl⟩
      subst place_eq
      refine ⟨entry, entry_mem, (batch.reportPath entry.1 original.1, original.2), ?_, ?_, ?_⟩
      · rw [reports_eq]
        exact List.mem_map_of_mem original_mem
      · exact unhindered.locate?_reportPath adds.sound (fst_mem_of_mem_processed entry_mem)
          (ending_mem original_mem).1 (by rw [there]; rfl)
      · cases content_eq
        rfl
  · rintro ⟨entry, entry_mem, report, report_mem, located, rfl⟩
    rw [reports_eq] at report_mem
    rcases List.mem_map.1 report_mem with ⟨original, original_mem, rfl⟩
    have placed_mem : (batch.reportPlace entry.1 original.1, original.2) ∈
        batch.placedReportsOf (batch.processed place tree files) := by
      refine List.mem_flatMap.2 ⟨entry, entry_mem, ?_⟩
      rw [placedReports_eq]
      exact List.mem_map_of_mem original_mem
    rcases adds.written _ placed_mem with ⟨absent, there⟩
    rw [unhindered.locate?_reportPath adds.sound (fst_mem_of_mem_processed entry_mem)
      (ending_mem original_mem).1 (by rw [there]; rfl)] at located
    cases located
    exact ⟨there, absent⟩

end IsUnhindered

theorem isWithin_writeReports (tree : FileTree) (reports : List (Path × String)) :
    tree.IsWithin (writeReports tree reports).1 := by
  induction reports generalizing tree with
  | nil => exact .refl tree
  | cons report reports ih =>
      rw [writeReports]
      split
      · next created => exact (isWithin_create? created).trans (ih _)
      · exact .refl tree

theorem isWithin_process (batch : Batch) (place : Place) (tree : FileTree) (file : Place) :
    tree.IsWithin (batch.process tree place file).1 := by
  have ensured := tree.isWithin_ensureDirectories
    ((Path.ofText batch.output).below file.dropLast)
  unfold process
  split
  · exact .refl tree
  · split
    · exact .refl tree
    · unfold report
      dsimp only
      split
      · exact ensured.trans (isWithin_writeReports _ _)
      · dsimp only
        exact ensured

theorem isWithin_treeAfter (batch : Batch) (place : Place) (tree : FileTree) (files : List Place) :
    tree.IsWithin (batch.treeAfter place tree files) := by
  induction files generalizing tree with
  | nil => exact .refl tree
  | cons file files ih => exact (batch.isWithin_process place tree file).trans (ih _)

/-- A visit counts its file once. -/
theorem process_counts (batch : Batch) (place : Place) (tree : FileTree) (file : Place) :
    (batch.process tree place file).2.processed =
        ((batch.counted? place tree file).map (file, ·)).toList.length ∧
      (batch.process tree place file).2.skipped + (batch.process tree place file).2.processed =
        1 := by
  rcases batch.process_snd_cases place tree file with
    ⟨skipped, counted⟩ | ⟨analysis, analysed, counted⟩
  · rw [skipped, counted]
    exact ⟨rfl, rfl⟩
  · rw [analysed, counted]
    exact ⟨rfl, rfl⟩

/-- Visits to some files in turn count each of them once. -/
theorem foldl_process (batch : Batch) (place : Place) (files : List Place)
    (state : FileTree × Summary) :
    let last := files.foldl (fun state file =>
      ((batch.process state.1 place file).1, state.2.add (batch.process state.1 place file).2))
      state
    last.1 = batch.treeAfter place state.1 files ∧
      last.2.processed = state.2.processed + (batch.processed place state.1 files).length ∧
      last.2.skipped + last.2.processed =
        state.2.skipped + state.2.processed + files.length := by
  induction files generalizing state with
  | nil => exact ⟨rfl, rfl, rfl⟩
  | cons file files ih =>
      rcases ih ((batch.process state.1 place file).1,
        state.2.add (batch.process state.1 place file).2) with ⟨tree_eq, processed_eq, total_eq⟩
      rcases batch.process_counts place state.1 file with ⟨now_processed, now_total⟩
      rw [List.foldl_cons, processed, List.length_append, List.length_cons]
      simp only [Summary.add] at processed_eq total_eq tree_eq ⊢
      refine ⟨tree_eq, ?_, ?_⟩
      · omega
      · omega

/-- A batch visits the grammar files one after the other. -/
theorem run_eq_ok {final : FileTree} {summary : Summary}
    (ran : batch.run tree = .ok (final, summary)) :
    ∃ place, tree.locate? (Path.ofText batch.input) = some place ∧
      final = batch.treeAfter place tree (grammarFiles tree place) ∧
      summary.processed = (batch.processed place tree (grammarFiles tree place)).length ∧
      summary.skipped + summary.processed = (grammarFiles tree place).length := by
  unfold run at ran
  dsimp only at ran
  split at ran
  · next place located =>
      split at ran
      · have visited := batch.foldl_process place (grammarFiles tree place) (tree, {})
        dsimp only at visited
        rw [Except.ok.inj ran] at visited
        rcases visited with ⟨tree_eq, processed_eq, total_eq⟩
        refine ⟨place, located, tree_eq, ?_, ?_⟩
        · rw [processed_eq]
          exact Nat.zero_add _
        · rw [total_eq]
          exact Nat.zero_add _
      · cases ran
  · cases ran

/--
A batch changes nothing that is there. If nothing is in the way of reports that is not looked for,
a file that is skipped adds no file, and the new files are the reports on the processed ones.
-/
theorem reports_run {final : FileTree} {summary : Summary}
    (ran : batch.run tree = .ok (final, summary)) :
    (∀ place entry, tree.entryAt? place = some entry → final.entryAt? place = some entry) ∧
    ∃ place, tree.locate? (Path.ofText batch.input) = some place ∧
      let files := grammarFiles tree place
      let processed := batch.processed place tree files
      summary.processed = processed.length ∧
      summary.skipped + summary.processed = files.length ∧
      (batch.IsUnhindered place tree →
        (∀ before file after, files = before ++ file :: after →
          (batch.process (batch.treeAfter place tree before) place file).2 = .ofSkipped →
          ∀ found content,
            (batch.treeAfter place tree (before ++ [file])).entryAt? found = some (.file content) →
            (batch.treeAfter place tree before).entryAt? found = some (.file content)) ∧
        ∀ found content,
          (final.entryAt? found = some (.file content) ∧ tree.entryAt? found = none) ↔
            ∃ entry ∈ processed, ∃ report ∈ batch.reports entry.1 entry.2,
              final.locate? report.1 = some found ∧ content = report.2.toUTF8) := by
  rcases run_eq_ok ran with ⟨place, located, rfl, processed_eq, total_eq⟩
  refine ⟨batch.isWithin_treeAfter place tree _, place, located, processed_eq, total_eq, ?_⟩
  intro unhindered
  refine ⟨?_, ?_⟩
  · intro before file after split skipped found content there
    exact unhindered.eq_of_skipped split skipped there
  · exact fun found content => unhindered.new_files_iff

theorem exists_eq_ok {α β : Type} {result : Except BatchError α} {view : α → β} {value : β}
    (computed : (result.map view).toOption = some value) :
    ∃ answer, result = .ok answer ∧ view answer = value := by
  cases result with
  | error => cases computed
  | ok answer => exact ⟨answer, rfl, Option.some.inj computed⟩

/-- A directory with one grammar, and a search for its tagging. -/
def searching : Batch where
  input := "in"
  output := "out"
  settings := { bruteForce := true }

/-- The directory that is searched, with further entries next to it. -/
def parentheses (others : List (Place × FileEntry)) : FileTree where
  entries := [(["in"], .directory),
    (["in", "Parens.g4"], .file "grammar Parens;\ns : '(' s ')' | ;\n".toUTF8)] ++ others

/-- The directory that is searched comes of adding its grammar. -/
theorem isSound_parentheses : (parentheses []).IsSound :=
  FileTree.isSound_empty.addFile (.ofText "in/Parens.g4")
    "grammar Parens;\ns : '(' s ')' | ;\n".toUTF8

theorem reports_run_searching :
    searching.IsUnhindered ["in"] (parentheses []) ∧
      ∃ final summary, searching.run (parentheses []) = .ok (final, summary) ∧
        summary.processed = 1 ∧
        ∀ found content,
          (final.entryAt? found = some (.file content) ∧
            (parentheses []).entryAt? found = none) ↔
          ∃ entry ∈ searching.processed ["in"] (parentheses []) [["Parens.g4"]],
            ∃ report ∈ searching.reports entry.1 entry.2,
              final.locate? report.1 = some found ∧ content = report.2.toUTF8 := by
  have unhindered : searching.IsUnhindered ["in"] (parentheses []) :=
    ⟨isSound_parentheses, by decide, by decide⟩
  have counted : ((searching.run (parentheses [])).map (·.2.processed)).toOption = some 1 := by
    decide +kernel
  rcases exists_eq_ok counted with ⟨⟨final, summary⟩, ran, processed_eq⟩
  rcases reports_run ran with ⟨_, place, located, _, _, atomic⟩
  have place_eq : (parentheses []).locate? (Path.ofText searching.input) = some ["in"] := by
    decide
  have files_eq : grammarFiles (parentheses []) ["in"] = [["Parens.g4"]] := by decide +kernel
  cases place_eq.symm.trans located
  have new_files := (atomic unhindered).2
  rw [files_eq] at new_files
  exact ⟨unhindered, final, summary, ran, processed_eq, new_files⟩

/-- What is seen of a run in which the only file is skipped after a report on it was written. -/
theorem exists_report_of_skipped (batch : Batch) (tree : FileTree) (path : String)
    (computed : ((batch.run tree).map fun result =>
      (result.2.skipped, result.2.processed, result.1.contains (.ofText path))).toOption =
        some (1, 0, true)) :
    ∃ final summary, batch.run tree = .ok (final, summary) ∧ summary.skipped = 1 ∧
      summary.processed = 0 ∧ final.contains (.ofText path) = true := by
  rcases exists_eq_ok computed with ⟨⟨final, summary⟩, ran, view_eq⟩
  simp only [Prod.mk.injEq] at view_eq
  exact ⟨final, summary, ran, view_eq⟩

/-- An outcome of a search that is there is noticed only after the other reports are written. -/
theorem report_of_skipped_searching :
    let tree := parentheses [(["out"], .directory),
      (["out", "Parens_tagged_all.txt"], .file "kept".toUTF8)]
    ∃ final summary, searching.run tree = .ok (final, summary) ∧
      summary.skipped = 1 ∧ summary.processed = 0 ∧
      tree.contains (.ofText "out/Parens_tagged.txt") = false ∧
      final.contains (.ofText "out/Parens_tagged.txt") = true := by
  intro tree
  have absent : tree.contains (.ofText "out/Parens_tagged.txt") = false := by decide +kernel
  rcases exists_report_of_skipped searching tree "out/Parens_tagged.txt" (by decide +kernel)
    with ⟨final, summary, ran, skipped_eq, processed_eq, there⟩
  exact ⟨final, summary, ran, skipped_eq, processed_eq, absent, there⟩

/-- Making `a` uncovers `a/../b`, with a report that was looked for in vain. -/
theorem report_of_skipped_uncovering :
    let batch : Batch := { input := "in", output := "a/../b", settings := {} }
    let tree := parentheses [(["b"], .directory), (["b", "Parens_info.txt"], .file "kept".toUTF8)]
    ∃ final summary, batch.run tree = .ok (final, summary) ∧
      summary.skipped = 1 ∧ summary.processed = 0 ∧
      tree.contains (.ofText "b/Parens_tagged.txt") = false ∧
      final.contains (.ofText "b/Parens_tagged.txt") = true := by
  intro batch tree
  have absent : tree.contains (.ofText "b/Parens_tagged.txt") = false := by decide +kernel
  rcases exists_report_of_skipped batch tree "b/Parens_tagged.txt" (by decide +kernel)
    with ⟨final, summary, ran, skipped_eq, processed_eq, there⟩
  exact ⟨final, summary, ran, skipped_eq, processed_eq, absent, there⟩

end Run

end Batch

end VisiblyPushdown
