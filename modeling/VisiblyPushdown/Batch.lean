import VisiblyPushdown.Files.Load
import VisiblyPushdown.Report
import VisiblyPushdown.Sorting

/-!
# Batches

A batch analyses every grammar source file below a directory, each on its own, and writes its
reports to the same place below another directory: the tagged grammar, the information text and,
when the tagging was searched for, the outcome of the search. A file that cannot be analysed, or
whose reports cannot be written, is skipped and the batch goes on. Nothing that is there is ever
replaced.
-/

namespace VisiblyPushdown

/-- The counts of a batch. -/
structure Summary where
  total : Nat := 0
  skipped : Nat := 0
  processed : Nat := 0
  leftRecursive : Nat := 0
  tagged : Nat := 0
  taggedLeftRecursive : Nat := 0
  valid : Nat := 0
  validTagged : Nat := 0
  validTaggedLeftRecursive : Nat := 0
  tooLarge : Nat := 0
  searchDisagreements : Nat := 0
deriving DecidableEq, Repr

namespace Summary

/-- Adds two summaries, count by count. -/
def add (left right : Summary) : Summary where
  total := left.total + right.total
  skipped := left.skipped + right.skipped
  processed := left.processed + right.processed
  leftRecursive := left.leftRecursive + right.leftRecursive
  tagged := left.tagged + right.tagged
  taggedLeftRecursive := left.taggedLeftRecursive + right.taggedLeftRecursive
  valid := left.valid + right.valid
  validTagged := left.validTagged + right.validTagged
  validTaggedLeftRecursive := left.validTaggedLeftRecursive + right.validTaggedLeftRecursive
  tooLarge := left.tooLarge + right.tooLarge
  searchDisagreements := left.searchDisagreements + right.searchDisagreements

/-- The summary of a file that was skipped. -/
def ofSkipped : Summary where
  total := 1
  skipped := 1

/-- The summary of a file that was analysed. -/
def ofAnalysis (analysis : Analysis) : Summary :=
  let count (condition : Bool) : Nat := if condition then 1 else 0
  let recursive := analysis.hadLeftRecursion
  let tagged := analysis.isTagged
  let valid := analysis.isVisiblyPushdown
  { total := 1
    processed := 1
    leftRecursive := count recursive
    tagged := count tagged
    taggedLeftRecursive := count (tagged && recursive)
    valid := count valid
    validTagged := count (tagged && valid)
    validTaggedLeftRecursive := count (tagged && valid && recursive)
    tooLarge := count (analysis.verdict = .tooLarge)
    searchDisagreements := count (analysis.search.any fun search => !search.agrees) }

/-- The counts with their headings, one a line. -/
def text (summary : Summary) : String :=
  let line (heading : String) (count : Nat) : String := heading ++ ": " ++ toString count ++ "\n"
  line "Total number of .g4 files" summary.total ++
    line "Skipped files" summary.skipped ++
    line "Processed files" summary.processed ++
    line "Grammars with left recursion" summary.leftRecursive ++
    line "Tagged grammars" summary.tagged ++
    line "Tagged grammars with left recursion" summary.taggedLeftRecursive ++
    line "Valid grammars" summary.valid ++
    line "Valid tagged grammars" summary.validTagged ++
    line "Valid tagged grammars with left recursion" summary.validTaggedLeftRecursive ++
    line "Too large" summary.tooLarge ++
    line "Oracle disagreements" summary.searchDisagreements

end Summary

/-- Why a batch cannot start. -/
inductive BatchError where
  | notADirectory (path : String)
deriving DecidableEq, Repr

namespace BatchError

/-- The wording of the error. -/
def message : BatchError → String
  | notADirectory path => s!"'{path}' is not a directory"

end BatchError

/-- Where a batch reads, where it writes and what it does. -/
structure Batch where
  input : String
  output : String
  settings : Settings
deriving DecidableEq, Repr

namespace Batch

/-- Whether a file holds grammar source text by its name. -/
def isGrammarFile (place : Place) : Bool :=
  fileExtension? (place.getLast?.getD "") = some "g4"

/-- Whether a file holds a grammar for a lexer by its name. -/
def isLexerFile (name : String) : Bool :=
  "Lexer.g4".toList.isSuffixOf name.toList

/-- Whether a place comes before another one, or is the same; places are compared name by name. -/
def precedes : Place → Place → Bool
  | [], _ => true
  | _ :: _, [] => false
  | name :: names, other :: others => name < other || (name = other && precedes names others)

/--
The grammar source files below a directory, relative to it. They are in order name by name, so the
files of one directory stand together.
-/
def grammarFiles (tree : FileTree) (place : Place) : List Place :=
  sort precedes ((tree.filesBelow place).filter isGrammarFile)

/-- The path of one report on a file, below the output directory. -/
def reportPath (batch : Batch) (file : Place) (ending : String) : Path :=
  (Path.ofText batch.output).below
    (file.dropLast ++ [fileStem (file.getLast?.getD "") ++ ending])

/-- The reports on an analysis, with their paths. -/
def reports (batch : Batch) (file : Place) (analysis : Analysis) : List (Path × String) :=
  let report := analysis.report
  let header := "grammar " ++ fileStem (file.getLast?.getD "") ++ ";\n\n"
  [(batch.reportPath file "_tagged.txt", header ++ analysis.grammar.print ++ "\n"),
    (batch.reportPath file "_info.txt", report.information)] ++
    (report.searchInformation?.map (batch.reportPath file "_tagged_all.txt", ·)).toList

/-- Writes new files up to the first one that is refused, and says whether all were written. -/
def writeReports (tree : FileTree) : List (Path × String) → FileTree × Bool
  | [] => (tree, true)
  | (path, text) :: rest =>
    match tree.writeNew? path text with
    | some tree => writeReports tree rest
    | none => (tree, false)

/-- Writes the reports on an analysis and says whether all were written. -/
def report (batch : Batch) (tree : FileTree) (file : Place) (analysis : Analysis) :
    FileTree × Bool :=
  let (tree, ready) := tree.ensureDirectories ((Path.ofText batch.output).below file.dropLast)
  if ready then writeReports tree (batch.reports file analysis) else (tree, false)

/-- The grammar in a file below the input directory. -/
def grammarAt? (tree : FileTree) (place file : Place) : Option Grammar :=
  match tree.entryAt? (place ++ file) with
  | some (.file content) => (loadContent (file.getLast?.getD "") content).toOption
  | _ => none

/-- Analyses one file and writes its reports, unless there are reports on it already. -/
def process (batch : Batch) (tree : FileTree) (place file : Place) : FileTree × Summary :=
  if isLexerFile (file.getLast?.getD "") || tree.contains (batch.reportPath file "_tagged.txt") ||
      tree.contains (batch.reportPath file "_info.txt") then
    (tree, .ofSkipped)
  else
    match grammarAt? tree place file with
    | none => (tree, .ofSkipped)
    | some grammar =>
      let analysis := batch.settings.analyze grammar
      let (tree, written) := batch.report tree file analysis
      (tree, if written then .ofAnalysis analysis else .ofSkipped)

/-- Analyses every grammar source file below the input directory. -/
def run (batch : Batch) (tree : FileTree) : Except BatchError (FileTree × Summary) :=
  let input := Path.ofText batch.input
  match tree.locate? input with
  | some place =>
    if tree.hasDirectory place then
      .ok <| (grammarFiles tree place).foldl
        (fun (tree, summary) file =>
          let (tree, counted) := batch.process tree place file
          (tree, summary.add counted))
        (tree, {})
    else .error (.notADirectory batch.input)
  | none => .error (.notADirectory batch.input)

end Batch

end VisiblyPushdown
