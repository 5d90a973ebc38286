import VisiblyPushdown.CommandLine.Run

/-!
# Program

The program reads the files that its command needs, runs the command on them, writes what the
command prints and, after a batch, the files that were added.
-/

namespace VisiblyPushdown.Program

open CommandLine

/-- The content of a file, if it can be read. -/
def contentOf? (path : String) : IO (Option ByteArray) := do
  try return some (← IO.FS.readBinFile path) catch _ => return none

/-- The path of a place below the root of the machine's files. -/
def pathOf (place : Place) : String :=
  "/" ++ "/".intercalate place

/-- The place that a path names, seen from a directory. -/
def placeOf (directory path : String) : Place :=
  let base := if path.startsWith "/" then [] else (Path.ofText directory).segments
  (Path.ofText path).segments.foldl FileTree.step base

/--
What stands at a place that is not a directory. Only grammar source files are read; one that cannot
be read gets a content that is no text.
-/
def fileAt (place : Place) : IO FileEntry := do
  if Batch.isGrammarFile place then
    return .file ((← contentOf? (pathOf place)).getD ⟨#[0xff]⟩)
  else return .file .empty

/-- Everything below a directory. -/
partial def entriesBelow (place : Place) : IO (List (Place × FileEntry)) := do
  let directory ← IO.FS.realPath (pathOf place)
  let mut entries := []
  for found in ← directory.readDir do
    let place := place ++ [found.fileName]
    if ← found.path.isDir then
      entries := entries ++ (place, .directory) :: (← entriesBelow place)
    else entries := entries ++ [(place, ← fileAt place)]
  return entries

/-- Everything on the way to a place, and everything below it if it is a directory. -/
def entriesAround : Place → (above : Place := []) → IO (List (Place × FileEntry))
  | [], place => entriesBelow place
  | name :: names, above => do
    let place := above ++ [name]
    try
      let found ← IO.FS.realPath (pathOf place)
      if ← found.isDir then return (place, .directory) :: (← entriesAround names place)
      else return [(place, ← fileAt place)]
    catch _ => return []

/-- Writes the entries of a file tree that another one does not have. -/
def writeAdded (before after : FileTree) : IO Unit := do
  for (place, entry) in after.entries do
    if (before.entryAt? place).isNone then
      match entry with
      | .directory => IO.FS.createDir (pathOf place)
      | .file content => IO.FS.writeBinFile (pathOf place) content

/-- Runs a batch on the files of the machine. -/
def runBatch (batch : Batch) : IO Outcome := do
  let directory := (← IO.currentDir).toString
  let input := placeOf directory batch.input
  let output := placeOf directory batch.output
  let before := FileTree.ofEntries ((← entriesAround input) ++ (← entriesAround output))
  match { batch with input := pathOf input, output := pathOf output : Batch }.run before with
  | .ok (after, summary) =>
    writeAdded before after
    return { output := summary.text }
  | .error _ => return .failure (BatchError.notADirectory batch.input).message

/-- Runs a command on the files of the machine. -/
def runCommand (terminal : Bool) : Command → IO Outcome
  | .check path settings colour => do
    let loaded := loadContent path (← contentOf? path)
    return onLoaded loaded (check settings (.select (colour.applies terminal)))
  | .dump path settings json colour => do
    let loaded := loadContent path (← contentOf? path)
    return onLoaded loaded (dump settings json (.select (colour.applies terminal)))
  | .batch input output settings => runBatch { input, output, settings }

/-- Runs a command line and gives the code with which the program exits. -/
def run (words : List String) : IO UInt32 := do
  let terminal ← (← IO.getStdout).isTty
  let outcome ← match readCommand words with
    | .ok command => runCommand terminal command
    | .error error => pure (refuse error)
  IO.print outcome.output
  if let some message := outcome.error then
    IO.eprintln ("error: " ++ message)
  return outcome.exitCode.toUInt32

end VisiblyPushdown.Program

/-- Runs the command line that the program was started with. -/
def main (words : List String) : IO UInt32 :=
  VisiblyPushdown.Program.run words
