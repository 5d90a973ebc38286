import VisiblyPushdown.Files.Path
import VisiblyPushdown.InsertionOrder

/-!
# File trees

A file tree is a working directory with everything below it. A path is followed segment by segment:
each step starts at a directory, `.` stays there, `..` goes to its parent, and any other segment has
to be the name of something in it. New files never replace anything that is there.
-/

namespace VisiblyPushdown

/-- What stands at one place of a file tree. -/
inductive FileEntry where
  | directory
  | file (content : ByteArray)

/-- The names that lead from the working directory to a place below it. -/
abbrev Place := List String

/-- Everything below a working directory. -/
structure FileTree where
  entries : List (Place × FileEntry) := []

namespace FileTree

/-- The file tree with the given entries; of several entries for one place the last one counts. -/
def ofEntries (entries : List (Place × FileEntry)) : FileTree where
  entries := entries.foldl (fun known (place, entry) => InsertionOrder.put known place entry) []

/-- What stands at a place; the working directory itself is a directory. -/
def entryAt? (tree : FileTree) (place : Place) : Option FileEntry :=
  if place = [] then some .directory else tree.entries.lookup place

/-- Whether there is a directory at a place. -/
def hasDirectory (tree : FileTree) (place : Place) : Bool :=
  match tree.entryAt? place with
  | some .directory => true
  | _ => false

/-- The place to which a segment leads from a directory. -/
def step (place : Place) (segment : String) : Place :=
  if segment = "." then place
  else if segment = ".." then place.dropLast
  else place ++ [segment]

/-- The place to which segments lead, if there is something at each step. -/
def walk? (tree : FileTree) (place : Place) : List String → Option Place
  | [] => some place
  | segment :: rest =>
    if tree.hasDirectory place && (tree.entryAt? (step place segment)).isSome then
      tree.walk? (step place segment) rest
    else none

/-- The place that a path names, if there is something. An empty path names nothing. -/
def locate? (tree : FileTree) (path : Path) : Option Place := do
  let place ← tree.walk? [] path.segments
  if path.endsWithSlash then
    if tree.hasDirectory place then return place else none
  else if path.segments.isEmpty then none
  else return place

/-- Whether a path names something. -/
def contains (tree : FileTree) (path : Path) : Bool :=
  (tree.locate? path).isSome

/-- Whether a path names a directory. -/
def isDirectory (tree : FileTree) (path : Path) : Bool :=
  ((tree.locate? path).map tree.hasDirectory).getD false

/-- The content of the file that a path names. -/
def read? (tree : FileTree) (path : Path) : Option ByteArray := do
  match ← tree.entryAt? (← tree.locate? path) with
  | .file content => return content
  | .directory => none

/-- Puts an entry where a path leads, if there is nothing yet and its directory is there. -/
def create? (tree : FileTree) (segments : List String) (entry : FileEntry) : Option FileTree := do
  let parent ← tree.walk? [] segments.dropLast
  let name ← segments.getLast?
  let place := step parent name
  if tree.hasDirectory parent && (tree.entryAt? place).isNone then
    return { entries := tree.entries ++ [(place, entry)] }
  else none

/-- Writes a new file; it is refused where there is something already. -/
def writeNew? (tree : FileTree) (path : Path) (text : String) : Option FileTree :=
  tree.create? path.segments (.file text.toUTF8)

/--
The paths that have to be directories for a path to become one, the path itself last. Dots at the
end of a path count as part of its last segment.
-/
def directoryChain (segments : List String) : List (List String) :=
  let parents := ((segments.reverse.dropWhile (· = ".")).drop 1).reverse
  (List.range parents.length).map (fun count => parents.take (count + 1)) ++ [segments]

/-- Makes a directory unless there is one, and says whether there is one now. -/
def ensureDirectory (state : FileTree × Bool) (segments : List String) : FileTree × Bool :=
  let (tree, done) := state
  if !done || segments.isEmpty || tree.isDirectory { segments } then (tree, done)
  else
    match tree.create? segments .directory with
    | some tree => (tree, true)
    | none => (tree, false)

/-- Makes a directory and the missing ones above it, and says whether it is there now. -/
def ensureDirectories (tree : FileTree) (path : Path) : FileTree × Bool :=
  (directoryChain path.segments).foldl ensureDirectory (tree, true)

/-- The places of all files below a directory, relative to it. -/
def filesBelow (tree : FileTree) (place : Place) : List Place :=
  tree.entries.filterMap fun (found, entry) =>
    match entry with
    | .file _ => if place.isPrefixOf found then some (found.drop place.length) else none
    | .directory => none

/-- Adds a given file, with the directories above it. -/
def addFile (tree : FileTree) (path : Path) (content : ByteArray) : FileTree :=
  let (tree, _) := tree.ensureDirectories { segments := path.segments.dropLast }
  (tree.create? path.segments (.file content)).getD tree

end FileTree

end VisiblyPushdown
