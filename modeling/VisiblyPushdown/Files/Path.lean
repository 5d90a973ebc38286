/-!
# Paths

Relative paths with slashes between their segments, and the parts of a file name. A dot divides a
name into a stem and an extension unless it is the first character of the name and its only dot.
-/

namespace VisiblyPushdown

/-- The parts of a text between slashes, empty ones included. -/
def splitAtSlashes : List Char → List (List Char)
  | [] => [[]]
  | '/' :: rest => [] :: splitAtSlashes rest
  | char :: rest =>
    match splitAtSlashes rest with
    | [] => [[char]]
    | part :: parts => (char :: part) :: parts

/-- A path; one with a slash at its end can only name a directory. -/
structure Path where
  segments : List String
  endsWithSlash : Bool := false
deriving DecidableEq, Repr

namespace Path

/-- The path that a text spells; repeated slashes count once. -/
def ofText (text : String) : Path where
  segments := ((splitAtSlashes text.toList).filter (· ≠ [])).map String.ofList
  endsWithSlash := text.toList.getLast? = some '/'

/-- A path below another one. -/
def below (path : Path) (segments : List String) : Path where
  segments := path.segments ++ segments

/-- The last segment of a path. -/
def fileName (path : Path) : String :=
  path.segments.getLast?.getD ""

end Path

/-- What stands in front of the last dot of a reversed name, and behind it, in reading order. -/
def splitReversedName (name : List Char) : Option (List Char × List Char) :=
  match name.dropWhile (· ≠ '.') with
  | '.' :: stem =>
    if stem.isEmpty then none else some (stem.reverse, (name.takeWhile (· ≠ '.')).reverse)
  | _ => none

/-- The name of a file without its extension. -/
def fileStem (name : String) : String :=
  match splitReversedName name.toList.reverse with
  | some (stem, _) => String.ofList stem
  | none => name

/-- The extension of the name of a file. -/
def fileExtension? (name : String) : Option String :=
  (splitReversedName name.toList.reverse).map fun parts => String.ofList parts.2

end VisiblyPushdown
