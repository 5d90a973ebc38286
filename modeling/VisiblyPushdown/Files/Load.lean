import VisiblyPushdown.Files.Tree
import VisiblyPushdown.Json.Description
import VisiblyPushdown.Source.Parser

/-!
# Grammar files

A file whose extension is `json` holds a description in JSON; any other file holds grammar source
text. A grammar without a name is named after its file.
-/

namespace VisiblyPushdown

/-- Why a grammar file cannot be loaded. -/
inductive LoadError where
  | unreadable (path : String)
  | rejected (path : String) (error : GrammarError)
deriving DecidableEq, Repr

namespace LoadError

/-- The wording of the error. -/
def message : LoadError → String
  | unreadable path => s!"failed to read '{path}'"
  | rejected path error => path ++ ": " ++ error.message

end LoadError

/-- The description that the text of a file holds. -/
def descriptionOfFile (fileName text : String) : Except GrammarError Description :=
  if fileExtension? fileName = some "json" then
    match Description.decode? text with
    | some description => .ok description
    | none => .error .invalidJson
  else Source.parse text

/-- The grammar that the text of a file holds. -/
def grammarOfFile (fileName text : String) : Except GrammarError Grammar := do
  let description ← descriptionOfFile fileName text
  let name := description.name.getD (fileStem fileName)
  { description with name := some name }.resolve

/-- The grammar that a file holds, from its content; a file that cannot be read has no content. -/
def loadContent (path : String) (content : Option ByteArray) : Except LoadError Grammar :=
  match content >>= String.fromUTF8? with
  | none => .error (.unreadable path)
  | some text => (grammarOfFile (Path.ofText path).fileName text).mapError (.rejected path)

/-- The grammar in the file that a path names. -/
def FileTree.load (tree : FileTree) (path : String) : Except LoadError Grammar :=
  loadContent path (tree.read? (.ofText path))

end VisiblyPushdown
