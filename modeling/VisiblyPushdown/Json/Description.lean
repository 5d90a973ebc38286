import VisiblyPushdown.Grammar.Description
import VisiblyPushdown.Json.Reader
import VisiblyPushdown.Json.Writer

/-!
# Grammar descriptions in JSON

A description is written as an object with the fields `name`, `start`, `terminals`, `non_terminals`
and `rules`, and an occurrence as an object with the fields `name`, `kind` and `suffix`. When read,
both may also be arrays of the same values in that order, unknown fields are passed over, and fields
with a default may be left out. A field that has a meaning must not be repeated. A rule
that is repeated keeps its place and takes the last alternatives.
-/

namespace VisiblyPushdown

namespace Json

/-- A value as it was read; a string without text has escapes that do not pair up. -/
abbrev Document := Value (Option String)

/-- The fields of a record. -/
abbrev Fields := List (Option String × Document)

/-- The fields of a record that is written as an object, or as an array in the order of `names`. -/
def recordFields (names : List String) : Document → Option Fields
  | .object fields => if fields.all (·.1.isSome) then some fields else none
  | .array items =>
    if items.length ≤ names.length then some ((names.map some).zip items) else none
  | _ => none

/-- The value of a field, if it is there; a field that is there twice cannot be read. -/
def field? (fields : Fields) (name : String) : Option (Option Document) :=
  match fields.filter (·.1 = some name) with
  | [] => some none
  | [(_, value)] => some (some value)
  | _ => none

/-- Reads a field with a default. -/
def fieldOr {α : Type} (fields : Fields) (name : String) (default : α)
    (read : Document → Option α) : Option α := do
  match ← field? fields name with
  | some value => read value
  | none => return default

/-- Reads a field that must be there. -/
def required {α : Type} (fields : Fields) (name : String) (read : Document → Option α) :
    Option α := do
  read (← (← field? fields name))

/-- The text of a string. -/
def text? : Document → Option String
  | .string text => text
  | _ => none

/-- The text of a string, or nothing for `null`. -/
def optionalText? : Document → Option (Option String)
  | .null => some none
  | value => (text? value).map some

/-- The items of an array. -/
def items? : Document → Option (List Document)
  | .array items => some items
  | _ => none

/-- The distinct texts in an array of strings. -/
def names? (value : Document) : Option (List String) := do
  return InsertionOrder.distinct (← (← items? value).mapM text?)

/-- The name of a choice, written as a string or as an object with that one field, which is null. -/
def choice? : Document → Option String
  | .string text => text
  | .object [(name, .null)] => name
  | _ => none

end Json

namespace Kind

/-- The word for a kind in JSON. -/
def tag : Kind → String
  | terminal => "terminal"
  | nonterminal => "non_terminal"

/-- Reads the word for a kind. -/
def ofTag? : String → Option Kind
  | "terminal" => some terminal
  | "non_terminal" => some nonterminal
  | _ => none

@[simp]
theorem ofTag?_tag (kind : Kind) : ofTag? kind.tag = some kind := by
  cases kind <;> rfl

end Kind

namespace Repetition

/-- The word for a repetition in JSON. -/
def word : Repetition → String
  | once => "none"
  | optional => "optional"
  | star => "star"
  | plus => "plus"

/-- Reads the word for a repetition. -/
def ofWord? : String → Option Repetition
  | "none" => some once
  | "optional" => some optional
  | "star" => some star
  | "plus" => some plus
  | _ => none

@[simp]
theorem ofWord?_word (repetition : Repetition) : ofWord? repetition.word = some repetition := by
  cases repetition <;> rfl

end Repetition

namespace Occurrence

/-- The occurrence as a JSON object. -/
def toJson (occurrence : Occurrence) : Json.Value String :=
  .object [("name", .string occurrence.symbol.name),
    ("kind", .string occurrence.symbol.kind.tag),
    ("suffix", .string occurrence.repetition.word)]

/-- The occurrence that a JSON value stands for. -/
def ofJson? (value : Json.Document) : Option Occurrence := do
  let fields ← Json.recordFields ["name", "kind", "suffix"] value
  let name ← Json.required fields "name" Json.text?
  let kind ← Json.required fields "kind" fun value => Json.choice? value >>= Kind.ofTag?
  let repetition ← Json.fieldOr fields "suffix" .once fun value =>
    Json.choice? value >>= Repetition.ofWord?
  return { symbol := { name, kind }, repetition }

end Occurrence

namespace Description

/-- The alternatives of a rule as a JSON array. -/
def alternativesToJson (alternatives : List Alternative) : Json.Value String :=
  .array (alternatives.map fun alternative => .array (alternative.map Occurrence.toJson))

/-- The description as a JSON object. -/
def toJson (description : Description) : Json.Value String :=
  let optional (text : Option String) : Json.Value String := (text.map .string).getD .null
  .object [("name", optional description.name),
    ("start", optional description.start),
    ("terminals", .array (description.terminals.map .string)),
    ("non_terminals", .array (description.nonterminals.map .string)),
    ("rules", .object (description.rules.map fun rule => (rule.1, alternativesToJson rule.2)))]

/-- The compact JSON text of a description. -/
def encode (description : Description) : String :=
  description.toJson.compact

/-- The alternatives that a JSON value stands for. -/
def alternativesOfJson? (value : Json.Document) : Option (List Alternative) := do
  (← Json.items? value).mapM fun alternative => do
    (← Json.items? alternative).mapM Occurrence.ofJson?

/-- The rules that a JSON object stands for. -/
def rulesOfJson? : Json.Document → Option (List (String × List Alternative))
  | .object fields =>
    fields.foldlM
      (fun rules (name, value) => do
        return InsertionOrder.put rules (← name) (← alternativesOfJson? value))
      []
  | _ => none

/-- The description that a JSON value stands for. -/
def ofJson? (value : Json.Document) : Option Description := do
  let fields ← Json.recordFields ["name", "start", "terminals", "non_terminals", "rules"] value
  let name ← Json.fieldOr fields "name" none Json.optionalText?
  let start ← Json.fieldOr fields "start" none Json.optionalText?
  let terminals ← Json.fieldOr fields "terminals" [] Json.names?
  let nonterminals ← Json.fieldOr fields "non_terminals" [] Json.names?
  let rules ← Json.fieldOr fields "rules" [] rulesOfJson?
  return { name, start, terminals, nonterminals, rules }

/-- The description that a JSON text stands for. -/
def decode? (text : String) : Option Description :=
  Json.read? text >>= ofJson?

end Description

end VisiblyPushdown
