import VisiblyPushdown.Json.Text
import VisiblyPushdown.Json.Value

/-!
# Writing JSON

Values are written in two layouts: compact, without any blanks, and indented, with one item or field
a line and two blanks for each level. Empty arrays and objects are written without a line break in
either layout.
-/

namespace VisiblyPushdown.Json.Value

mutual

/-- The compact spelling of a value. -/
def compact : Value String → String
  | null => "null"
  | boolean value => if value then "true" else "false"
  | number digits => digits
  | string text => quote text
  | array items => "[" ++ ",".intercalate (compactItems items) ++ "]"
  | object fields => "\x7b" ++ ",".intercalate (compactFields fields) ++ "\x7d"

/-- The items of an array. -/
def compactItems : List (Value String) → List String
  | [] => []
  | item :: items => compact item :: compactItems items

/-- The fields of an object. -/
def compactFields : List (String × Value String) → List String
  | [] => []
  | (name, value) :: fields => (quote name ++ ":" ++ compact value) :: compactFields fields

end

/-- A line break and the blanks in front of an item at the given level. -/
def newline (level : Nat) : String :=
  String.ofList ('\n' :: List.replicate (2 * level) ' ')

mutual

/-- The spelling of a value with one item or field a line, for a value at the given level. -/
def indented (level : Nat) : Value String → String
  | null => "null"
  | boolean value => if value then "true" else "false"
  | number digits => digits
  | string text => quote text
  | array [] => "[]"
  | array items =>
    "[" ++ ",".intercalate (indentedItems (level + 1) items) ++ newline level ++ "]"
  | object [] => "\x7b\x7d"
  | object fields =>
    "\x7b" ++ ",".intercalate (indentedFields (level + 1) fields) ++ newline level ++ "\x7d"

/-- The items of an array, each on a line of its own. -/
def indentedItems (level : Nat) : List (Value String) → List String
  | [] => []
  | item :: items => (newline level ++ indented level item) :: indentedItems level items

/-- The fields of an object, each on a line of its own. -/
def indentedFields (level : Nat) : List (String × Value String) → List String
  | [] => []
  | (name, value) :: fields =>
    (newline level ++ quote name ++ ": " ++ indented level value) :: indentedFields level fields

end

/-- The value with one item or field a line. -/
def pretty (value : Value String) : String :=
  value.indented 0

end VisiblyPushdown.Json.Value
