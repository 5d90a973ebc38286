import VisiblyPushdown.Json.Text
import VisiblyPushdown.Json.Value

/-!
# Reading JSON

A strict reader: no trailing commas, no comments, no leading zeros, and nothing but blanks around
the value. Strings whose escapes do not pair up are well formed, but have no text.

Each step of the reader either takes a character or hands over to a step that does, so
twice the length of the source bounds the number of steps.
-/

namespace VisiblyPushdown.Json

/-- The characters that may stand between the parts of a value. -/
def isBlank (char : Char) : Bool :=
  char = ' ' || char = '\t' || char = '\n' || char = '\r'

/-- The source behind leading blanks. -/
def skipBlanks (source : List Char) : List Char :=
  source.dropWhile isBlank

/-- Reads a run of at least one digit. -/
def readDigits (source : List Char) : Option (List Char × List Char) :=
  match source.takeWhile Char.isDigit with
  | [] => none
  | digits => some (digits, source.dropWhile Char.isDigit)

/-- Reads the whole part of a number; a zero stands alone. -/
def readWhole (source : List Char) : Option (List Char × List Char) := do
  let (digits, rest) ← readDigits source
  match digits with
  | '0' :: _ :: _ => none
  | _ => some (digits, rest)

/-- Reads the fraction of a number, if there is one. -/
def readFraction : List Char → Option (List Char × List Char)
  | '.' :: rest => (readDigits rest).map fun (digits, rest) => ('.' :: digits, rest)
  | rest => some ([], rest)

/-- Reads the digits of an exponent and the sign that may stand in front of them. -/
def readSignedDigits : List Char → Option (List Char × List Char)
  | '+' :: rest => (readDigits rest).map fun (digits, rest) => ('+' :: digits, rest)
  | '-' :: rest => (readDigits rest).map fun (digits, rest) => ('-' :: digits, rest)
  | rest => readDigits rest

/-- Reads the exponent of a number, if there is one. -/
def readExponent : List Char → Option (List Char × List Char)
  | 'e' :: rest => (readSignedDigits rest).map fun (digits, rest) => ('e' :: digits, rest)
  | 'E' :: rest => (readSignedDigits rest).map fun (digits, rest) => ('E' :: digits, rest)
  | rest => some ([], rest)

/-- Reads a number without its sign. -/
def readUnsigned (source : List Char) : Option (List Char × List Char) := do
  let (whole, rest) ← readWhole source
  let (fraction, rest) ← readFraction rest
  let (exponent, rest) ← readExponent rest
  return (whole ++ fraction ++ exponent, rest)

/-- Reads a number. -/
def readNumber : List Char → Option (List Char × List Char)
  | '-' :: rest => (readUnsigned rest).map fun (digits, rest) => ('-' :: digits, rest)
  | source => readUnsigned source

mutual

/-- Reads one value, in at most the given number of steps. -/
def readValue : (steps : Nat) → List Char → Option (Value (Option String) × List Char)
  | 0, _ => none
  | steps + 1, source =>
    match skipBlanks source with
    | 'n' :: 'u' :: 'l' :: 'l' :: rest => some (.null, rest)
    | 't' :: 'r' :: 'u' :: 'e' :: rest => some (.boolean true, rest)
    | 'f' :: 'a' :: 'l' :: 's' :: 'e' :: rest => some (.boolean false, rest)
    | '"' :: rest => (readString rest).map fun (text, rest) => (.string text, rest)
    | '[' :: rest =>
      match skipBlanks rest with
      | ']' :: rest => some (.array [], rest)
      | rest => (readItems steps rest).map fun (items, rest) => (.array items, rest)
    | '{' :: rest =>
      match skipBlanks rest with
      | '}' :: rest => some (.object [], rest)
      | rest => (readFields steps rest).map fun (fields, rest) => (.object fields, rest)
    | rest => (readNumber rest).map fun (digits, rest) => (.number (String.ofList digits), rest)

/-- Reads the items of an array and its closing bracket. -/
def readItems : (steps : Nat) → List Char → Option (List (Value (Option String)) × List Char)
  | 0, _ => none
  | steps + 1, source => do
    let (item, rest) ← readValue steps source
    match skipBlanks rest with
    | ',' :: rest =>
      let (items, rest) ← readItems steps rest
      return (item :: items, rest)
    | ']' :: rest => return ([item], rest)
    | _ => none

/-- Reads the fields of an object and its closing brace. -/
def readFields : (steps : Nat) → List Char →
    Option (List (Option String × Value (Option String)) × List Char)
  | 0, _ => none
  | steps + 1, source =>
    match skipBlanks source with
    | '"' :: rest => do
      let (name, rest) ← readString rest
      match skipBlanks rest with
      | ':' :: rest =>
        let (value, rest) ← readValue steps rest
        match skipBlanks rest with
        | ',' :: rest =>
          let (fields, rest) ← readFields steps rest
          return ((name, value) :: fields, rest)
        | '}' :: rest => return ([(name, value)], rest)
        | _ => none
      | _ => none
    | _ => none

end

/-- The value that a text spells, if it spells one and nothing else. -/
def read? (text : String) : Option (Value (Option String)) := do
  let source := text.toList
  let (value, rest) ← readValue (2 * source.length + 2) source
  if (skipBlanks rest).isEmpty then return value else none

end VisiblyPushdown.Json
