/-!
# JSON strings

A string is written with escapes for the quote, the backslash and the control characters below
U+0020. The five control characters that have a short escape use it; the others are written as
`\u00xx` with lower-case digits. Everything else stands for itself.

A string literal is read in two steps: first as a sequence of pieces, which fixes where the literal
ends, then as text. The second step joins escapes for the two halves of a surrogate pair. It fails
when a half stands alone, since no text contains half a pair.
-/

namespace VisiblyPushdown.Json

/-- The digit for a number below sixteen. -/
def hexDigit (value : Nat) : Char :=
  if value < 10 then Char.ofNat ('0'.toNat + value) else Char.ofNat ('a'.toNat + (value - 10))

/-- The value of a hexadecimal digit of either case. -/
def hexValue? (digit : Char) : Option Nat :=
  if '0' ≤ digit ∧ digit ≤ '9' then some (digit.toNat - '0'.toNat)
  else if 'a' ≤ digit ∧ digit ≤ 'f' then some (digit.toNat - 'a'.toNat + 10)
  else if 'A' ≤ digit ∧ digit ≤ 'F' then some (digit.toNat - 'A'.toNat + 10)
  else none

/-- The spelling of one character inside a string literal. -/
def escapeChar (char : Char) : List Char :=
  if char = '"' then ['\\', '"']
  else if char = '\\' then ['\\', '\\']
  else if char = '\x08' then ['\\', 'b']
  else if char = '\x0c' then ['\\', 'f']
  else if char = '\n' then ['\\', 'n']
  else if char = '\r' then ['\\', 'r']
  else if char = '\t' then ['\\', 't']
  else if char.toNat < 0x20 then
    ['\\', 'u', '0', '0', hexDigit (char.toNat / 16), hexDigit (char.toNat % 16)]
  else [char]

/-- The literal for a text. -/
def quote (text : String) : String :=
  String.ofList ('"' :: text.toList.flatMap escapeChar ++ ['"'])

/-- A piece of a string literal: a character, or a numeric escape for a 16-bit code unit. -/
inductive Piece where
  | char (char : Char)
  | codeUnit (value : Nat)
deriving DecidableEq, Repr

/-- The character behind a short escape. -/
def shortEscape? : Char → Option Char
  | '"' => some '"'
  | '\\' => some '\\'
  | '/' => some '/'
  | 'b' => some '\x08'
  | 'f' => some '\x0c'
  | 'n' => some '\n'
  | 'r' => some '\r'
  | 't' => some '\t'
  | _ => none

/-- The code unit that four hexadecimal digits spell. -/
def codeUnit? (first second third fourth : Char) : Option Nat := do
  let first ← hexValue? first
  let second ← hexValue? second
  let third ← hexValue? third
  let fourth ← hexValue? fourth
  return ((first * 16 + second) * 16 + third) * 16 + fourth

/-- Reads the inside of a literal and its closing quote; control characters have to be escaped. -/
def readPieces : List Char → Option (List Piece × List Char)
  | [] => none
  | '"' :: rest => some ([], rest)
  | '\\' :: 'u' :: first :: second :: third :: fourth :: rest => do
    let unit ← codeUnit? first second third fourth
    let (pieces, rest) ← readPieces rest
    return (.codeUnit unit :: pieces, rest)
  | '\\' :: escape :: rest => do
    let char ← shortEscape? escape
    let (pieces, rest) ← readPieces rest
    return (.char char :: pieces, rest)
  | char :: rest =>
    if char.toNat < 0x20 ∨ char = '\\' then none
    else do
      let (pieces, rest) ← readPieces rest
      return (.char char :: pieces, rest)

/-- Whether a code unit is the first half of a surrogate pair. -/
def isLeadingHalf (unit : Nat) : Bool :=
  0xD800 ≤ unit && unit < 0xDC00

/-- Whether a code unit is the second half of a surrogate pair. -/
def isTrailingHalf (unit : Nat) : Bool :=
  0xDC00 ≤ unit && unit < 0xE000

/-- The characters of a literal, unless it holds half a surrogate pair by itself. -/
def joinPieces : List Piece → Option (List Char)
  | [] => some []
  | .char char :: rest => (joinPieces rest).map (char :: ·)
  | .codeUnit leading :: .codeUnit trailing :: rest =>
    if isLeadingHalf leading && isTrailingHalf trailing then
      (joinPieces rest).map
        (Char.ofNat (0x10000 + (leading - 0xD800) * 0x400 + (trailing - 0xDC00)) :: ·)
    else if isLeadingHalf leading || isTrailingHalf leading then none
    else (joinPieces (.codeUnit trailing :: rest)).map (Char.ofNat leading :: ·)
  | .codeUnit unit :: rest =>
    if isLeadingHalf unit || isTrailingHalf unit then none
    else (joinPieces rest).map (Char.ofNat unit :: ·)

/--
Reads a string literal behind its opening quote. The text is absent when the literal is well formed
but holds half a surrogate pair by itself.
-/
def readString (source : List Char) : Option (Option String × List Char) :=
  (readPieces source).map fun (pieces, rest) => ((joinPieces pieces).map String.ofList, rest)

end VisiblyPushdown.Json
