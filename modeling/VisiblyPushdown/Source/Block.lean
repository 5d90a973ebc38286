/-!
# Delimited text

Where delimited pieces of source text end: code blocks in braces, argument blocks in brackets,
string literals and block comments. Each function is given the text behind the opening
delimiter and counts characters up to and including the closing one.
-/

namespace VisiblyPushdown.Source

/-- The delimiters of a block, and whether quoted runs inside it hide delimiters. -/
structure Delimiters where
  opening : Char
  closing : Char
  quotes : Bool
deriving DecidableEq, Repr

namespace Delimiters

/-- Braces around code, which may hold quoted text. -/
def braces : Delimiters where
  opening := '{'
  closing := '}'
  quotes := true

/-- Brackets around arguments or character sets, where quotes are ordinary characters. -/
def brackets : Delimiters where
  opening := '['
  closing := ']'
  quotes := false

end Delimiters

/--
The length of the rest of a block. `depth` counts the nested blocks that are open inside it, and
`quote` is the quote that ends the current quoted run. A backslash hides the character behind it,
inside quoted runs and outside.
-/
def blockLength? (delimiters : Delimiters) : (depth : Nat) → (quote : Option Char) → List Char →
    Option Nat
  | _, _, [] => none
  | depth, quote, '\\' :: _ :: rest => (blockLength? delimiters depth quote rest).map (· + 2)
  | depth, some quote, char :: rest =>
    (blockLength? delimiters depth (if char = quote then none else some quote) rest).map (· + 1)
  | depth, none, char :: rest =>
    if delimiters.quotes ∧ (char = '"' ∨ char = '\'') then
      (blockLength? delimiters depth (some char) rest).map (· + 1)
    else if char = delimiters.opening then
      (blockLength? delimiters (depth + 1) none rest).map (· + 1)
    else if char = delimiters.closing then
      match depth with
      | 0 => some 1
      | depth + 1 => (blockLength? delimiters depth none rest).map (· + 1)
    else (blockLength? delimiters depth none rest).map (· + 1)

/-- How far a string literal reaches, and whether it is closed there. -/
structure LiteralExtent where
  length : Nat
  closed : Bool
deriving DecidableEq, Repr

namespace LiteralExtent

/-- The extent with more characters in front. -/
def after (extent : LiteralExtent) (length : Nat) : LiteralExtent :=
  { extent with length := length + extent.length }

end LiteralExtent

/--
The extent of the rest of a string literal. A literal may not run over the end of its line; one that
is not closed reaches up to that end. A backslash hides the character behind it, but no line end.
-/
def literalExtent : List Char → LiteralExtent
  | [] => { length := 0, closed := false }
  | '\'' :: _ => { length := 1, closed := true }
  | '\n' :: _ => { length := 0, closed := false }
  | '\\' :: '\n' :: _ => { length := 1, closed := false }
  | '\\' :: _ :: rest => (literalExtent rest).after 2
  | _ :: rest => (literalExtent rest).after 1

/--
The length of the rest of a block comment. A star that no slash follows hides the character behind
it, so a run of stars before a slash closes the comment only when its length is odd.
-/
def commentLength? : List Char → Option Nat
  | [] => none
  | '*' :: '/' :: _ => some 2
  | '*' :: _ :: rest => (commentLength? rest).map (· + 2)
  | _ :: rest => (commentLength? rest).map (· + 1)

end VisiblyPushdown.Source
