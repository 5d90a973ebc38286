import VisiblyPushdown.Grammar.Error
import VisiblyPushdown.Source.Token

/-!
# Cursors

A cursor stands in front of the tokens that are still to be read. It looks ahead, moves on, and
reports faults with the line on which the next token starts; behind the last token that is the last
line of the text.
-/

namespace VisiblyPushdown.Source

/-- The tokens that are still to be read, and the line on which the text ends. -/
structure Cursor where
  tokens : List Token
  lastLine : Nat
deriving DecidableEq, Repr

namespace Cursor

/-- The kind of the token at the given distance; there is none behind the end. -/
def kindAt? (cursor : Cursor) (distance : Nat) : Option TokenKind :=
  cursor.tokens[distance]?.map Token.kind

/-- The text of the token at the given distance; it is empty behind the end. -/
def textAt (cursor : Cursor) (distance : Nat) : String :=
  (cursor.tokens[distance]?.map Token.text).getD ""

/-- The kind of the next token. -/
def kind? (cursor : Cursor) : Option TokenKind :=
  cursor.kindAt? 0

/-- The text of the next token. -/
def text (cursor : Cursor) : String :=
  cursor.textAt 0

/-- The line on which the next token starts. -/
def line (cursor : Cursor) : Nat :=
  (cursor.tokens.head?.map Token.line).getD cursor.lastLine

/-- Whether the next token is of the given kind. -/
def isAt (cursor : Cursor) (kind : TokenKind) : Bool :=
  cursor.kind? = some kind

/-- Whether the next token is the given word. -/
def isAtWord (cursor : Cursor) (word : String) : Bool :=
  cursor.isAt .identifier && cursor.text = word

/-- The cursor behind the next tokens. -/
def advance (cursor : Cursor) (count : Nat := 1) : Cursor :=
  { cursor with tokens := cursor.tokens.drop count }

/-- The cursor behind the next token if that is of the given kind, and where it is otherwise. -/
def skip (cursor : Cursor) (kind : TokenKind) : Cursor :=
  if cursor.isAt kind then cursor.advance else cursor

/-- A fault at the next token. -/
def fail {α : Type} (cursor : Cursor) (fault : Fault) : Except GrammarError α :=
  .error (.malformed cursor.line fault)

/-- The text of the next token, which has to be of the given kind, and the cursor behind it. -/
def expect (cursor : Cursor) (kind : TokenKind) (what : String) :
    Except GrammarError (String × Cursor) :=
  if cursor.isAt kind then .ok (cursor.text, cursor.advance)
  else cursor.fail (.expected what (cursor.tokens.head?.map Token.text))

/-- The cursor behind the next token, which has to be of the given kind. -/
def pass (cursor : Cursor) (kind : TokenKind) (what : String) : Except GrammarError Cursor :=
  (cursor.expect kind what).map Prod.snd

end Cursor

/-- The tokens behind the next semicolon that stands outside parentheses. -/
def pastSemicolon : (depth : Nat) → List Token → List Token
  | _, [] => []
  | depth, token :: rest =>
    match token.kind with
    | .leftParen => pastSemicolon (depth + 1) rest
    | .rightParen => pastSemicolon (depth - 1) rest
    | .semicolon => if depth = 0 then rest else pastSemicolon depth rest
    | _ => pastSemicolon depth rest

/--
The number of tokens in front of the parenthesis that closes the first of the given tokens. `depth`
counts the parentheses that are open, that one included.
-/
def closingParen? : (depth : Nat) → List Token → Option Nat
  | _, [] => none
  | depth, token :: rest =>
    match token.kind with
    | .leftParen => (closingParen? (depth + 1) rest).map (· + 1)
    | .rightParen => if depth ≤ 1 then some 0 else (closingParen? (depth - 1) rest).map (· + 1)
    | _ => (closingParen? depth rest).map (· + 1)

/-- The texts of the first tokens, written without anything between them. -/
def joinedText (tokens : List Token) (count : Nat) : String :=
  String.join ((tokens.take count).map Token.text)

/-- The tokens behind the next `>`. -/
def pastGreater? : List Token → Option (List Token)
  | [] => none
  | token :: rest => if token.kind = .greater then some rest else pastGreater? rest

namespace Cursor

/-- The cursor behind the next semicolon that stands outside parentheses. -/
def skipPastSemicolon (cursor : Cursor) : Cursor :=
  { cursor with tokens := pastSemicolon 0 cursor.tokens }

/-- The cursor behind element options such as `<assoc=right>`, if they come next. -/
def skipElementOptions (cursor : Cursor) : Except GrammarError Cursor :=
  if cursor.isAt .less then
    match pastGreater? cursor.advance.tokens with
    | some tokens => .ok { cursor with tokens }
    | none => .error (.malformed cursor.lastLine .unclosedOptions)
  else .ok cursor

end Cursor

end VisiblyPushdown.Source
