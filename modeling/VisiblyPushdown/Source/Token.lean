/-!
# Tokens

The tokens of grammar source text. A token knows its text, the bytes it covers and the line on which
it starts. Blanks and comments are tokens as well, but carry no meaning and are dropped before the
text is parsed.
-/

namespace VisiblyPushdown.Source

/-- The kinds of tokens. `garbage` is text that starts no token, or a token that is never closed. -/
inductive TokenKind where
  | leftParen
  | rightParen
  | actionBlock
  | bracketBlock
  | doubleColon
  | colon
  | semicolon
  | bar
  | question
  | star
  | plus
  | assign
  | plusAssign
  | pound
  | range
  | dot
  | tilde
  | less
  | greater
  | comma
  | arrow
  | at
  | stringLiteral
  | identifier
  | blank
  | lineComment
  | blockComment
  | garbage
deriving DecidableEq, Repr

namespace TokenKind

/-- Whether tokens of the kind carry no meaning. -/
def isTrivia : TokenKind → Bool
  | blank | lineComment | blockComment => true
  | _ => false

/-- Whether a token of the kind ends a sequence of elements. -/
def endsAlternative : TokenKind → Bool
  | bar | semicolon | rightParen | pound => true
  | _ => false

end TokenKind

/-- A token covers the bytes from `start` up to, not including, `stop`; lines count from one. -/
structure Token where
  kind : TokenKind
  text : String
  start : Nat
  stop : Nat
  line : Nat
deriving DecidableEq, Repr

end VisiblyPushdown.Source
