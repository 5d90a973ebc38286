import VisiblyPushdown.Source.Block
import VisiblyPushdown.Source.Token

/-!
# Lexical structure

Source text is cut into lexemes: at each place the longest token that starts there, or a piece of
garbage when none does. Then neighbouring pieces of garbage are joined, places are computed, and
blanks and comments are dropped. `text_lexemes` says that the texts of the lexemes, one after the
other, are the source text, and `text_joinGarbage` that joining garbage keeps it so.
-/

namespace VisiblyPushdown.Source

/-- A token without its place. -/
structure Lexeme where
  kind : TokenKind
  text : List Char
deriving DecidableEq, Repr

/-- Whether the character is a blank. -/
def isBlank (char : Char) : Bool :=
  char = ' ' || char = '\t' || char = '\r' || char = '\n' || char = '\x0c'

/-- Whether an identifier may start with the character. -/
def startsIdentifier (char : Char) : Bool :=
  char.isAlpha || char = '_'

/-- Whether an identifier may go on with the character. -/
def continuesIdentifier (char : Char) : Bool :=
  char.isAlphanum || char = '_'

/-- The kind of a block that starts here, or garbage when the block is never closed. -/
def blockOrGarbage (kind : TokenKind) (delimiters : Delimiters) (rest : List Char) :
    TokenKind × Nat :=
  match blockLength? delimiters 0 none rest with
  | some length => (kind, length + 1)
  | none => (.garbage, 1)

/-- The kind and the length, in characters, of the first lexeme of a text. -/
def firstLexeme : List Char → TokenKind × Nat
  | [] => (.garbage, 0)
  | '(' :: _ => (.leftParen, 1)
  | ')' :: _ => (.rightParen, 1)
  | '{' :: rest => blockOrGarbage .actionBlock .braces rest
  | '[' :: rest => blockOrGarbage .bracketBlock .brackets rest
  | ':' :: ':' :: _ => (.doubleColon, 2)
  | ':' :: _ => (.colon, 1)
  | ';' :: _ => (.semicolon, 1)
  | '|' :: _ => (.bar, 1)
  | '?' :: _ => (.question, 1)
  | '*' :: _ => (.star, 1)
  | '+' :: '=' :: _ => (.plusAssign, 2)
  | '+' :: _ => (.plus, 1)
  | '=' :: _ => (.assign, 1)
  | '#' :: _ => (.pound, 1)
  | '.' :: '.' :: _ => (.range, 2)
  | '.' :: _ => (.dot, 1)
  | '~' :: _ => (.tilde, 1)
  | '<' :: _ => (.less, 1)
  | '>' :: _ => (.greater, 1)
  | ',' :: _ => (.comma, 1)
  | '-' :: '>' :: _ => (.arrow, 2)
  | '@' :: _ => (.at, 1)
  | '\'' :: rest =>
    let extent := literalExtent rest
    (if extent.closed then .stringLiteral else .garbage, extent.length + 1)
  | '/' :: '/' :: rest => (.lineComment, (rest.takeWhile (· ≠ '\n')).length + 2)
  | '/' :: '*' :: rest =>
    match commentLength? rest with
    | some length => (.blockComment, length + 2)
    | none => (.garbage, rest.length + 2)
  | char :: rest =>
    if isBlank char then (.blank, (rest.takeWhile isBlank).length + 1)
    else if startsIdentifier char then
      (.identifier, (rest.takeWhile continuesIdentifier).length + 1)
    else (.garbage, 1)

theorem blockOrGarbage_length_pos (kind : TokenKind) (delimiters : Delimiters)
    (rest : List Char) : 0 < (blockOrGarbage kind delimiters rest).2 := by
  unfold blockOrGarbage
  split <;> simp

theorem firstLexeme_length_pos {source : List Char} (nonempty : source ≠ []) :
    0 < (firstLexeme source).2 := by
  fun_cases firstLexeme source <;> simp_all [blockOrGarbage_length_pos]

/-- The lexemes of a text whose first `skip` characters belong to a lexeme that was cut before. -/
def lexemesFrom : (skip : Nat) → List Char → List Lexeme
  | _, [] => []
  | skip + 1, _ :: rest => lexemesFrom skip rest
  | 0, char :: rest =>
    let (kind, length) := firstLexeme (char :: rest)
    { kind, text := (char :: rest).take length } :: lexemesFrom (length - 1) rest

/-- The lexemes of a text, one after the other. -/
def lexemes (source : List Char) : List Lexeme :=
  lexemesFrom 0 source

theorem text_lexemesFrom (skip : Nat) (source : List Char) :
    (lexemesFrom skip source).flatMap Lexeme.text = source.drop skip := by
  induction source generalizing skip with
  | nil => simp [lexemesFrom]
  | cons char rest ih =>
    cases skip with
    | zero =>
      obtain ⟨length, whole⟩ := Nat.exists_eq_add_one_of_ne_zero
        (Nat.ne_of_gt (firstLexeme_length_pos (List.cons_ne_nil char rest)))
      simp [lexemesFrom, ih, whole]
    | succ skip => simp [lexemesFrom, ih]

@[simp]
theorem text_lexemes (source : List Char) : (lexemes source).flatMap Lexeme.text = source := by
  simp [lexemes, text_lexemesFrom]

/-- Puts a lexeme in front of others; two pieces of garbage become one. -/
def joinGarbage (lexeme : Lexeme) : List Lexeme → List Lexeme
  | [] => [lexeme]
  | next :: rest =>
    if lexeme.kind = .garbage ∧ next.kind = .garbage then
      { kind := .garbage, text := lexeme.text ++ next.text } :: rest
    else lexeme :: next :: rest

@[simp]
theorem text_joinGarbage (lexeme : Lexeme) (rest : List Lexeme) :
    (joinGarbage lexeme rest).flatMap Lexeme.text = lexeme.text ++ rest.flatMap Lexeme.text := by
  unfold joinGarbage
  split
  · simp
  · split <;> simp

/-- The number of bytes that a text takes. -/
def byteLength (text : List Char) : Nat :=
  text.foldr (fun char length => char.utf8Size + length) 0

/-- Gives lexemes their places, the first one at the given byte and line. -/
def placed (start line : Nat) : List Lexeme → List Token
  | [] => []
  | lexeme :: rest =>
    let stop := start + byteLength lexeme.text
    { kind := lexeme.kind, text := String.ofList lexeme.text, start, stop, line } ::
      placed stop (line + lexeme.text.count '\n') rest

/-- The tokens of a source text, without blanks and comments. -/
def tokens (source : String) : List Token :=
  (placed 0 1 ((lexemes source.toList).foldr joinGarbage [])).filter (!·.kind.isTrivia)

/-- The line on which a source text ends. -/
def lastLine (source : String) : Nat :=
  source.toList.count '\n' + 1

end VisiblyPushdown.Source
