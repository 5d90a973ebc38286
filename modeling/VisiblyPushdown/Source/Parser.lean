import VisiblyPushdown.Source.Cursor
import VisiblyPushdown.Source.Draft
import VisiblyPushdown.Source.Lexer

/-!
# Grammar source text

The description of a grammar is read from its tokens by recursive descent. Only parser rules, whose
names start with a lower-case letter or an underscore, contribute to it; token rules, imports, modes
and options are recognized just far enough to be skipped. The first parser rule is the start. Code
inside a rule is an error, since the description cannot keep it.

Every loop takes at least one token a turn, so the number of tokens bounds its turns. From the
alternatives of a rule to those of a block inside it there are three calls and at least one token,
so three calls for each token bound that recursion.
-/

namespace VisiblyPushdown.Source

/-- Whether the name is that of a token rule, which starts with an upper-case letter. -/
def isTokenName (name : String) : Bool :=
  (name.toList.head?.map Char.isUpper).getD false

namespace Cursor

/-- Whether the next token ends a sequence of elements; the end of the text does, too. -/
def endsAlternative (cursor : Cursor) : Bool :=
  (cursor.kind?.map TokenKind.endsAlternative).getD true

/-- The cursor behind `label=` or `label+=`, if that comes next. -/
def skipElementLabel (cursor : Cursor) : Cursor :=
  if cursor.isAt .identifier ∧
      (cursor.kindAt? 1 = some .assign ∨ cursor.kindAt? 1 = some .plusAssign) then
    cursor.advance 2
  else cursor

/-- The cursor behind the label `# Name` of an alternative, if that comes next. -/
def skipAlternativeLabel (cursor : Cursor) : Except GrammarError Cursor :=
  if cursor.isAt .pound then cursor.advance.pass .identifier "alternative label" else .ok cursor

/-- Whether an options block comes next. -/
def isAtOptions (cursor : Cursor) : Bool :=
  cursor.isAtWord "options" && cursor.kindAt? 1 = some .actionBlock

/-- The cursor behind the options of a block and their colon, if they come next. -/
def skipBlockOptions (cursor : Cursor) : Except GrammarError Cursor :=
  if cursor.isAtOptions then (cursor.advance 2).pass .colon "`:`" else .ok cursor

/-- The repetition mark that comes next, and the cursor behind it and a `?` that may follow. -/
def repetition (cursor : Cursor) : Repetition × Cursor :=
  match cursor.kind? with
  | some .question => (.optional, cursor.advance.skip .question)
  | some .star => (.star, cursor.advance.skip .question)
  | some .plus => (.plus, cursor.advance.skip .question)
  | _ => (.once, cursor)

/-- The cursor behind `@name {…}` or `@scope::name {…}`, which has to come next. -/
def passNamedAction (cursor : Cursor) : Except GrammarError Cursor := do
  let cursor ← cursor.pass .at "`@`"
  let cursor ← cursor.pass .identifier "action name"
  let cursor ← if cursor.isAt .doubleColon then cursor.advance.pass .identifier "action name"
    else pure cursor
  cursor.pass .actionBlock "action block"

/-- The cursor behind a list of further exception names, each with a comma in front of it. -/
def passExceptionNames : (turns : Nat) → Cursor → Except GrammarError Cursor
  | 0, cursor => pure cursor
  | turns + 1, cursor => do
    if cursor.isAt .comma then
      passExceptionNames turns (← cursor.advance.pass .identifier "exception name")
    else pure cursor

/-- The cursor behind arguments, `returns`, `locals`, `throws`, options and actions of a rule. -/
def passPrelude : (turns : Nat) → Cursor → Except GrammarError Cursor
  | 0, cursor => pure cursor
  | turns + 1, cursor => do
    if cursor.isAt .bracketBlock then passPrelude turns cursor.advance
    else if cursor.isAtWord "returns" || cursor.isAtWord "locals" then
      passPrelude turns (← cursor.advance.pass .bracketBlock "`[...]`")
    else if cursor.isAtWord "throws" then
      let cursor ← cursor.advance.pass .identifier "exception name"
      passPrelude turns (← passExceptionNames cursor.tokens.length cursor)
    else if cursor.isAtOptions then passPrelude turns (cursor.advance 2)
    else if cursor.isAt .at then passPrelude turns (← cursor.passNamedAction)
    else pure cursor

/-- The cursor behind the `catch` and `finally` clauses of a rule. -/
def passHandlers : (turns : Nat) → Cursor → Except GrammarError Cursor
  | 0, cursor => pure cursor
  | turns + 1, cursor => do
    if cursor.isAtWord "catch" then
      let cursor ← cursor.advance.pass .bracketBlock "`[...]`"
      passHandlers turns (← cursor.pass .actionBlock "action block")
    else if cursor.isAtWord "finally" then
      passHandlers turns (← cursor.advance.pass .actionBlock "action block")
    else pure cursor

/-- The number of tokens in the complement of a set, such as `~'a'` or `~('a' | 'b')`. -/
def complementLength (cursor : Cursor) : Except GrammarError Nat :=
  match cursor.kindAt? 1 with
  | some .leftParen =>
    match closingParen? 0 cursor.advance.tokens with
    | some closing => .ok (closing + 2)
    | none => cursor.advance.fail .unclosedParenthesis
  | some .stringLiteral | some .identifier | some .bracketBlock => .ok 2
  | _ => cursor.advance.fail .expectedSet

end Cursor

namespace Draft

/-- Reads a string literal or the range that it starts; the range stands for its first literal. -/
def readLiteral (draft : Draft) (cursor : Cursor) :
    Except GrammarError (Symbol × Draft × Cursor) := do
  let (symbol, draft) := draft.mentionTerminal cursor.text
  let cursor := cursor.advance
  if cursor.isAt .range then
    return (symbol, draft, ← cursor.advance.pass .stringLiteral "range end")
  else return (symbol, draft, cursor)

/-- Reads the name of a token, or that of a rule with the arguments that may follow it. -/
def readName (draft : Draft) (cursor : Cursor) : Symbol × Draft × Cursor :=
  if isTokenName cursor.text then
    let (symbol, draft) := draft.mentionTerminal cursor.text
    (symbol, draft, cursor.advance)
  else
    let (symbol, draft) := draft.mentionNonterminal cursor.text
    (symbol, draft, cursor.advance.skip .bracketBlock)

/-- Reads the complement of a set, which is a terminal named after its text. -/
def readComplement (draft : Draft) (cursor : Cursor) :
    Except GrammarError (Symbol × Draft × Cursor) := do
  let length ← cursor.complementLength
  let (symbol, draft) := draft.mentionTerminal (joinedText cursor.tokens length)
  return (symbol, draft, cursor.advance length)

/-- Reads an element that is not a block, without its options. -/
def readPlainAtom (draft : Draft) (cursor : Cursor) :
    Except GrammarError (Symbol × Draft × Cursor) :=
  match cursor.kind? with
  | some .stringLiteral => draft.readLiteral cursor
  | some .identifier => .ok (draft.readName cursor)
  | some .dot =>
    let (symbol, draft) := draft.mentionTerminal "."
    .ok (symbol, draft, cursor.advance)
  | some .tilde => draft.readComplement cursor
  | _ => cursor.fail (.expectedElement cursor.text)

/-- Reads an element that is not a block, with its options. -/
def readAtom (draft : Draft) (cursor : Cursor) :
    Except GrammarError (Symbol × Draft × Cursor) := do
  let (symbol, draft, cursor) ← draft.readPlainAtom cursor
  return (symbol, draft, ← cursor.skipElementOptions)

mutual

/-- Reads alternatives with bars between them; `rule` is the rule of the source that holds them. -/
def readAlternatives (rule : String) : (calls : Nat) → Draft → Cursor →
    Except GrammarError (List Alternative × Draft × Cursor)
  | 0, draft, cursor => pure ([], draft, cursor)
  | calls + 1, draft, cursor => do
    let cursor ← cursor.skipElementOptions
    let (alternative, draft, cursor) ← readElements rule calls draft cursor
    let cursor ← cursor.skipAlternativeLabel
    if cursor.isAt .bar then
      let (others, draft, cursor) ← readAlternatives rule calls draft cursor.advance
      return (alternative :: others, draft, cursor)
    else return ([alternative], draft, cursor)

/-- Reads elements up to the end of an alternative. -/
def readElements (rule : String) : (calls : Nat) → Draft → Cursor →
    Except GrammarError (Alternative × Draft × Cursor)
  | 0, draft, cursor => pure ([], draft, cursor)
  | calls + 1, draft, cursor => do
    if cursor.endsAlternative then return ([], draft, cursor)
    if cursor.isAt .actionBlock then throw (.embeddedAction rule cursor.text)
    let cursor := cursor.skipElementLabel
    let (symbol, draft, cursor) ←
      if cursor.isAt .leftParen then readBlock rule calls draft cursor else draft.readAtom cursor
    let (repetition, cursor) := cursor.repetition
    let (others, draft, cursor) ← readElements rule calls draft cursor
    return ({ symbol, repetition } :: others, draft, cursor)

/-- Reads a block, or passes over it when a block with the same text was read before. -/
def readBlock (rule : String) : (calls : Nat) → Draft → Cursor →
    Except GrammarError (Symbol × Draft × Cursor)
  | 0, draft, cursor => pure (⟨"", .nonterminal⟩, draft, cursor)
  | calls + 1, draft, cursor => do
    match closingParen? 0 cursor.tokens with
    | none => cursor.fail .unclosedParenthesis
    | some closing =>
      let text := joinedText cursor.tokens (closing + 1)
      match draft.blocks.lookup text with
      | some name => return (⟨name, .nonterminal⟩, draft, cursor.advance (closing + 1))
      | none =>
        let (name, draft) := draft.openBlock text
        let cursor ← cursor.advance.skipBlockOptions
        let (alternatives, draft, cursor) ← readAlternatives rule calls draft cursor
        let cursor ← cursor.pass .rightParen "`)`"
        return (⟨name, .nonterminal⟩, draft.setRule name alternatives, cursor)

end

/-- Reads the body of a parser rule, behind its colon, and the semicolon that ends it. -/
def readBody (draft : Draft) (name : String) (cursor : Cursor) :
    Except GrammarError (Draft × Cursor) := do
  let (alternatives, draft, cursor) ← readAlternatives name (3 * cursor.tokens.length + 1)
    (draft.openRule name) cursor
  return (draft.setRule name alternatives, ← cursor.pass .semicolon "`;`")

/-- Reads a parser rule; a rule whose name is taken is passed over. -/
def readRule (draft : Draft) (cursor : Cursor) : Except GrammarError (Draft × Cursor) := do
  let name := cursor.text
  let cursor ← Cursor.passPrelude cursor.tokens.length cursor.advance
  let (draft, cursor) ←
    if draft.hasRule name then pure (draft, cursor.skipPastSemicolon)
    else draft.readBody name (← cursor.pass .colon "`:`")
  return (draft, ← Cursor.passHandlers cursor.tokens.length cursor)

/-- Reads one item of a grammar: a rule, or something to be skipped. -/
def readItem (draft : Draft) (cursor : Cursor) : Except GrammarError (Draft × Cursor) := do
  if (cursor.isAtWord "options" || cursor.isAtWord "tokens" || cursor.isAtWord "channels") &&
      cursor.kindAt? 1 = some .actionBlock then
    return (draft, cursor.advance 2)
  if cursor.isAtWord "import" || cursor.isAtWord "mode" || cursor.isAtWord "fragment" then
    return (draft, cursor.skipPastSemicolon)
  if cursor.isAt .at then
    return (draft, ← cursor.passNamedAction)
  let cursor := ["public", "private", "protected"].foldl skipModifier cursor
  if cursor.isAt .identifier then
    if isTokenName cursor.text then return (draft, cursor.skipPastSemicolon)
    else draft.readRule cursor
  else cursor.fail (.expectedRule cursor.text)
where
  /-- The cursor behind a modifier, if that comes next and a name follows. -/
  skipModifier (cursor : Cursor) (modifier : String) : Cursor :=
    if cursor.isAtWord modifier ∧ cursor.kindAt? 1 = some .identifier then cursor.advance
    else cursor

/-- Reads items up to the end of the text. -/
def readItems : (turns : Nat) → Draft → Cursor → Except GrammarError Draft
  | 0, draft, _ => pure draft
  | turns + 1, draft, cursor => do
    if cursor.tokens.isEmpty then return draft
    let (draft, cursor) ← draft.readItem cursor
    readItems turns draft cursor

/--
Reads the header `grammar Name;`, which may be missing. A header for a parser or a lexer says so in
front; a grammar for a lexer alone has no parser rules.
-/
def readHeader (cursor : Cursor) : Except GrammarError (Draft × Cursor) := do
  let lexerOnly := cursor.isAtWord "lexer" && cursor.textAt 1 = "grammar"
  let parserOnly := cursor.isAtWord "parser" && cursor.textAt 1 = "grammar"
  if lexerOnly || parserOnly then named lexerOnly (cursor.advance 2)
  else if cursor.isAtWord "grammar" && cursor.kindAt? 1 = some .identifier then
    named false cursor.advance
  else return ({}, cursor)
where
  /-- Reads the name behind the word `grammar` and the semicolon. -/
  named (lexerOnly : Bool) (cursor : Cursor) : Except GrammarError (Draft × Cursor) := do
    let (name, cursor) ← cursor.expect .identifier "grammar name"
    let cursor ← cursor.pass .semicolon "`;`"
    if lexerOnly then throw (.noRules name)
    return ({ description.name := some name }, cursor)

end Draft

/-- The description that a source text holds. -/
def parse (source : String) : Except GrammarError Description := do
  let (draft, cursor) ← Draft.readHeader { tokens := tokens source, lastLine := lastLine source }
  let draft ← Draft.readItems cursor.tokens.length draft cursor
  if draft.description.start.isSome then return draft.description
  else throw (.noRules draft.description.displayName)

end VisiblyPushdown.Source
