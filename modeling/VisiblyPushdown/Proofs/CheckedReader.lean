import VisiblyPushdown.Proofs.CheckedLexing
import VisiblyPushdown.Source.Parser

/-!
# Reading with checks

The reader again, with a position in the list of tokens instead of the tokens that are left, and
with spans of bytes instead of texts. Nothing keeps a position inside the list, a span at the ends
of characters, or a count above zero, so each step checks what it takes for granted, and each loop
is given a number of turns and crashes when it needs more. Each item and each element is checked to
move the position on.
-/

namespace VisiblyPushdown.Source

/-- A source text and the spans of its tokens. -/
structure Scan where
  source : List Char
  spans : List Span

/-- The text from one offset up to another one. -/
def slice (text : List Char) (start stop : Nat) : Checked String := do
  if stop < start then crash .insideCharacter
  let (_, behind) ← cutBytes start text
  let (piece, _) ← cutBytes (stop - start) behind
  return String.ofList piece

/--
The position of the parenthesis that closes a group. `depth` parentheses are open in front of the
spans, the first of which is at the given position.
-/
def closingPosition? : (depth position : Nat) → List Span → Checked (Option Nat)
  | _, _, [] => pure none
  | depth, position, span :: rest =>
    match span.kind with
    | .leftParen => closingPosition? (depth + 1) (position + 1) rest
    | .rightParen =>
      match depth with
      | 0 => crash .underflow
      | 1 => pure (some position)
      | depth + 1 => closingPosition? depth (position + 1) rest
    | _ => closingPosition? depth (position + 1) rest

/-- Checks that a position was moved on. -/
def ensureProgress (before after : Nat) : Checked Unit :=
  if before < after then pure () else crash .noProgress

namespace Scan

variable (scan : Scan)

/-- The kind of the token at a position. -/
def kindAt? (position : Nat) : Option TokenKind :=
  scan.spans[position]?.map Span.kind

/-- Whether the token at a position is of the given kind. -/
def isAt (position : Nat) (kind : TokenKind) : Bool :=
  scan.kindAt? position = some kind

/-- Whether no token is at a position or behind it. -/
def isEnd (position : Nat) : Bool :=
  scan.spans.length ≤ position

/-- The number of tokens from a position on. -/
def remaining (position : Nat) : Nat :=
  scan.spans.length - position

/-- The text of the token at a position; it is empty behind the end. -/
def textAt (position : Nat) : Checked String :=
  match scan.spans[position]? with
  | some span => slice scan.source span.start span.stop
  | none => pure ""

/-- Whether the token at a position is the given word. -/
def isAtWord (position : Nat) (word : String) : Checked Bool := do
  return scan.isAt position .identifier && (← scan.textAt position) = word

/-- The line on which the token at a position starts, or the last line behind the end. -/
def line (position : Nat) : Checked Nat := do
  let start := (scan.spans[position]?.map Span.start).getD (byteLength scan.source)
  let front ← slice scan.source 0 start
  return front.toList.count '\n' + 1

/-- A fault at a position. -/
def fail {α : Type} (position : Nat) (fault : Fault) : Checked α := do
  throw (.malformed (← scan.line position) fault)

/-- A position to which the reader moves. -/
def moveTo (position : Nat) : Checked Nat :=
  if position ≤ scan.spans.length then pure position else crash .pastEnd

/-- The end of a loop without further turns, where no token may be left. -/
def finish {α : Type} (position : Nat) (result : α) : Checked α :=
  if scan.isEnd position then pure result else crash .outOfTurns

def skip (position : Nat) (kind : TokenKind) : Checked Nat :=
  if scan.isAt position kind then scan.moveTo (position + 1) else pure position

def expect (position : Nat) (kind : TokenKind) (what : String) : Checked (String × Nat) := do
  if scan.isAt position kind then
    return (← scan.textAt position, ← scan.moveTo (position + 1))
  else if scan.isEnd position then scan.fail position (.expected what none)
  else scan.fail position (.expected what (some (← scan.textAt position)))

def pass (position : Nat) (kind : TokenKind) (what : String) : Checked Nat := do
  let (_, position) ← scan.expect position kind what
  return position

/-- The position behind the next semicolon that stands outside parentheses. -/
def pastSemicolon : (turns depth position : Nat) → Checked Nat
  | 0, _, position => scan.finish position position
  | turns + 1, depth, position => do
    if scan.isEnd position then return position
    let next ← scan.moveTo (position + 1)
    match scan.kindAt? position with
    | some .leftParen => pastSemicolon turns (depth + 1) next
    | some .rightParen => pastSemicolon turns (depth - 1) next
    | some .semicolon => if depth = 0 then return next else pastSemicolon turns depth next
    | _ => pastSemicolon turns depth next

def skipPastSemicolon (position : Nat) : Checked Nat :=
  scan.pastSemicolon (scan.remaining position) 0 position

/-- The texts of the tokens from one position to another one, written one behind the other. -/
def joinedText (first last : Nat) : Checked String := do
  if last < scan.spans.length then
    return String.join (← (List.range' first (last + 1 - first)).mapM scan.textAt)
  else crash .outOfRange

/-- The position behind the next `>`. -/
def pastGreater : (turns position : Nat) → Checked Nat
  | 0, position => do
    if scan.isEnd position then scan.fail position .unclosedOptions else crash .outOfTurns
  | turns + 1, position => do
    if scan.isAt position .greater then scan.moveTo (position + 1)
    else if scan.isEnd position then scan.fail position .unclosedOptions
    else pastGreater turns (← scan.moveTo (position + 1))

def skipElementOptions (position : Nat) : Checked Nat := do
  if scan.isAt position .less then
    let next ← scan.moveTo (position + 1)
    scan.pastGreater (scan.remaining next) next
  else return position

/-- Whether the token at a position ends a sequence of elements; the end of the text does, too. -/
def endsAlternative (position : Nat) : Bool :=
  ((scan.kindAt? position).map TokenKind.endsAlternative).getD true

def skipElementLabel (position : Nat) : Checked Nat :=
  if scan.isAt position .identifier ∧ (scan.kindAt? (position + 1) = some .assign ∨
      scan.kindAt? (position + 1) = some .plusAssign) then
    scan.moveTo (position + 2)
  else pure position

def skipAlternativeLabel (position : Nat) : Checked Nat := do
  if scan.isAt position .pound then
    scan.pass (← scan.moveTo (position + 1)) .identifier "alternative label"
  else return position

def isAtOptions (position : Nat) : Checked Bool := do
  return (← scan.isAtWord position "options") &&
    scan.kindAt? (position + 1) = some .actionBlock

def skipBlockOptions (position : Nat) : Checked Nat := do
  if ← scan.isAtOptions position then
    scan.pass (← scan.moveTo (position + 2)) .colon "`:`"
  else return position

def repetition (position : Nat) : Checked (Repetition × Nat) := do
  match scan.kindAt? position with
  | some .question => return (.optional, ← scan.skip (← scan.moveTo (position + 1)) .question)
  | some .star => return (.star, ← scan.skip (← scan.moveTo (position + 1)) .question)
  | some .plus => return (.plus, ← scan.skip (← scan.moveTo (position + 1)) .question)
  | _ => return (.once, position)

def passNamedAction (position : Nat) : Checked Nat := do
  let position ← scan.pass position .at "`@`"
  let position ← scan.pass position .identifier "action name"
  let position ← if scan.isAt position .doubleColon then
      scan.pass (← scan.moveTo (position + 1)) .identifier "action name"
    else pure position
  scan.pass position .actionBlock "action block"

def passExceptionNames : (turns position : Nat) → Checked Nat
  | 0, position => scan.finish position position
  | turns + 1, position => do
    if scan.isAt position .comma then
      let next ← scan.moveTo (position + 1)
      passExceptionNames turns (← scan.pass next .identifier "exception name")
    else return position

def passPrelude : (turns position : Nat) → Checked Nat
  | 0, position => scan.finish position position
  | turns + 1, position => do
    if scan.isAt position .bracketBlock then
      passPrelude turns (← scan.moveTo (position + 1))
    else if (← scan.isAtWord position "returns") || (← scan.isAtWord position "locals") then
      let next ← scan.moveTo (position + 1)
      passPrelude turns (← scan.pass next .bracketBlock "`[...]`")
    else if ← scan.isAtWord position "throws" then
      let next ← scan.moveTo (position + 1)
      let next ← scan.pass next .identifier "exception name"
      passPrelude turns (← scan.passExceptionNames (scan.remaining next) next)
    else if ← scan.isAtOptions position then
      passPrelude turns (← scan.moveTo (position + 2))
    else if scan.isAt position .at then passPrelude turns (← scan.passNamedAction position)
    else return position

def passHandlers : (turns position : Nat) → Checked Nat
  | 0, position => scan.finish position position
  | turns + 1, position => do
    if ← scan.isAtWord position "catch" then
      let next ← scan.moveTo (position + 1)
      let next ← scan.pass next .bracketBlock "`[...]`"
      passHandlers turns (← scan.pass next .actionBlock "action block")
    else if ← scan.isAtWord position "finally" then
      let next ← scan.moveTo (position + 1)
      passHandlers turns (← scan.pass next .actionBlock "action block")
    else return position

def readLiteral (draft : Draft) (position : Nat) : Checked (Symbol × Draft × Nat) := do
  let (symbol, draft) := draft.mentionTerminal (← scan.textAt position)
  let position ← scan.moveTo (position + 1)
  if scan.isAt position .range then
    let position ← scan.moveTo (position + 1)
    return (symbol, draft, ← scan.pass position .stringLiteral "range end")
  else return (symbol, draft, position)

def readName (draft : Draft) (position : Nat) : Checked (Symbol × Draft × Nat) := do
  let name ← scan.textAt position
  let position ← scan.moveTo (position + 1)
  if isTokenName name then
    let (symbol, draft) := draft.mentionTerminal name
    return (symbol, draft, position)
  else
    let (symbol, draft) := draft.mentionNonterminal name
    return (symbol, draft, ← scan.skip position .bracketBlock)

/-- The position behind the set whose complement is meant. -/
def passSet (position : Nat) : Checked Nat := do
  match scan.kindAt? position with
  | some .leftParen =>
    match ← closingPosition? 0 position (scan.spans.drop position) with
    | some closing => scan.moveTo (closing + 1)
    | none => scan.fail position .unclosedParenthesis
  | some .stringLiteral | some .identifier | some .bracketBlock => scan.moveTo (position + 1)
  | _ => scan.fail position .expectedSet

def readComplement (draft : Draft) (start : Nat) : Checked (Symbol × Draft × Nat) := do
  let position ← scan.moveTo (start + 1)
  let position ← scan.passSet position
  match position with
  | 0 => crash .underflow
  | last + 1 =>
    let (symbol, draft) := draft.mentionTerminal (← scan.joinedText start last)
    return (symbol, draft, position)

def readPlainAtom (draft : Draft) (position : Nat) : Checked (Symbol × Draft × Nat) := do
  match scan.kindAt? position with
  | some .stringLiteral => scan.readLiteral draft position
  | some .identifier => scan.readName draft position
  | some .dot =>
    let (symbol, draft) := draft.mentionTerminal "."
    return (symbol, draft, ← scan.moveTo (position + 1))
  | some .tilde => scan.readComplement draft position
  | _ => scan.fail position (.expectedElement (← scan.textAt position))

def readAtom (draft : Draft) (position : Nat) : Checked (Symbol × Draft × Nat) := do
  let (symbol, draft, position) ← scan.readPlainAtom draft position
  return (symbol, draft, ← scan.skipElementOptions position)

mutual

def readAlternatives (rule : String) : (calls : Nat) → Draft → Nat →
    Checked (List Alternative × Draft × Nat)
  | 0, _, _ => crash .outOfTurns
  | calls + 1, draft, position => do
    let position ← scan.skipElementOptions position
    let (alternative, draft, position) ← readElements rule calls draft position
    let position ← scan.skipAlternativeLabel position
    if scan.isAt position .bar then
      let next ← scan.moveTo (position + 1)
      let (others, draft, position) ← readAlternatives rule calls draft next
      return (alternative :: others, draft, position)
    else return ([alternative], draft, position)

def readElements (rule : String) : (calls : Nat) → Draft → Nat →
    Checked (Alternative × Draft × Nat)
  | 0, draft, position => scan.finish position ([], draft, position)
  | calls + 1, draft, start => do
    if scan.endsAlternative start then return ([], draft, start)
    if scan.isAt start .actionBlock then throw (.embeddedAction rule (← scan.textAt start))
    let position ← scan.skipElementLabel start
    let (symbol, draft, position) ←
      if scan.isAt position .leftParen then readBlock rule calls draft position
      else scan.readAtom draft position
    let (repetition, position) ← scan.repetition position
    ensureProgress start position
    let (others, draft, position) ← readElements rule calls draft position
    return ({ symbol, repetition } :: others, draft, position)

def readBlock (rule : String) : (calls : Nat) → Draft → Nat → Checked (Symbol × Draft × Nat)
  | 0, _, _ => crash .outOfTurns
  | calls + 1, draft, position => do
    match ← closingPosition? 0 position (scan.spans.drop position) with
    | none => scan.fail position .unclosedParenthesis
    | some closing =>
      let text ← scan.joinedText position closing
      match draft.blocks.lookup text with
      | some name => return (⟨name, .nonterminal⟩, draft, ← scan.moveTo (closing + 1))
      | none =>
        let (name, draft) := draft.openBlock text
        let position ← scan.pass position .leftParen "`(`"
        let position ← scan.skipBlockOptions position
        let (alternatives, draft, position) ← readAlternatives rule calls draft position
        let position ← scan.pass position .rightParen "`)`"
        return (⟨name, .nonterminal⟩, draft.setRule name alternatives, position)

end

def readBody (draft : Draft) (name : String) (position : Nat) : Checked (Draft × Nat) := do
  let (alternatives, draft, position) ←
    scan.readAlternatives name (3 * scan.remaining position + 1) (draft.openRule name) position
  return (draft.setRule name alternatives, ← scan.pass position .semicolon "`;`")

def readRule (draft : Draft) (position : Nat) : Checked (Draft × Nat) := do
  let name ← scan.textAt position
  let next ← scan.moveTo (position + 1)
  let position ← scan.passPrelude (scan.remaining position) next
  let (draft, position) ←
    if draft.hasRule name then pure (draft, ← scan.skipPastSemicolon position)
    else scan.readBody draft name (← scan.pass position .colon "`:`")
  return (draft, ← scan.passHandlers (scan.remaining position) position)

def skipModifier (position : Nat) (modifier : String) : Checked Nat := do
  if (← scan.isAtWord position modifier) ∧ scan.kindAt? (position + 1) = some .identifier then
    scan.moveTo (position + 1)
  else return position

def readItem (draft : Draft) (position : Nat) : Checked (Draft × Nat) := do
  if ((← scan.isAtWord position "options") || (← scan.isAtWord position "tokens") ||
      (← scan.isAtWord position "channels")) &&
      scan.kindAt? (position + 1) = some .actionBlock then
    return (draft, ← scan.moveTo (position + 2))
  if (← scan.isAtWord position "import") || (← scan.isAtWord position "mode") ||
      (← scan.isAtWord position "fragment") then
    return (draft, ← scan.skipPastSemicolon position)
  if scan.isAt position .at then
    return (draft, ← scan.passNamedAction position)
  let position ← ["public", "private", "protected"].foldlM scan.skipModifier position
  let text ← scan.textAt position
  if scan.isAt position .identifier then
    if isTokenName text then return (draft, ← scan.skipPastSemicolon position)
    else scan.readRule draft position
  else scan.fail position (.expectedRule text)

def readItems : (turns : Nat) → Draft → Nat → Checked Draft
  | 0, draft, position => scan.finish position draft
  | turns + 1, draft, start => do
    if scan.isEnd start then return draft
    let (draft, position) ← scan.readItem draft start
    ensureProgress start position
    readItems turns draft position

/-- Reads the name in a header and the semicolon behind it. -/
def readHeaderName (lexerOnly : Bool) (position : Nat) : Checked (Draft × Nat) := do
  let (name, position) ← scan.expect position .identifier "grammar name"
  let position ← scan.pass position .semicolon "`;`"
  if lexerOnly then throw (.noRules name)
  return ({ description.name := some name }, position)

def readHeader (position : Nat) : Checked (Draft × Nat) := do
  let lexerOnly := (← scan.isAtWord position "lexer") && (← scan.textAt (position + 1)) = "grammar"
  let parserOnly :=
    (← scan.isAtWord position "parser") && (← scan.textAt (position + 1)) = "grammar"
  if lexerOnly || parserOnly then scan.readHeaderName lexerOnly (← scan.moveTo (position + 2))
  else if (← scan.isAtWord position "grammar") &&
      scan.kindAt? (position + 1) = some .identifier then
    scan.readHeaderName false (← scan.moveTo (position + 1))
  else return ({}, position)

end Scan

/-- Reads the description that a source text holds, with all checks. -/
def checkedParse (source : String) : Checked Description := do
  let scan : Scan := { source := source.toList, spans := ← spans source }
  let (draft, position) ← scan.readHeader 0
  let draft ← scan.readItems (scan.remaining position) draft position
  if draft.description.start.isSome then return draft.description
  else throw (.noRules draft.description.displayName)

end VisiblyPushdown.Source
