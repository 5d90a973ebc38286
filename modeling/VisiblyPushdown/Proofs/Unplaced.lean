import VisiblyPushdown.Proofs.Spelling
import VisiblyPushdown.Source.Parser

/-!
# Reading without places

What is read depends on the kinds and the texts of the tokens. Where they stand only shows in the
line of a fault. So each reader does the same when the places of all tokens are taken away, apart
from that line: one lemma says so for each of them, and a reader that is made of others gets it from
theirs.
-/

namespace VisiblyPushdown

/-- The error without the line on which it was found. -/
def GrammarError.unplaced : GrammarError → GrammarError
  | malformed _ fault => malformed 0 fault
  | error => error

namespace Source

/-- What was read, rewritten by `keep`, or the error without its line. -/
def unplacedOutcome {α β : Type} (keep : α → β) :
    Except GrammarError α → Except GrammarError β
  | .ok value => .ok (keep value)
  | .error error => .error error.unplaced

/-- A token that is taken from its place. -/
def Token.unplaced (token : Token) : Token :=
  { token with start := 0, stop := 0, line := 0 }

/-- A cursor in front of the same tokens without their places. -/
def Cursor.unplaced (cursor : Cursor) : Cursor where
  tokens := cursor.tokens.map Token.unplaced
  lastLine := 0

section Outcomes

variable {α β γ δ : Type}

/-- Outcomes agree without their places if those of both steps do. -/
theorem bind_unplaced {keep : α → γ} {keep_next : β → δ} {attempt : Except GrammarError α}
    {twin : Except GrammarError γ} {next : α → Except GrammarError β}
    {twin_next : γ → Except GrammarError δ} (first : twin = unplacedOutcome keep attempt)
    (second : ∀ value, twin_next (keep value) = unplacedOutcome keep_next (next value)) :
    twin >>= twin_next = unplacedOutcome keep_next (attempt >>= next) := by
  subst first
  cases attempt with
  | ok value => exact second value
  | error error => rfl

end Outcomes

theorem pastSemicolon_unplaced (depth : Nat) (tokens : List Token) :
    pastSemicolon depth (tokens.map Token.unplaced) =
      (pastSemicolon depth tokens).map Token.unplaced := by
  induction tokens generalizing depth with
  | nil => rfl
  | cons token tokens ih =>
      cases kind_eq : token.kind with
      | semicolon =>
          simp only [List.map_cons, pastSemicolon, Token.unplaced, kind_eq, ih]
          split <;> rfl
      | _ => simp [pastSemicolon, Token.unplaced, kind_eq, ih]

theorem closingParen?_unplaced (depth : Nat) (tokens : List Token) :
    closingParen? depth (tokens.map Token.unplaced) = closingParen? depth tokens := by
  induction tokens generalizing depth with
  | nil => rfl
  | cons token tokens ih =>
      cases kind_eq : token.kind <;> simp [closingParen?, Token.unplaced, kind_eq, ih]

theorem joinedText_unplaced (tokens : List Token) (count : Nat) :
    joinedText (tokens.map Token.unplaced) count = joinedText tokens count := by
  rw [joinedText, ← List.map_take, List.map_map]
  rfl

theorem pastGreater?_unplaced (tokens : List Token) :
    pastGreater? (tokens.map Token.unplaced) =
      (pastGreater? tokens).map (List.map Token.unplaced) := by
  induction tokens with
  | nil => rfl
  | cons token tokens ih =>
      simp only [List.map_cons, pastGreater?, ih, Token.unplaced]
      split <;> rfl

namespace Cursor

variable (cursor : Cursor) (kind : TokenKind) (what : String)

theorem tokens_unplaced : cursor.unplaced.tokens = cursor.tokens.map Token.unplaced :=
  rfl

@[simp]
theorem kindAt?_unplaced (distance : Nat) :
    cursor.unplaced.kindAt? distance = cursor.kindAt? distance := by
  simp only [kindAt?, unplaced, List.getElem?_map, Option.map_map]
  rfl

@[simp]
theorem textAt_unplaced (distance : Nat) :
    cursor.unplaced.textAt distance = cursor.textAt distance := by
  simp only [textAt, unplaced, List.getElem?_map, Option.map_map]
  rfl

@[simp]
theorem kind?_unplaced : cursor.unplaced.kind? = cursor.kind? :=
  cursor.kindAt?_unplaced 0

@[simp]
theorem text_unplaced : cursor.unplaced.text = cursor.text :=
  cursor.textAt_unplaced 0

@[simp]
theorem length_tokens_unplaced : cursor.unplaced.tokens.length = cursor.tokens.length :=
  List.length_map _

@[simp]
theorem isAt_unplaced : cursor.unplaced.isAt kind = cursor.isAt kind := by
  simp [isAt]

@[simp]
theorem isAtWord_unplaced (word : String) :
    cursor.unplaced.isAtWord word = cursor.isAtWord word := by
  simp [isAtWord]

@[simp]
theorem advance_unplaced (count : Nat) :
    cursor.unplaced.advance count = (cursor.advance count).unplaced := by
  simp [advance, unplaced]

@[simp]
theorem skip_unplaced : cursor.unplaced.skip kind = (cursor.skip kind).unplaced := by
  simp only [skip, isAt_unplaced, advance_unplaced]
  split <;> rfl

theorem fail_unplaced {α β : Type} (keep : α → β) (fault : Fault) :
    cursor.unplaced.fail fault = unplacedOutcome keep (cursor.fail fault) := by
  rcases cursor with ⟨tokens, lastLine⟩
  cases tokens <;> rfl

theorem expect_unplaced : cursor.unplaced.expect kind what =
    unplacedOutcome (Prod.map id unplaced) (cursor.expect kind what) := by
  have found_eq : cursor.unplaced.tokens.head?.map Token.text =
      cursor.tokens.head?.map Token.text := by
    simp only [unplaced, List.head?_map, Option.map_map]
    rfl
  simp only [expect, isAt_unplaced, text_unplaced, advance_unplaced, found_eq]
  split
  · rfl
  · exact cursor.fail_unplaced _ _

theorem pass_unplaced :
    cursor.unplaced.pass kind what = unplacedOutcome unplaced (cursor.pass kind what) := by
  rw [pass, expect_unplaced, pass]
  cases cursor.expect kind what <;> rfl

@[simp]
theorem skipPastSemicolon_unplaced :
    cursor.unplaced.skipPastSemicolon = cursor.skipPastSemicolon.unplaced := by
  simp [skipPastSemicolon, unplaced, pastSemicolon_unplaced]

theorem skipElementOptions_unplaced : cursor.unplaced.skipElementOptions =
    unplacedOutcome unplaced cursor.skipElementOptions := by
  simp only [skipElementOptions, isAt_unplaced, advance_unplaced]
  split
  · simp only [unplaced, pastGreater?_unplaced]
    cases pastGreater? cursor.advance.tokens <;> rfl
  · rfl

@[simp]
theorem endsAlternative_unplaced :
    cursor.unplaced.endsAlternative = cursor.endsAlternative := by
  simp [endsAlternative]

@[simp]
theorem skipElementLabel_unplaced :
    cursor.unplaced.skipElementLabel = cursor.skipElementLabel.unplaced := by
  simp only [skipElementLabel, isAt_unplaced, kindAt?_unplaced, advance_unplaced]
  split <;> rfl

theorem skipAlternativeLabel_unplaced : cursor.unplaced.skipAlternativeLabel =
    unplacedOutcome unplaced cursor.skipAlternativeLabel := by
  simp only [skipAlternativeLabel, isAt_unplaced, advance_unplaced, pass_unplaced]
  split <;> rfl

@[simp]
theorem isAtOptions_unplaced : cursor.unplaced.isAtOptions = cursor.isAtOptions := by
  simp [isAtOptions]

theorem skipBlockOptions_unplaced : cursor.unplaced.skipBlockOptions =
    unplacedOutcome unplaced cursor.skipBlockOptions := by
  simp only [skipBlockOptions, isAtOptions_unplaced, advance_unplaced, pass_unplaced]
  split <;> rfl

@[simp]
theorem repetition_unplaced :
    cursor.unplaced.repetition = Prod.map id unplaced cursor.repetition := by
  simp only [repetition, kind?_unplaced, advance_unplaced, skip_unplaced]
  split <;> rfl

theorem passNamedAction_unplaced :
    cursor.unplaced.passNamedAction = unplacedOutcome unplaced cursor.passNamedAction := by
  apply bind_unplaced (cursor.pass_unplaced _ _)
  intro behind
  apply bind_unplaced (behind.pass_unplaced _ _)
  intro behind
  simp only [isAt_unplaced, advance_unplaced]
  split
  · apply bind_unplaced (behind.advance.pass_unplaced _ _)
    intro behind
    exact behind.pass_unplaced _ _
  · exact behind.pass_unplaced _ _

theorem passExceptionNames_unplaced (turns : Nat) : passExceptionNames turns cursor.unplaced =
    unplacedOutcome unplaced (passExceptionNames turns cursor) := by
  induction turns generalizing cursor with
  | zero => rfl
  | succ turns ih =>
      simp only [passExceptionNames, isAt_unplaced, advance_unplaced]
      split
      · exact bind_unplaced (cursor.advance.pass_unplaced _ _) ih
      · rfl

theorem passPrelude_unplaced (turns : Nat) : passPrelude turns cursor.unplaced =
    unplacedOutcome unplaced (passPrelude turns cursor) := by
  induction turns generalizing cursor with
  | zero => rfl
  | succ turns ih =>
      simp only [passPrelude, isAt_unplaced, isAtWord_unplaced, isAtOptions_unplaced,
        advance_unplaced]
      split
      · exact ih cursor.advance
      split
      · exact bind_unplaced (cursor.advance.pass_unplaced _ _) ih
      split
      · apply bind_unplaced (cursor.advance.pass_unplaced _ _)
        intro behind
        rw [length_tokens_unplaced]
        exact bind_unplaced (behind.passExceptionNames_unplaced _) ih
      split
      · exact ih (cursor.advance 2)
      split
      · exact bind_unplaced cursor.passNamedAction_unplaced ih
      · rfl

theorem passHandlers_unplaced (turns : Nat) : passHandlers turns cursor.unplaced =
    unplacedOutcome unplaced (passHandlers turns cursor) := by
  induction turns generalizing cursor with
  | zero => rfl
  | succ turns ih =>
      simp only [passHandlers, isAtWord_unplaced, advance_unplaced]
      split
      · apply bind_unplaced (cursor.advance.pass_unplaced _ _)
        intro behind
        exact bind_unplaced (behind.pass_unplaced _ _) ih
      split
      · exact bind_unplaced (cursor.advance.pass_unplaced _ _) ih
      · rfl

theorem complementLength_unplaced :
    cursor.unplaced.complementLength = unplacedOutcome id cursor.complementLength := by
  simp only [complementLength, kindAt?_unplaced, advance_unplaced]
  split
  · simp only [tokens_unplaced, closingParen?_unplaced]
    cases closingParen? 0 cursor.advance.tokens with
    | none => exact cursor.advance.fail_unplaced _ _
    | some closing => rfl
  · rfl
  · rfl
  · rfl
  · exact cursor.advance.fail_unplaced _ _

end Cursor

namespace Draft

open Cursor

variable {rule : String} {calls : Nat} (draft : Draft) (cursor : Cursor)

/-- A part of a rule that was read, with the cursor behind it unplaced. -/
abbrev unplacedPart {α : Type} : α × Draft × Cursor → α × Draft × Cursor :=
  Prod.map id (Prod.map id unplaced)

/-- Whether a reader of parts of rules does the same with unplaced tokens. -/
def IsPlaceless {α : Type} (read : Draft → Cursor → Except GrammarError (α × Draft × Cursor)) :
    Prop :=
  ∀ draft cursor, read draft cursor.unplaced = unplacedOutcome unplacedPart (read draft cursor)

theorem isPlaceless_readLiteral : IsPlaceless readLiteral := by
  intro draft cursor
  simp only [readLiteral, text_unplaced, advance_unplaced, isAt_unplaced]
  split
  · exact bind_unplaced (cursor.advance.advance.pass_unplaced _ _) fun behind => rfl
  · rfl

@[simp]
theorem readName_unplaced :
    draft.readName cursor.unplaced = unplacedPart (draft.readName cursor) := by
  simp only [readName, text_unplaced, advance_unplaced, skip_unplaced]
  split <;> rfl

theorem isPlaceless_readComplement : IsPlaceless readComplement := by
  intro draft cursor
  apply bind_unplaced cursor.complementLength_unplaced
  intro length
  simp only [tokens_unplaced, joinedText_unplaced, advance_unplaced]
  rfl

theorem isPlaceless_readPlainAtom : IsPlaceless readPlainAtom := by
  intro draft cursor
  simp only [readPlainAtom, kind?_unplaced, text_unplaced, advance_unplaced, readName_unplaced]
  split
  · exact isPlaceless_readLiteral draft cursor
  · rfl
  · rfl
  · exact isPlaceless_readComplement draft cursor
  · exact cursor.fail_unplaced _ _

theorem isPlaceless_readAtom : IsPlaceless readAtom := by
  intro draft cursor
  apply bind_unplaced (isPlaceless_readPlainAtom draft cursor)
  rintro ⟨symbol, later, behind⟩
  exact bind_unplaced behind.skipElementOptions_unplaced fun rest => rfl

theorem isPlaceless_readAlternatives_succ
    (alternatives : IsPlaceless (readAlternatives rule calls))
    (elements : IsPlaceless (readElements rule calls)) :
    IsPlaceless (readAlternatives rule (calls + 1)) := by
  intro draft cursor
  simp only [readAlternatives]
  apply bind_unplaced cursor.skipElementOptions_unplaced
  intro first
  apply bind_unplaced (elements draft first)
  rintro ⟨alternative, later, behind⟩
  apply bind_unplaced behind.skipAlternativeLabel_unplaced
  intro bar
  simp only [isAt_unplaced, advance_unplaced]
  split
  · exact bind_unplaced (alternatives later bar.advance) fun others => rfl
  · rfl

/-- What is read behind an element: its mark and the other elements. -/
def readBehind (rule : String) (calls : Nat) (part : Symbol × Draft × Cursor) :
    Except GrammarError (Alternative × Draft × Cursor) := do
  let (symbol, draft, cursor) := part
  let (repetition, cursor) := cursor.repetition
  let (others, draft, cursor) ← readElements rule calls draft cursor
  return (⟨symbol, repetition⟩ :: others, draft, cursor)

theorem readBehind_unplaced (elements : IsPlaceless (readElements rule calls))
    (part : Symbol × Draft × Cursor) :
    readBehind rule calls (unplacedPart part) =
      unplacedOutcome unplacedPart (readBehind rule calls part) := by
  rcases part with ⟨symbol, draft, cursor⟩
  simp only [readBehind, Prod.map, id, repetition_unplaced]
  exact bind_unplaced (elements draft cursor.repetition.2) fun others => rfl

theorem isPlaceless_readElements_succ (elements : IsPlaceless (readElements rule calls))
    (block : IsPlaceless (readBlock rule calls)) :
    IsPlaceless (readElements rule (calls + 1)) := by
  intro draft cursor
  simp only [readElements, endsAlternative_unplaced, isAt_unplaced, text_unplaced,
    skipElementLabel_unplaced]
  split
  · rfl
  split
  · rfl
  split
  · exact bind_unplaced (block draft cursor.skipElementLabel) (readBehind_unplaced elements)
  · exact bind_unplaced (isPlaceless_readAtom draft cursor.skipElementLabel)
      (readBehind_unplaced elements)

theorem isPlaceless_readBlock_succ (alternatives : IsPlaceless (readAlternatives rule calls)) :
    IsPlaceless (readBlock rule (calls + 1)) := by
  intro draft cursor
  simp only [readBlock, tokens_unplaced, closingParen?_unplaced, joinedText_unplaced,
    advance_unplaced]
  cases closingParen? 0 cursor.tokens with
  | none => exact cursor.fail_unplaced _ _
  | some closing =>
      cases known : draft.blocks.lookup (joinedText cursor.tokens (closing + 1)) with
      | some name =>
          simp only [known]
          rfl
      | none =>
          simp only [known]
          apply bind_unplaced cursor.advance.skipBlockOptions_unplaced
          intro first
          apply bind_unplaced (alternatives _ first)
          rintro ⟨found, later, behind⟩
          exact bind_unplaced (behind.pass_unplaced _ _) fun rest => rfl

/-- The readers of alternatives, elements and blocks call each other with one call less. -/
theorem isPlaceless_parts (rule : String) (calls : Nat) :
    IsPlaceless (readAlternatives rule calls) ∧ IsPlaceless (readElements rule calls) ∧
      IsPlaceless (readBlock rule calls) := by
  induction calls with
  | zero => refine ⟨?_, ?_, ?_⟩ <;> exact fun draft cursor => rfl
  | succ calls ih =>
      rcases ih with ⟨alternatives, elements, block⟩
      exact ⟨isPlaceless_readAlternatives_succ alternatives elements,
        isPlaceless_readElements_succ elements block, isPlaceless_readBlock_succ alternatives⟩

theorem readBody_unplaced (name : String) : draft.readBody name cursor.unplaced =
    unplacedOutcome (Prod.map id unplaced) (draft.readBody name cursor) := by
  simp only [readBody, length_tokens_unplaced]
  apply bind_unplaced ((isPlaceless_parts name _).1 _ cursor)
  rintro ⟨alternatives, later, behind⟩
  exact bind_unplaced (behind.pass_unplaced _ _) fun rest => rfl

theorem readRule_unplaced : draft.readRule cursor.unplaced =
    unplacedOutcome (Prod.map id unplaced) (draft.readRule cursor) := by
  have ended_eq (later : Draft) (ended : Cursor) :
      (do return (later, ← passHandlers ended.unplaced.tokens.length ended.unplaced)) =
        unplacedOutcome (Prod.map id unplaced)
          (do return (later, ← passHandlers ended.tokens.length ended)) := by
    rw [length_tokens_unplaced]
    exact bind_unplaced (ended.passHandlers_unplaced _) fun rest => rfl
  simp only [readRule, text_unplaced, length_tokens_unplaced, advance_unplaced]
  apply bind_unplaced (cursor.advance.passPrelude_unplaced _)
  intro colon
  split
  · rw [skipPastSemicolon_unplaced]
    exact ended_eq draft colon.skipPastSemicolon
  · apply bind_unplaced (colon.pass_unplaced _ _)
    intro body
    apply bind_unplaced (draft.readBody_unplaced body _)
    rintro ⟨later, ended⟩
    exact ended_eq later ended

theorem skipModifiers_unplaced (modifiers : List String) :
    modifiers.foldl readItem.skipModifier cursor.unplaced =
      (modifiers.foldl readItem.skipModifier cursor).unplaced := by
  induction modifiers generalizing cursor with
  | nil => rfl
  | cons modifier modifiers ih =>
      have first_eq : readItem.skipModifier cursor.unplaced modifier =
          (readItem.skipModifier cursor modifier).unplaced := by
        simp only [readItem.skipModifier, isAtWord_unplaced, kindAt?_unplaced, advance_unplaced]
        split <;> rfl
      rw [List.foldl_cons, first_eq, ih, List.foldl_cons]

theorem readItem_unplaced : draft.readItem cursor.unplaced =
    unplacedOutcome (Prod.map id unplaced) (draft.readItem cursor) := by
  simp only [readItem, isAtWord_unplaced, kindAt?_unplaced, advance_unplaced,
    skipPastSemicolon_unplaced, isAt_unplaced, skipModifiers_unplaced, text_unplaced]
  split
  · rfl
  split
  · rfl
  split
  · exact bind_unplaced cursor.passNamedAction_unplaced fun rest => rfl
  split
  · split
    · rfl
    · exact draft.readRule_unplaced _
  · exact fail_unplaced _ _ _

theorem readItems_unplaced (turns : Nat) :
    readItems turns draft cursor.unplaced = unplacedOutcome id (readItems turns draft cursor) := by
  induction turns generalizing draft cursor with
  | zero => rfl
  | succ turns ih =>
      simp only [readItems, tokens_unplaced, List.isEmpty_map]
      split
      · rfl
      · apply bind_unplaced (draft.readItem_unplaced cursor)
        rintro ⟨later, rest⟩
        exact ih later rest

theorem named_unplaced (lexerOnly : Bool) : readHeader.named lexerOnly cursor.unplaced =
    unplacedOutcome (Prod.map id unplaced) (readHeader.named lexerOnly cursor) := by
  apply bind_unplaced (cursor.expect_unplaced _ _)
  rintro ⟨name, behind⟩
  apply bind_unplaced (behind.pass_unplaced _ _)
  intro rest
  cases lexerOnly <;> rfl

theorem readHeader_unplaced : readHeader cursor.unplaced =
    unplacedOutcome (Prod.map id unplaced) (readHeader cursor) := by
  simp only [readHeader, isAtWord_unplaced, textAt_unplaced, kindAt?_unplaced, advance_unplaced]
  split
  · exact named_unplaced _ _
  split
  · exact named_unplaced _ _
  · rfl

end Draft

/-- The description that is read behind a cursor. -/
def parseFrom (cursor : Cursor) : Except GrammarError Description := do
  let (draft, cursor) ← Draft.readHeader cursor
  let draft ← Draft.readItems cursor.tokens.length draft cursor
  if draft.description.start.isSome then return draft.description
  else throw (.noRules draft.description.displayName)

theorem parseFrom_unplaced (cursor : Cursor) :
    parseFrom cursor.unplaced = unplacedOutcome id (parseFrom cursor) := by
  apply bind_unplaced (Draft.readHeader_unplaced cursor)
  rintro ⟨draft, behind⟩
  simp only [Prod.map, Cursor.length_tokens_unplaced]
  apply bind_unplaced (draft.readItems_unplaced behind _)
  intro last
  simp only [id]
  split <;> rfl

theorem unplacedOutcome_id {α : Type} (outcome : Except GrammarError α) :
    unplacedOutcome id outcome = outcome.mapError GrammarError.unplaced := by
  cases outcome <;> rfl

theorem map_unplaced (tokens : List Token) :
    tokens.map Token.unplaced = (tokens.map Token.lexeme).map fun lexeme =>
      ⟨lexeme.kind, String.ofList lexeme.text, 0, 0, 0⟩ := by
  simp [Token.unplaced, Token.lexeme]

/-- The kinds and the texts of the tokens decide what is read from a source text. -/
theorem parse_of_map_lexeme_eq {source other : String}
    (same : (tokens other).map Token.lexeme = (tokens source).map Token.lexeme) :
    (parse other).mapError GrammarError.unplaced =
      (parse source).mapError GrammarError.unplaced := by
  have cursor_eq : Cursor.unplaced ⟨tokens other, lastLine other⟩ =
      Cursor.unplaced ⟨tokens source, lastLine source⟩ := by
    simp only [Cursor.unplaced, map_unplaced, same]
  have read_eq := congrArg parseFrom cursor_eq
  rwa [parseFrom_unplaced, parseFrom_unplaced, unplacedOutcome_id, unplacedOutcome_id] at read_eq

end Source

end VisiblyPushdown
