import VisiblyPushdown.Grammar.Error
import VisiblyPushdown.Proofs.TokenSpans

/-!
# Lexing with checks

The lexer again, as a loop that keeps an offset in bytes and the start of a run of failed matches,
with a check in front of each step that has no meaning everywhere: to cut a text inside a character,
and to count below zero. No check ever fails, and the spans that are found are those of the tokens.
-/

namespace VisiblyPushdown.Source

/-- What goes wrong in a step that has no meaning where it is taken. -/
inductive Crash where
  /-- A position behind the end of the list of tokens is taken. -/
  | pastEnd
  /-- Zero is counted down. -/
  | underflow
  /-- The texts of tokens are joined that are not all in the list. -/
  | outOfRange
  /-- A text is cut inside a character or behind its end. -/
  | insideCharacter
  /-- An item or an element is read without moving on. -/
  | noProgress
  /-- A loop goes on when no turn is left. -/
  | outOfTurns
deriving DecidableEq, Repr

/-- A computation that gives a value, reports an error in the source text, or crashes. -/
abbrev Checked (α : Type) : Type :=
  ExceptT GrammarError (Except Crash) α

/-- The computation that crashes. -/
def crash {α : Type} (reason : Crash) : Checked α :=
  ExceptT.mk (.error reason)

/-- A text cut behind the given number of bytes, unless that is inside a character. -/
def cutBytes? : (bytes : Nat) → List Char → Option (List Char × List Char)
  | 0, text => some ([], text)
  | _ + 1, [] => none
  | bytes + 1, char :: rest =>
    if char.utf8Size ≤ bytes + 1 then
      (cutBytes? (bytes + 1 - char.utf8Size) rest).map fun (front, back) => (char :: front, back)
    else none

/-- A text cut behind the given number of bytes. -/
def cutBytes (bytes : Nat) (text : List Char) : Checked (List Char × List Char) :=
  match cutBytes? bytes text with
  | some pieces => pure pieces
  | none => crash .insideCharacter

/-- The kind of a token and the bytes that it covers. -/
structure Span where
  kind : TokenKind
  start : Nat
  stop : Nat
deriving DecidableEq, Repr

/-- The span of a token. -/
def Token.span (token : Token) : Span where
  kind := token.kind
  start := token.start
  stop := token.stop

/--
The offset behind the delimiter that closes a block, from an offset inside the block on. `depth`
counts the open delimiters, that of the block included, and `escaped` says that the next character
is hidden.
-/
def blockEnd? (delimiters : Delimiters) : (depth : Nat) → (quote : Option Char) →
    (escaped : Bool) → (offset : Nat) → List Char → Checked (Option Nat)
  | _, _, _, _, [] => pure none
  | depth, quote, true, offset, char :: rest =>
    blockEnd? delimiters depth quote false (offset + char.utf8Size) rest
  | depth, quote, false, offset, char :: rest =>
    let next := offset + char.utf8Size
    if char = '\\' then blockEnd? delimiters depth quote true next rest
    else
      match quote with
      | some quote =>
        blockEnd? delimiters depth (if char = quote then none else some quote) false next rest
      | none =>
        if delimiters.quotes ∧ (char = '"' ∨ char = '\'') then
          blockEnd? delimiters depth (some char) false next rest
        else if char = delimiters.opening then
          blockEnd? delimiters (depth + 1) none false next rest
        else if char = delimiters.closing then
          match depth with
          | 0 => crash .underflow
          | 1 => pure (some next)
          | depth + 1 => blockEnd? delimiters depth none false next rest
        else blockEnd? delimiters depth none false next rest

/-- The kind of a block and its length in bytes; the text behind its delimiter is given. -/
def matchBlock (kind : TokenKind) (delimiters : Delimiters) (rest : List Char) :
    Checked (TokenKind × Nat) := do
  match ← blockEnd? delimiters 1 none false 0 rest with
  | some bytes =>
    -- The match is extended by so many bytes, which have to end with a character.
    let (block, _) ← cutBytes bytes rest
    return (kind, 1 + byteLength block)
  | none => return (.garbage, 1)

/-- The kind and the length, in bytes, of the first match in a text. -/
def matchFirst : List Char → Checked (TokenKind × Nat)
  | '{' :: rest => matchBlock .actionBlock .braces rest
  | '[' :: rest => matchBlock .bracketBlock .brackets rest
  | source => return ((firstLexeme source).1, byteLength (source.take (firstLexeme source).2))

/-- The span of a run of failed matches that ends here, if there is one. -/
def failedSpan (failed : Option Nat) (stop : Nat) : List Span :=
  failed.toList.map fun start => ⟨.garbage, start, stop⟩

/--
The spans of the tokens in the rest of a text that starts at an offset. `failed` is the start of the
failed matches directly in front of it.
-/
def spansFrom : (turns : Nat) → (failed : Option Nat) → (start : Nat) → List Char →
    Checked (List Span)
  | _, failed, start, [] => return failedSpan failed start
  | 0, _, _, _ :: _ => crash .outOfTurns
  | turns + 1, failed, start, char :: rest => do
    let (kind, bytes) ← matchFirst (char :: rest)
    let (_, behind) ← cutBytes bytes (char :: rest)
    let stop := start + bytes
    if kind = .garbage then spansFrom turns (failed.or (some start)) stop behind
    else
      let others ← spansFrom turns none stop behind
      return failedSpan failed start ++
        (if kind.isTrivia then others else ⟨kind, start, stop⟩ :: others)

/-- The spans of the tokens of a source text. -/
def spans (source : String) : Checked (List Span) :=
  spansFrom source.toList.length none 0 source.toList

section Cuts

variable {bytes : Nat} {text front back : List Char}

@[simp]
theorem byteLength_cons (char : Char) (text : List Char) :
    byteLength (char :: text) = char.utf8Size + byteLength text :=
  rfl

/-- A text is cut between two pieces of it when the bytes of the first one are counted. -/
theorem cutBytes?_eq_some_iff :
    cutBytes? bytes text = some (front, back) ↔
      text = front ++ back ∧ bytes = byteLength front := by
  induction text generalizing bytes front with
  | nil =>
      rcases bytes with _ | bytes
      · rcases front with _ | ⟨first, front⟩
        · simp [cutBytes?, byteLength, eq_comm]
        · simp [cutBytes?]
      · rcases front with _ | ⟨first, front⟩
        · simp [cutBytes?, byteLength]
        · simp [cutBytes?]
  | cons char text ih =>
      have char_pos := char.utf8Size_pos
      rcases bytes with _ | bytes
      · rcases front with _ | ⟨first, front⟩
        · simp [cutBytes?, byteLength, eq_comm]
        · have first_pos := first.utf8Size_pos
          simp only [cutBytes?, Option.some.injEq, Prod.mk.injEq, byteLength_cons]
          constructor
          · rintro ⟨found, _⟩
            cases found
          · omega
      · rw [cutBytes?]
        constructor
        · intro found
          split at found
          · rcases Option.map_eq_some_iff.1 found with ⟨⟨inner, behind⟩, inner_found, found⟩
            cases found
            rcases ih.1 inner_found with ⟨rfl, bytes_eq⟩
            refine ⟨rfl, ?_⟩
            rw [byteLength_cons]
            omega
          · cases found
        · rintro ⟨text_eq, bytes_eq⟩
          rcases front with _ | ⟨first, front⟩
          · simp [byteLength] at bytes_eq
          · cases text_eq
            rw [byteLength_cons] at bytes_eq
            rw [if_pos (by omega), ih.2 ⟨rfl, by omega⟩]
            rfl

theorem cutBytes_append (front back : List Char) :
    cutBytes (byteLength front) (front ++ back) = pure (front, back) := by
  rw [cutBytes, cutBytes?_eq_some_iff.2 ⟨rfl, rfl⟩]

theorem cutBytes_take (text : List Char) (count : Nat) :
    cutBytes (byteLength (text.take count)) text = pure (text.take count, text.drop count) := by
  have cut := cutBytes_append (text.take count) (text.drop count)
  rwa [List.take_append_drop] at cut

end Cuts

section Blocks

variable {delimiters : Delimiters}

/--
The depth inside a block is never counted below zero, and the offset that is found is where so many
characters end.
-/
theorem blockEnd?_eq (closing_ne : delimiters.closing ≠ '\\') (depth : Nat) (quote : Option Char)
    (offset : Nat) (rest : List Char) :
    blockEnd? delimiters (depth + 1) quote false offset rest =
      pure ((blockLength? delimiters depth quote rest).map fun length =>
        offset + byteLength (rest.take length)) := by
  induction count : rest.length using Nat.strongRecOn generalizing depth quote offset rest
  next count ih =>
  subst count
  rcases rest with _ | ⟨char, rest⟩
  · rfl
  by_cases hides : char = '\\'
  · subst hides
    rcases rest with _ | ⟨hidden, rest⟩
    · rw [blockLength?_backslash closing_ne]
      rfl
    · have shorter : rest.length < ('\\' :: hidden :: rest).length := by
        simp only [List.length_cons]
        omega
      simp only [blockEnd?, blockLength?, ↓reduceIte]
      rw [ih rest.length shorter depth quote _ rest rfl]
      simp [Function.comp_def, Nat.add_assoc]
  · have behind (depth : Nat) (quote : Option Char) :
        blockEnd? delimiters (depth + 1) quote false (offset + char.utf8Size) rest =
          pure (((blockLength? delimiters depth quote rest).map (· + 1)).map fun length =>
            offset + byteLength ((char :: rest).take length)) := by
      rw [ih rest.length (by simp) depth quote _ rest rfl]
      simp [Function.comp_def, Nat.add_assoc]
    simp only [blockEnd?, hides, ↓reduceIte]
    cases quote with
    | some quote => simp [blockLength?, hides, behind]
    | none =>
        by_cases quotes : delimiters.quotes ∧ (char = '"' ∨ char = '\'')
        · cases depth <;> simp [blockLength?, hides, quotes, behind]
        by_cases opens : char = delimiters.opening
        · cases depth <;> simp [blockLength?, hides, quotes, ← opens, behind]
        by_cases closes : char = delimiters.closing
        · cases depth with
          | zero => simp [blockLength?, hides, quotes, opens, ← closes, byteLength]
          | succ depth => simp [blockLength?, hides, quotes, opens, ← closes, behind]
        · cases depth <;> simp [blockLength?, hides, quotes, opens, closes, behind]

theorem matchBlock_eq (kind : TokenKind) (closing_ne : delimiters.closing ≠ '\\')
    (opening : Char) (opening_size : opening.utf8Size = 1) (rest : List Char) :
    matchBlock kind delimiters rest =
      pure ((blockOrGarbage kind delimiters rest).1,
        byteLength ((opening :: rest).take (blockOrGarbage kind delimiters rest).2)) := by
  rw [matchBlock, blockEnd?_eq closing_ne, pure_bind, blockOrGarbage]
  cases blockLength? delimiters 0 none rest with
  | none => simp [opening_size, byteLength]
  | some length => simp [opening_size, cutBytes_take]

theorem matchFirst_eq {source : List Char} (nonempty : source ≠ []) :
    matchFirst source =
      pure ((firstLexeme source).1, byteLength (source.take (firstLexeme source).2)) := by
  unfold matchFirst
  split
  · exact matchBlock_eq .actionBlock (by decide) '{' (by decide) _
  · exact matchBlock_eq .bracketBlock (by decide) '[' (by decide) _
  · rfl

end Blocks

section Spans

variable {lexeme : Lexeme} {found : List Lexeme} {source : List Char}

/-- The spans of lexemes that have a meaning, the first lexeme placed at an offset. -/
def spansOf (start line : Nat) (found : List Lexeme) : List Span :=
  ((placed start line found).filter (!·.kind.isTrivia)).map Token.span

theorem spansOf_cons (start line : Nat) (lexeme : Lexeme) (found : List Lexeme) :
    spansOf start line (lexeme :: found) =
      let stop := start + byteLength lexeme.text
      let others := spansOf stop (line + lexeme.text.count '\n') found
      if lexeme.kind.isTrivia then others else ⟨lexeme.kind, start, stop⟩ :: others := by
  by_cases trivia : lexeme.kind.isTrivia
  · simp [spansOf, placed, trivia]
  · simp [spansOf, placed, trivia, Token.span]

theorem joinGarbage_of_ne (meaningful : lexeme.kind ≠ .garbage) (found : List Lexeme) :
    joinGarbage lexeme found = lexeme :: found := by
  cases found <;> simp [joinGarbage, meaningful]

/-- A piece of garbage in front of a lexeme of another kind stays as it is. -/
theorem joinGarbage_cons_of_ne (front : List Char) (meaningful : lexeme.kind ≠ .garbage)
    (found : List Lexeme) :
    joinGarbage ⟨.garbage, front⟩ (lexeme :: found) = ⟨.garbage, front⟩ :: lexeme :: found := by
  simp [joinGarbage, meaningful]

/-- Two pieces of garbage are joined in front of others as one. -/
theorem joinGarbage_joinGarbage (front back : List Char) (found : List Lexeme) :
    joinGarbage ⟨.garbage, front⟩ (joinGarbage ⟨.garbage, back⟩ found) =
      joinGarbage ⟨.garbage, front ++ back⟩ found := by
  cases found with
  | nil => rfl
  | cons next found =>
      by_cases garbage : next.kind = .garbage
      · simp [joinGarbage, garbage]
      · simp [joinGarbage, garbage]

/-- With a turn for each character the loop finds all spans, also behind failed matches. -/
theorem spansFrom_eq {turns : Nat} (enough : source.length ≤ turns) (start line : Nat) :
    spansFrom turns none start source =
        pure (spansOf start line ((lexemes source).foldr joinGarbage [])) ∧
      ∀ failed front, failed + byteLength front = start →
        spansFrom turns (some failed) start source =
          pure (spansOf failed line
            (joinGarbage ⟨.garbage, front⟩ ((lexemes source).foldr joinGarbage []))) := by
  induction turns generalizing source start line with
  | zero =>
      obtain rfl := List.length_eq_zero_iff.1 (Nat.le_zero.1 enough)
      refine ⟨rfl, ?_⟩
      rintro failed front rfl
      rfl
  | succ turns ih =>
      rcases source with _ | ⟨char, rest⟩
      · refine ⟨rfl, ?_⟩
        rintro failed front rfl
        rfl
      have nonempty := List.cons_ne_nil char rest
      have shorter : ((char :: rest).drop (firstLexeme (char :: rest)).2).length ≤ turns := by
        have length_pos := firstLexeme_length_pos nonempty
        simp only [List.length_drop, List.length_cons] at enough ⊢
        omega
      simp only [spansFrom, matchFirst_eq nonempty, pure_bind, cutBytes_take,
        lexemes_of_ne_nil nonempty, List.foldr_cons]
      generalize (char :: rest).take (firstLexeme (char :: rest)).2 = text
      generalize (char :: rest).drop (firstLexeme (char :: rest)).2 = behind at shorter ⊢
      generalize (firstLexeme (char :: rest)).1 = kind
      by_cases garbage : kind = .garbage
      · subst garbage
        refine ⟨?_, ?_⟩
        · exact (ih shorter (start + byteLength text) line).2 start text rfl
        · rintro failed front rfl
          rw [joinGarbage_joinGarbage]
          refine (ih shorter _ line).2 failed (front ++ text) ?_
          rw [byteLength_append, Nat.add_assoc]
      · have clean : Lexeme.kind ⟨kind, text⟩ ≠ .garbage := garbage
        refine ⟨?_, ?_⟩
        · rw [if_neg garbage, (ih shorter _ (line + text.count '\n')).1, joinGarbage_of_ne clean,
            spansOf_cons]
          rfl
        · rintro failed front rfl
          rw [if_neg garbage, (ih shorter _ (line + front.count '\n' + text.count '\n')).1,
            joinGarbage_of_ne clean, joinGarbage_cons_of_ne front clean, spansOf_cons]
          simp only [spansOf_cons]
          rfl

/-- The spans that are found are those of the tokens. -/
theorem spans_eq (source : String) : spans source = pure ((tokens source).map Token.span) :=
  (spansFrom_eq (Nat.le_refl _) 0 1).1

end Spans

end VisiblyPushdown.Source
