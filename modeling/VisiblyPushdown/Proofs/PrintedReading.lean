import VisiblyPushdown.Proofs.PrintedTokens

/-!
# Reading a printed grammar

The parser reads the tokens of a printed rule as the rule. A cursor faces tokens when they come
next, whatever their places are. What follows an occurrence in a printed rule is a mark, the next
symbol, a bar or the semicolon. None of these is taken for a label, for arguments, for options or
for the end of a range, so each reader takes the tokens that were written for it and no more.
-/

namespace VisiblyPushdown.Source

namespace TokenKind

/-- Whether a printed symbol may start with a token of the kind. -/
def startsSymbol : TokenKind → Bool
  | .stringLiteral | .identifier | .dot | .tilde => true
  | _ => false

/-- Whether a token of the kind may stand behind a printed occurrence. -/
def followsOccurrence : TokenKind → Bool
  | .bar | .semicolon => true
  | kind => kind.startsSymbol

/-- Whether a token of the kind may stand behind a printed symbol. -/
def followsSymbol : TokenKind → Bool
  | .question | .star | .plus => true
  | kind => kind.followsOccurrence

theorem ne_of_followsSymbol {kind : TokenKind} (follows : kind.followsSymbol) (other : TokenKind)
    (not_follows : other.followsSymbol = false) : kind ≠ other := by
  rintro rfl
  rw [not_follows] at follows
  cases follows

end TokenKind

/-- The first token of a symbol starts it, and a name is the only one. -/
theorem Writes.exists_head {kind : Kind} {found : List Lexeme} (writes : Writes kind found) :
    ∃ first others, found = first :: others ∧ first.kind.startsSymbol ∧
      (first.kind = .identifier → others = []) := by
  cases writes with
  | complement _ _ => exact ⟨_, _, rfl, rfl, fun name => by cases name⟩
  | complementOfGroup _ => exact ⟨_, _, rfl, rfl, fun name => by cases name⟩
  | _ => exact ⟨_, _, rfl, rfl, fun _ => rfl⟩

theorem ok_bind {ε α β : Type} (value : α) (next : α → Except ε β) :
    (Except.ok value >>= next) = next value :=
  rfl

theorem length_le_flatMap {α β : Type} {items : List α} {parts : α → List β}
    (nonempty : ∀ item ∈ items, parts item ≠ []) :
    items.length ≤ (items.flatMap parts).length := by
  induction items with
  | nil => exact Nat.zero_le _
  | cons item items ih =>
      have others_le := ih fun other mem => nonempty other (List.mem_cons_of_mem _ mem)
      have item_length := List.length_pos_iff.2 (nonempty item List.mem_cons_self)
      rw [List.flatMap_cons, List.length_cons, List.length_append]
      omega

namespace Cursor

/-- Whether a cursor stands in front of certain tokens. -/
def Faces (cursor : Cursor) (found : List Lexeme) : Prop :=
  cursor.tokens.map Token.lexeme = found

namespace Faces

variable {cursor : Cursor} {lexeme : Lexeme} {found front rest : List Lexeme}

theorem length_eq (faces : cursor.Faces found) : cursor.tokens.length = found.length := by
  rw [← faces, List.length_map]

theorem drop (faces : cursor.Faces found) (count : Nat) :
    (cursor.advance count).Faces (found.drop count) := by
  rw [Faces, advance, List.map_drop, faces]

theorem advance (faces : cursor.Faces (lexeme :: rest)) : cursor.advance.Faces rest :=
  faces.drop 1

theorem kindAt? (faces : cursor.Faces found) (distance : Nat) :
    cursor.kindAt? distance = found[distance]?.map Lexeme.kind := by
  rw [← faces, Cursor.kindAt?, List.getElem?_map, Option.map_map]
  rfl

theorem textAt (faces : cursor.Faces found) (distance : Nat) :
    cursor.textAt distance = (found[distance]?.map (String.ofList ·.text)).getD "" := by
  rw [← faces, Cursor.textAt, List.getElem?_map, Option.map_map]
  simp [Function.comp_def, Token.lexeme]

theorem kind? (faces : cursor.Faces (lexeme :: rest)) : cursor.kind? = some lexeme.kind :=
  faces.kindAt? 0

theorem text (faces : cursor.Faces (lexeme :: rest)) : cursor.text = String.ofList lexeme.text :=
  faces.textAt 0

theorem text_eq (faces : cursor.Faces (lexeme :: rest)) {name : String}
    (joined_eq : joined [lexeme] = name.toList) : cursor.text = name := by
  rw [joined_cons, joined_nil, List.append_nil] at joined_eq
  rw [faces.text, joined_eq, String.ofList_toList]

theorem isAt (faces : cursor.Faces (lexeme :: rest)) (kind : TokenKind) :
    cursor.isAt kind = decide (lexeme.kind = kind) := by
  simp [Cursor.isAt, faces.kind?]

theorem skip_eq (faces : cursor.Faces (lexeme :: rest)) (kind : TokenKind)
    (different : lexeme.kind ≠ kind) : cursor.skip kind = cursor := by
  rw [skip, faces.isAt, if_neg (by simpa using different)]

theorem pass (faces : cursor.Faces (lexeme :: rest)) {kind : TokenKind} (what : String)
    (same : lexeme.kind = kind) : cursor.pass kind what = .ok cursor.advance := by
  rw [pass_eq_ok_iff, faces.isAt]
  exact ⟨by simpa using same, rfl⟩

theorem skipElementOptions_eq (faces : cursor.Faces (lexeme :: rest))
    (different : lexeme.kind ≠ .less) : cursor.skipElementOptions = .ok cursor := by
  rw [skipElementOptions, faces.isAt, if_neg (by simpa using different)]

theorem toList_joinedText (faces : cursor.Faces (front ++ rest)) :
    (joinedText cursor.tokens front.length).toList = joined front := by
  rw [Source.toList_joinedText, List.map_take, faces, List.take_left]

theorem drop_append (faces : cursor.Faces (front ++ rest)) :
    (cursor.advance front.length).Faces rest := by
  have behind := faces.drop front.length
  rwa [List.drop_left] at behind

/-- The parser finds the end of a group behind a tilde. -/
theorem complementLength_group
    (faces : cursor.Faces (⟨.tilde, ['~']⟩ :: ⟨.leftParen, ['(']⟩ :: (found ++ rest)))
    (closes : Closes 0 found) : cursor.complementLength = .ok (found.length + 2) := by
  rcases List.map_eq_cons_iff.1 faces.advance with ⟨paren, others, tokens_eq, paren_eq, others_eq⟩
  rcases closes.closingParen?_eq others_eq with ⟨inner, closed, length_eq⟩
  have paren_kind : paren.kind = .leftParen := congrArg Lexeme.kind paren_eq
  have found_eq : closingParen? 0 cursor.advance.tokens = some (inner + 1) := by
    rw [tokens_eq, closingParen?_cons_opening 0 others paren_kind, closed]
    rfl
  have opens : cursor.kindAt? 1 = some .leftParen := faces.kindAt? 1
  rw [complementLength, opens]
  simp only [found_eq, length_eq]

end Faces

end Cursor

namespace Draft

/-- Whether the rules and the start did not change. -/
structure KeepsRules (later earlier : Draft) : Prop where
  rules_eq : later.description.rules = earlier.description.rules
  start_eq : later.description.start = earlier.description.start

variable {draft earlier middle later : Draft} {cursor : Cursor} {symbol : Symbol} {next : Lexeme}
  {found rest : List Lexeme}

theorem KeepsRules.trans (second : later.KeepsRules middle) (first : middle.KeepsRules earlier) :
    later.KeepsRules earlier :=
  ⟨second.rules_eq.trans first.rules_eq, second.start_eq.trans first.start_eq⟩

/-- A complement is read from the tokens that are counted for it. -/
theorem readPlainAtom_complement (draft : Draft) {name : String}
    (joined_eq : joined found = name.toList) (faces : cursor.Faces (found ++ next :: rest))
    (here : cursor.kind? = some .tilde) (length_eq : cursor.complementLength = .ok found.length) :
    ∃ later behind, draft.readPlainAtom cursor = .ok (⟨name, .terminal⟩, later, behind) ∧
      later.KeepsRules draft ∧ behind.Faces (next :: rest) := by
  have text_eq : joinedText cursor.tokens found.length = name := by
    rw [← String.toList_inj, faces.toList_joinedText, joined_eq]
  subst text_eq
  refine ⟨(draft.mentionTerminal (joinedText cursor.tokens found.length)).2,
    cursor.advance found.length, ?_, ⟨rfl, rfl⟩, faces.drop_append⟩
  rw [readPlainAtom, here]
  exact bind_eq_ok.2 ⟨found.length, length_eq, rfl⟩

/-- An element is read from the tokens that were written for it. -/
theorem readPlainAtom_of_writes (draft : Draft) (writes : Writes symbol.kind found)
    (joined_eq : joined found = symbol.name.toList) (faces : cursor.Faces (found ++ next :: rest))
    (follows : next.kind.followsSymbol) :
    ∃ later behind, draft.readPlainAtom cursor = .ok (symbol, later, behind) ∧
      later.KeepsRules draft ∧ behind.Faces (next :: rest) := by
  rcases symbol with ⟨name, kind⟩
  have name_eq : String.ofList (joined found) = name := by rw [joined_eq, String.ofList_toList]
  cases writes with
  | @literal text spelled =>
      have text_eq := faces.text_eq joined_eq
      have alone : cursor.advance.isAt .range = false := by
        rw [faces.advance.isAt]
        exact decide_eq_false (TokenKind.ne_of_followsSymbol follows .range rfl)
      refine ⟨(draft.mentionTerminal name).2, cursor.advance, ?_, ⟨rfl, rfl⟩, faces.advance⟩
      rw [readPlainAtom, faces.kind?]
      simp only [readLiteral, mentionTerminal, text_eq, alone]
      rfl
  | @tokenName text spelled upper =>
      have text_eq := faces.text_eq joined_eq
      have name_upper : isTokenName name := by rw [← name_eq]; simpa using upper
      refine ⟨(draft.mentionTerminal name).2, cursor.advance, ?_, ⟨rfl, rfl⟩, faces.advance⟩
      rw [readPlainAtom, faces.kind?]
      simp only [readName, mentionTerminal, text_eq, name_upper]
      rfl
  | @ruleName text spelled lower =>
      have text_eq := faces.text_eq joined_eq
      have name_lower : ¬ isTokenName name := by rw [← name_eq]; simpa using lower
      have alone := faces.advance.skip_eq .bracketBlock
        (TokenKind.ne_of_followsSymbol follows .bracketBlock rfl)
      refine ⟨(draft.mentionNonterminal name).2, cursor.advance, ?_, ⟨rfl, rfl⟩, faces.advance⟩
      rw [readPlainAtom, faces.kind?]
      simp only [readName, mentionNonterminal, text_eq, name_lower, alone]
      rfl
  | dot =>
      refine ⟨(draft.mentionTerminal ".").2, cursor.advance, ?_, ⟨rfl, rfl⟩, faces.advance⟩
      rw [readPlainAtom, faces.kind?, ← name_eq]
      rfl
  | @complement kind text set spelled =>
      have length_eq : cursor.complementLength = .ok 2 :=
        Cursor.complementLength_of_isSet set (faces.kindAt? 1)
      exact readPlainAtom_complement draft joined_eq faces faces.kind? length_eq
  | @complementOfGroup group closes =>
      have length_eq := Cursor.Faces.complementLength_group faces closes
      exact readPlainAtom_complement draft joined_eq faces faces.kind? length_eq

theorem readAtom_of_writes (draft : Draft) (writes : Writes symbol.kind found)
    (joined_eq : joined found = symbol.name.toList) (faces : cursor.Faces (found ++ next :: rest))
    (follows : next.kind.followsSymbol) :
    ∃ later behind, draft.readAtom cursor = .ok (symbol, later, behind) ∧
      later.KeepsRules draft ∧ behind.Faces (next :: rest) := by
  rcases readPlainAtom_of_writes draft writes joined_eq faces follows with
    ⟨later, behind, read, keeps, behind_faces⟩
  have no_options := behind_faces.skipElementOptions_eq
    (TokenKind.ne_of_followsSymbol follows .less rfl)
  refine ⟨later, behind, ?_, keeps, behind_faces⟩
  exact bind_eq_ok.2 ⟨_, read, bind_eq_ok.2 ⟨behind, no_options, rfl⟩⟩

end Draft

namespace Cursor.Faces

variable {cursor : Cursor} {kind : Kind} {next : Lexeme} {found rest : List Lexeme}

/-- What starts an element is not taken for anything else. -/
theorem startsElement (faces : cursor.Faces (found ++ next :: rest)) (writes : Writes kind found)
    (follows : next.kind.followsSymbol) :
    cursor.endsAlternative = false ∧ cursor.isAt .actionBlock = false ∧
      cursor.isAt .leftParen = false ∧ cursor.skipElementLabel = cursor := by
  rcases writes.exists_head with ⟨⟨first, text⟩, others, rfl, starts, name_alone⟩
  have differs (other : TokenKind) (not_starts : other.startsSymbol = false) : first ≠ other := by
    rintro rfl
    rw [not_starts] at starts
    cases starts
  refine ⟨?_, ?_, ?_, ?_⟩
  · rw [endsAlternative, faces.kind?]
    cases first <;> first | rfl | cases starts
  · rw [faces.isAt]
    exact decide_eq_false (differs .actionBlock rfl)
  · rw [faces.isAt]
    exact decide_eq_false (differs .leftParen rfl)
  · rw [skipElementLabel, if_neg]
    rintro ⟨here, label⟩
    rw [faces.isAt, decide_eq_true_iff] at here
    cases name_alone here
    have behind : cursor.kindAt? 1 = some next.kind := faces.kindAt? 1
    rw [behind, Option.some.injEq, Option.some.injEq] at label
    rcases label with label | label
    · exact TokenKind.ne_of_followsSymbol follows .assign rfl label
    · exact TokenKind.ne_of_followsSymbol follows .plusAssign rfl label

/-- A mark is read from its token. -/
theorem repetition_eq (repetition : Repetition)
    (faces : cursor.Faces (repetition.lexemes ++ next :: rest))
    (follows : next.kind.followsOccurrence) :
    ∃ behind, cursor.repetition = (repetition, behind) ∧ behind.Faces (next :: rest) := by
  rcases next with ⟨kind, text⟩
  cases repetition with
  | once =>
      refine ⟨cursor, ?_, faces⟩
      rw [Cursor.repetition, faces.kind?]
      cases kind <;> first | rfl | cases follows
  | _ =>
      have alone := faces.advance.skip_eq .question (by rintro rfl; cases follows)
      refine ⟨cursor.advance, ?_, faces.advance⟩
      rw [Cursor.repetition, faces.kind?]
      simp only [alone]

end Cursor.Faces

namespace Draft

variable {calls : Nat} {cursor : Cursor} {next : Lexeme} {rest : List Lexeme}

/-- What follows the symbol of an occurrence is its mark or what follows the occurrence. -/
theorem exists_followsSymbol (repetition : Repetition) (rest : List Lexeme)
    (follows : next.kind.followsOccurrence) :
    ∃ first others, repetition.lexemes ++ next :: rest = first :: others ∧
      first.kind.followsSymbol := by
  cases repetition with
  | once =>
      refine ⟨next, rest, rfl, ?_⟩
      rcases next with ⟨kind, text⟩
      cases kind <;> first | rfl | cases follows
  | _ => exact ⟨_, next :: rest, rfl, rfl⟩

theorem exists_followsOccurrence {alternative : Alternative}
    (legible : ∀ occurrence ∈ alternative, occurrence.symbol.IsLegible) (rest : List Lexeme)
    (follows : next.kind.followsOccurrence) :
    ∃ first others, alternative.lexemes ++ next :: rest = first :: others ∧
      first.kind.followsOccurrence := by
  cases alternative with
  | nil => exact ⟨next, rest, rfl, follows⟩
  | cons occurrence alternative =>
      rcases (legible occurrence List.mem_cons_self).writes.exists_head with
        ⟨⟨kind, text⟩, others, found_eq, starts, _⟩
      refine ⟨⟨kind, text⟩, others ++ occurrence.repetition.lexemes ++
        (Alternative.lexemes alternative ++ next :: rest), ?_, ?_⟩
      · simp [Alternative.lexemes, Occurrence.lexemes, found_eq]
      · cases kind <;> first | rfl | cases starts

/-- The first occurrence is read up to what follows it. -/
theorem readElements_eq (rule : String) (calls : Nat) (draft : Draft) {occurrence : Occurrence}
    (legible : occurrence.symbol.IsLegible)
    (faces : cursor.Faces (occurrence.lexemes ++ next :: rest))
    (follows : next.kind.followsOccurrence) :
    ∃ middle behind, middle.KeepsRules draft ∧ behind.Faces (next :: rest) ∧
      readElements rule (calls + 1) draft cursor = do
        let (others, draft, cursor) ← readElements rule calls middle behind
        return (occurrence :: others, draft, cursor) := by
  rcases exists_followsSymbol occurrence.repetition rest follows with
    ⟨first, marked, marked_eq, first_follows⟩
  have symbol_faces : cursor.Faces (occurrence.symbol.lexemes ++ first :: marked) := by
    rw [← marked_eq, ← List.append_assoc]
    exact faces
  rcases symbol_faces.startsElement legible.writes first_follows with
    ⟨inside, not_action, not_block, unlabelled⟩
  rcases readAtom_of_writes draft legible.writes occurrence.symbol.joined_lexemes symbol_faces
    first_follows with ⟨middle, marks, atom, keeps, marks_faces⟩
  rw [← marked_eq] at marks_faces
  rcases marks_faces.repetition_eq occurrence.repetition follows with
    ⟨behind, mark_eq, behind_faces⟩
  refine ⟨middle, behind, keeps, behind_faces, ?_⟩
  rw [readElements]
  simp only [inside, not_action, not_block, unlabelled, Bool.false_eq_true, if_false]
  rw [atom, ok_bind]
  simp only [mark_eq]

/-- The elements of an alternative are read from its tokens. -/
theorem readElements_of_faces (rule : String) (draft : Draft) {alternative : Alternative}
    (legible : ∀ occurrence ∈ alternative, occurrence.symbol.IsLegible)
    (faces : cursor.Faces (alternative.lexemes ++ next :: rest))
    (follows : next.kind.followsOccurrence) (ends : next.kind.endsAlternative)
    (enough : alternative.length < calls) :
    ∃ later behind, readElements rule calls draft cursor = .ok (alternative, later, behind) ∧
      later.KeepsRules draft ∧ behind.Faces (next :: rest) := by
  induction alternative generalizing calls draft cursor with
  | nil =>
      rcases calls with _ | calls
      · cases enough
      have ended : cursor.endsAlternative = true := by
        rw [Cursor.endsAlternative, Cursor.Faces.kind? faces]
        exact ends
      refine ⟨draft, cursor, ?_, ⟨rfl, rfl⟩, faces⟩
      rw [readElements, if_pos ended]
      rfl
  | cons occurrence alternative ih =>
      rcases calls with _ | calls
      · cases enough
      have others_legible (other : Occurrence) (mem : other ∈ alternative) :=
        legible other (List.mem_cons_of_mem _ mem)
      rcases exists_followsOccurrence others_legible rest follows with
        ⟨second, others, others_eq, second_follows⟩
      have first_faces : cursor.Faces (occurrence.lexemes ++ second :: others) := by
        rw [← others_eq, ← List.append_assoc]
        exact faces
      rcases readElements_eq rule calls draft (legible occurrence List.mem_cons_self) first_faces
        second_follows with ⟨middle, behind, first_keeps, behind_faces, read⟩
      rw [← others_eq] at behind_faces
      rcases ih middle others_legible behind_faces (Nat.lt_of_succ_lt_succ enough) with
        ⟨later, ended, others_read, others_keep, ended_faces⟩
      refine ⟨later, ended, ?_, others_keep.trans first_keeps, ended_faces⟩
      rw [read, others_read, ok_bind]
      rfl

theorem length_le_lexemes {alternative : Alternative}
    (legible : ∀ occurrence ∈ alternative, occurrence.symbol.IsLegible) :
    alternative.length ≤ alternative.lexemes.length := by
  apply length_le_flatMap
  intro occurrence mem
  rcases (legible occurrence mem).writes.exists_head with ⟨first, others, found_eq, _⟩
  rw [Occurrence.lexemes, found_eq]
  exact List.cons_ne_nil _ _

/-- The first alternative is read up to the bar or the semicolon behind it. -/
theorem readAlternatives_eq (rule : String) (draft : Draft) {first : Alternative}
    (legible : ∀ occurrence ∈ first, occurrence.symbol.IsLegible)
    (faces : cursor.Faces (first.lexemes ++ next :: rest)) (follows : next.kind.followsOccurrence)
    (ends : next.kind.endsAlternative) (enough : cursor.tokens.length ≤ calls) :
    ∃ middle behind, middle.KeepsRules draft ∧ behind.Faces (next :: rest) ∧
      readAlternatives rule (calls + 1) draft cursor =
        if next.kind = .bar then do
          let (others, draft, cursor) ← readAlternatives rule calls middle behind.advance
          return (first :: others, draft, cursor)
        else return ([first], middle, behind) := by
  have first_le := length_le_lexemes legible
  rw [faces.length_eq, List.length_append, List.length_cons] at enough
  have spare : first.length < calls := by omega
  rcases readElements_of_faces rule draft legible faces follows ends spare with
    ⟨middle, behind, elements, keeps, behind_faces⟩
  rcases exists_followsOccurrence legible rest follows with ⟨head, others, head_eq, head_follows⟩
  refine ⟨middle, behind, keeps, behind_faces, ?_⟩
  have no_options : cursor.skipElementOptions = .ok cursor := by
    rw [head_eq] at faces
    exact faces.skipElementOptions_eq fun less => by rw [less] at head_follows; cases head_follows
  have no_label : behind.skipAlternativeLabel = .ok behind := by
    rw [Cursor.skipAlternativeLabel, behind_faces.isAt, if_neg]
    intro pound
    rw [of_decide_eq_true pound] at follows
    cases follows
  rw [readAlternatives, no_options, ok_bind, elements, ok_bind]
  dsimp only
  rw [no_label, ok_bind, behind_faces.isAt]
  simp only [decide_eq_true_eq]

/-- Alternatives are read from their tokens, up to the semicolon. -/
theorem readAlternatives_of_faces (rule : String) (draft : Draft) {first : Alternative}
    {others : List Alternative}
    (legible : ∀ alternative ∈ first :: others, ∀ occurrence ∈ alternative,
      occurrence.symbol.IsLegible)
    (faces : cursor.Faces
      (first.lexemes ++ (furtherLexemes others ++ ⟨.semicolon, [';']⟩ :: rest)))
    (enough : cursor.tokens.length < calls) :
    ∃ later behind,
      readAlternatives rule calls draft cursor = .ok (first :: others, later, behind) ∧
      later.KeepsRules draft ∧ behind.Faces (⟨.semicolon, [';']⟩ :: rest) := by
  induction others generalizing first calls draft cursor with
  | nil =>
      rcases calls with _ | calls
      · cases enough
      rcases readAlternatives_eq rule draft (legible first List.mem_cons_self) faces rfl rfl
        (Nat.le_of_lt_succ enough) with ⟨middle, behind, keeps, behind_faces, read⟩
      exact ⟨middle, behind, read, keeps, behind_faces⟩
  | cons second others ih =>
      rcases calls with _ | calls
      · cases enough
      rw [furtherLexemes_cons, List.cons_append, List.append_assoc] at faces
      rcases readAlternatives_eq rule draft (legible first List.mem_cons_self) faces rfl rfl
        (Nat.le_of_lt_succ enough) with ⟨middle, behind, first_keeps, behind_faces, read⟩
      rw [if_pos rfl] at read
      have second_faces := behind_faces.advance
      have shorter : behind.advance.tokens.length < calls := by
        rw [faces.length_eq, List.length_append, List.length_cons] at enough
        rw [second_faces.length_eq]
        omega
      rcases ih middle (fun other mem => legible other (List.mem_cons_of_mem _ mem)) second_faces
        shorter with ⟨later, ended, others_read, others_keep, ended_faces⟩
      refine ⟨later, ended, ?_, others_keep.trans first_keeps, ended_faces⟩
      rw [read, others_read, ok_bind]
      rfl

end Draft

end VisiblyPushdown.Source
