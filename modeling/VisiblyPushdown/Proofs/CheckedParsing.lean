import VisiblyPushdown.Proofs.CheckedSteps
import VisiblyPushdown.Proofs.Unplaced

/-!
# No check fails

The reader with checks does what the reader without them does, from the single atoms up to the whole
text. The order of cursors shows that each element and each item moves the position on, and three
calls for each token are enough.
-/

namespace VisiblyPushdown.Source

section Atoms

variable {source : String} {position : Nat}

theorem readLiteral_follows (draft : Draft)
    (here : (scanOf source).kindAt? position = some .stringLiteral) :
    Follows (Paired (Paired (StandsAt source))) ((scanOf source).readLiteral draft position)
      (draft.readLiteral (cursorAt source position)) := by
  unfold Scan.readLiteral Draft.readLiteral
  simp only [textAt_zero_eq, pure_bind, moveTo_eq (lt_of_kindAt? here), cursorAt_advance,
    cursorAt_isAt]
  split
  · next range =>
      rw [moveTo_eq (lt_of_isAt range), pure_bind]
      refine .bind (pass_follows source (position + 1 + 1) _ _) ?_
      exact fun _ _ stands _ => .pure ⟨⟨stands⟩⟩
  · exact .pure ⟨⟨lt_of_kindAt? here, rfl⟩⟩

theorem readName_follows (draft : Draft)
    (here : (scanOf source).kindAt? position = some .identifier) :
    Follows (Paired (Paired (StandsAt source))) ((scanOf source).readName draft position)
      (.ok (draft.readName (cursorAt source position))) := by
  unfold Scan.readName Draft.readName
  simp only [textAt_zero_eq, pure_bind, moveTo_eq (lt_of_kindAt? here), cursorAt_advance]
  split
  · exact .ok ⟨⟨lt_of_kindAt? here, rfl⟩⟩
  · refine .bind_ok (skip_follows (lt_of_kindAt? here) .bracketBlock) ?_
    exact fun _ stands => .ok ⟨⟨stands⟩⟩

/-- The position behind a set is as many tokens behind the sign in front of it as it is long. -/
theorem passSet_follows (source : String) (position : Nat) :
    Follows (fun behind length => behind = position + length ∧ 0 < length ∧
        behind ≤ (tokens source).length)
      ((scanOf source).passSet (position + 1)) (cursorAt source position).complementLength := by
  have single {kind : TokenKind} (here : (scanOf source).kindAt? (position + 1) = some kind) :
      Follows (fun behind length => behind = position + length ∧ 0 < length ∧
          behind ≤ (tokens source).length)
        ((scanOf source).moveTo (position + 1 + 1)) (.ok 2) := by
    rw [moveTo_eq (lt_of_kindAt? here)]
    exact .ok ⟨rfl, by omega, lt_of_kindAt? here⟩
  unfold Scan.passSet Cursor.complementLength
  simp only [cursorAt_kindAt?, cursorAt_advance]
  cases here : (scanOf source).kindAt? (position + 1) with
  | none => exact fail_follows _ source (position + 1) _
  | some kind =>
      cases kind with
      | leftParen =>
          dsimp only
          rw [closingPosition?_eq (decide_eq_true here), pure_bind]
          cases closed : closingParen? 0 (cursorAt source (position + 1)).tokens with
          | none => exact fail_follows _ source (position + 1) _
          | some closing =>
              have closing_lt := lt_of_closingParen? closed
              simp only [Option.map_some]
              rw [moveTo_eq closing_lt]
              exact .ok ⟨by omega, by omega, closing_lt⟩
      | stringLiteral => exact single here
      | identifier => exact single here
      | bracketBlock => exact single here
      | _ => exact fail_follows _ source (position + 1) _

theorem readComplement_follows (draft : Draft)
    (here : (scanOf source).kindAt? position = some .tilde) :
    Follows (Paired (Paired (StandsAt source))) ((scanOf source).readComplement draft position)
      (draft.readComplement (cursorAt source position)) := by
  unfold Scan.readComplement Draft.readComplement
  rw [moveTo_eq (lt_of_kindAt? here), pure_bind]
  refine .bind (passSet_follows source position) ?_
  rintro behind length ⟨behind_eq, length_pos, inside⟩ _
  rcases behind with _ | last
  · omega
  · simp only [cursorAt_advance, ← behind_eq, joinedText_eq behind_eq inside, pure_bind]
    exact .pure ⟨⟨inside, rfl⟩⟩

theorem readPlainAtom_follows (draft : Draft) (source : String) (position : Nat) :
    Follows (Paired (Paired (StandsAt source))) ((scanOf source).readPlainAtom draft position)
      (draft.readPlainAtom (cursorAt source position)) := by
  unfold Scan.readPlainAtom Draft.readPlainAtom
  simp only [cursorAt_kind?, cursorAt_advance, textAt_zero_eq, pure_bind]
  cases here : (scanOf source).kindAt? position with
  | none => exact fail_follows _ source position _
  | some kind =>
      cases kind with
      | stringLiteral => exact readLiteral_follows draft here
      | identifier => exact readName_follows draft here
      | dot =>
          dsimp only
          rw [moveTo_eq (lt_of_kindAt? here), pure_bind]
          exact .ok ⟨⟨lt_of_kindAt? here, rfl⟩⟩
      | tilde => exact readComplement_follows draft here
      | _ => exact fail_follows _ source position _

theorem readAtom_follows (draft : Draft) (source : String) (position : Nat) :
    Follows (Paired (Paired (StandsAt source))) ((scanOf source).readAtom draft position)
      (draft.readAtom (cursorAt source position)) := by
  unfold Scan.readAtom Draft.readAtom
  refine .bind (readPlainAtom_follows draft source position) ?_
  rintro ⟨symbol, later, behind⟩ _ ⟨⟨inside, rfl⟩⟩ _
  refine .bind (skipElementOptions_follows inside) ?_
  exact fun _ _ stands _ => .pure ⟨⟨stands⟩⟩

end Atoms

section Calls

/-- What the reader with checks reads behind an element, which has to have moved it on. -/
def Scan.readBehind (scan : Scan) (rule : String) (calls start : Nat)
    (part : Symbol × Draft × Nat) : Checked (Alternative × Draft × Nat) := do
  let (symbol, draft, position) := part
  let (repetition, position) ← scan.repetition position
  ensureProgress start position
  let (others, draft, position) ← scan.readElements rule calls draft position
  return ({ symbol, repetition } :: others, draft, position)

variable (source rule : String) (calls : Nat)

/-- Whether alternatives that are read with so many calls to spend are read alike. -/
def AlternativesFollow : Prop :=
  ∀ draft position, 3 * (scanOf source).remaining position < calls →
    position ≤ (tokens source).length →
    Follows (Paired (Paired (StandsAt source)))
      ((scanOf source).readAlternatives rule calls draft position)
      (Draft.readAlternatives rule calls draft (cursorAt source position))

/-- Whether elements that are read with so many calls to spend are read alike. -/
def ElementsFollow : Prop :=
  ∀ draft position, 3 * (scanOf source).remaining position ≤ calls →
    position ≤ (tokens source).length →
    Follows (Paired (Paired (StandsAt source)))
      ((scanOf source).readElements rule calls draft position)
      (Draft.readElements rule calls draft (cursorAt source position))

/-- Whether a block that is read with so many calls to spend is read alike. -/
def BlockFollows : Prop :=
  ∀ draft position, (scanOf source).isAt position .leftParen →
    3 * (scanOf source).remaining position ≤ calls + 1 →
    Follows (Paired (Paired (StandsAt source)))
      ((scanOf source).readBlock rule calls draft position)
      (Draft.readBlock rule calls draft (cursorAt source position))

end Calls

section Steps

variable {source rule : String} {calls : Nat}
  (alternatives_follow : AlternativesFollow source rule calls)
  (elements_follow : ElementsFollow source rule calls)
  (block_follows : BlockFollows source rule calls)

include alternatives_follow elements_follow in
theorem alternativesFollow_succ : AlternativesFollow source rule (calls + 1) := by
  intro draft position enough inside
  rw [remaining_eq] at enough
  rw [Scan.readAlternatives, Draft.readAlternatives]
  refine .bind (skipElementOptions_follows inside) ?_
  rintro first _ ⟨first_inside, rfl⟩ skipped
  have first_le := Cursor.length_le_of_le (Cursor.skipElementOptions_le skipped)
  simp only [cursorAt_length, remaining_eq] at first_le
  refine .bind (elements_follow draft first (by rw [remaining_eq]; omega) first_inside) ?_
  rintro ⟨alternative, middle, behind⟩ _ ⟨⟨behind_inside, rfl⟩⟩ elements
  have reads := (Draft.reads_of_eq_ok rule calls).2.1 draft _ alternative middle _
    (by rw [cursorAt_length, remaining_eq]; omega) elements
  refine .bind (skipAlternativeLabel_follows behind_inside) ?_
  rintro bar _ ⟨bar_inside, rfl⟩ labelled
  have bar_le := Cursor.length_le_of_le ((Cursor.skipAlternativeLabel_le labelled).trans reads.le)
  simp only [cursorAt_length, remaining_eq] at bar_le
  simp only [cursorAt_isAt, cursorAt_advance]
  split
  · next more =>
      have bar_lt := lt_of_isAt more
      rw [moveTo_eq bar_lt, pure_bind]
      refine .bind (alternatives_follow middle (bar + 1) (by rw [remaining_eq]; omega) bar_lt) ?_
      rintro ⟨others, last, ended⟩ _ ⟨⟨stands⟩⟩ _
      exact .pure ⟨⟨stands⟩⟩
  · exact .pure ⟨⟨bar_inside, rfl⟩⟩

include elements_follow in
/-- An element ends behind the place where it starts, so there are calls enough for the others. -/
theorem readBehind_follows {draft middle : Draft} {symbol : Symbol} {position label behind : Nat}
    (enough : 3 * ((tokens source).length - position) ≤ calls + 1)
    (label_le : cursorAt source label ≤ cursorAt source position)
    (inside : behind ≤ (tokens source).length)
    (reads : Reads (.element symbol) draft (cursorAt source label) middle
      (cursorAt source behind)) :
    Follows (Paired (Paired (StandsAt source)))
      ((scanOf source).readBehind rule calls position (symbol, middle, behind))
      (Draft.readBehind rule calls (symbol, middle, cursorAt source behind)) := by
  unfold Scan.readBehind Draft.readBehind
  dsimp only
  refine .bind_ok (repetition_follows inside) ?_
  rintro ⟨mark, next⟩ marked
  have next_lt := ((Cursor.repetition_le _).trans_lt reads.lt_of_element).trans_le label_le
  generalize (cursorAt source behind).repetition = ended at marked next_lt ⊢
  cases marked with
  | mk stands =>
      rcases stands with ⟨next_inside, rfl⟩
      have position_lt := lt_of_cursorAt_lt next_lt
      simp only [ensureProgress, if_pos position_lt, pure_bind]
      refine .bind (elements_follow middle next (by rw [remaining_eq]; omega) next_inside) ?_
      rintro ⟨others, last, ended⟩ _ ⟨⟨stands⟩⟩ _
      exact .pure ⟨⟨stands⟩⟩

include elements_follow block_follows in
theorem elementsFollow_succ : ElementsFollow source rule (calls + 1) := by
  intro draft position enough inside
  rw [remaining_eq] at enough
  rw [Scan.readElements, Draft.readElements]
  simp only [cursorAt_endsAlternative, cursorAt_isAt, textAt_zero_eq, pure_bind]
  split
  · exact .pure ⟨⟨inside, rfl⟩⟩
  · split
    · rfl
    · refine .bind_ok (skipElementLabel_follows inside) ?_
      rintro label ⟨label_inside, label_eq⟩
      have label_le := Cursor.skipElementLabel_le (cursorAt source position)
      rw [label_eq] at label_le
      have label_length := Cursor.length_le_of_le label_le
      simp only [cursorAt_length, remaining_eq] at label_length
      simp only [label_eq, cursorAt_isAt]
      split
      · next here =>
          have enough_inside : 3 * (scanOf source).remaining label ≤ calls + 1 := by
            rw [remaining_eq]
            omega
          refine .bind (block_follows draft label here enough_inside) ?_
          rintro ⟨symbol, middle, behind⟩ _ ⟨⟨behind_inside, rfl⟩⟩ block
          have reads := (Draft.reads_of_eq_ok rule calls).2.2 draft _ symbol middle _
            (by rwa [cursorAt_isAt]) (by rwa [cursorAt_length]) block
          exact readBehind_follows elements_follow enough label_le behind_inside reads
      · next elsewhere =>
          refine .bind (readAtom_follows draft source label) ?_
          rintro ⟨symbol, middle, behind⟩ _ ⟨⟨behind_inside, rfl⟩⟩ atom
          exact readBehind_follows elements_follow enough label_le behind_inside
            (.atom (by rwa [cursorAt_isAt]) atom)

include alternatives_follow in
theorem blockFollows_succ : BlockFollows source rule (calls + 1) := by
  intro draft position here enough
  rw [remaining_eq] at enough
  rw [Scan.readBlock, Draft.readBlock, closingPosition?_eq here, pure_bind]
  cases closed : closingParen? 0 (cursorAt source position).tokens with
  | none => exact fail_follows _ source position _
  | some closing =>
      have closing_lt := lt_of_closingParen? closed
      simp only [Option.map_some]
      have last_eq : position + closing + 1 = position + (closing + 1) := by omega
      rw [joinedText_eq last_eq closing_lt, pure_bind]
      cases known : draft.blocks.lookup
          (joinedText (cursorAt source position).tokens (closing + 1)) with
      | some name =>
          simp only [cursorAt_advance]
          rw [moveTo_eq closing_lt]
          exact .pure ⟨⟨closing_lt, rfl⟩⟩
      | none =>
          dsimp only
          have expected : (cursorAt source position).pass .leftParen "`(`" =
              .ok (cursorAt source (position + 1)) := by
            rw [Cursor.pass_eq_ok_iff, cursorAt_isAt, cursorAt_advance]
            exact ⟨here, rfl⟩
          have passed := pass_follows source position .leftParen "`(`"
          rw [expected] at passed
          refine .bind_ok passed ?_
          rintro first ⟨first_inside, first_eq⟩
          rw [cursorAt_advance, first_eq]
          refine .bind (skipBlockOptions_follows first_inside) ?_
          rintro body _ ⟨body_inside, rfl⟩ skipped
          have lt : cursorAt source body < cursorAt source position := by
            refine Cursor.inside_block_lt (by rwa [cursorAt_isAt]) ?_
            rwa [cursorAt_advance, first_eq]
          have body_lt := lt_of_cursorAt_lt lt
          refine .bind (alternatives_follow _ body (by rw [remaining_eq]; omega) body_inside) ?_
          rintro ⟨alternatives, later, behind⟩ _ ⟨⟨behind_inside, rfl⟩⟩ _
          refine .bind (pass_follows source behind _ _) ?_
          exact fun _ _ stands _ => .pure ⟨⟨stands⟩⟩

end Steps

/-- Three calls for each token are enough for every part of a rule. -/
theorem follows_of_calls (source rule : String) (calls : Nat) :
    AlternativesFollow source rule calls ∧ ElementsFollow source rule calls ∧
      BlockFollows source rule calls := by
  induction calls with
  | zero =>
      refine ⟨?_, ?_, ?_⟩
      · intro draft position enough
        omega
      · intro draft position enough inside
        rw [remaining_eq] at enough
        rw [Scan.readElements, Draft.readElements, finish_eq _ (by omega)]
        exact .pure ⟨⟨inside, rfl⟩⟩
      · intro draft position here enough
        have more := lt_of_isAt here
        rw [remaining_eq] at enough
        omega
  | succ calls ih =>
      rcases ih with ⟨alternatives_follow, elements_follow, block_follows⟩
      exact ⟨alternativesFollow_succ alternatives_follow elements_follow,
        elementsFollow_succ elements_follow block_follows, blockFollows_succ alternatives_follow⟩

section Progress

variable {draft later : Draft} {cursor rest : Cursor}

theorem pastSemicolon_suffix_tail (depth : Nat) (token : Token) (tokens : List Token) :
    pastSemicolon depth (token :: tokens) <:+ tokens := by
  rw [pastSemicolon]
  split
  · exact pastSemicolon_suffix _ tokens
  · exact pastSemicolon_suffix _ tokens
  · split
    · exact List.suffix_rfl
    · exact pastSemicolon_suffix _ tokens
  · exact pastSemicolon_suffix _ tokens

theorem Cursor.skipPastSemicolon_lt (more : cursor.tokens ≠ []) :
    cursor.skipPastSemicolon < cursor := by
  have behind : cursor.skipPastSemicolon ≤ cursor.advance := by
    rcases List.exists_cons_of_ne_nil more with ⟨token, rest, tokens_eq⟩
    have suffix := pastSemicolon_suffix_tail 0 token rest
    change pastSemicolon 0 cursor.tokens <:+ cursor.tokens.drop 1
    rwa [tokens_eq]
  exact behind.trans_lt (Cursor.advance_lt more Nat.one_pos)

theorem Draft.readRule_lt (more : cursor.tokens ≠ [])
    (read : draft.readRule cursor = .ok (later, rest)) : rest < cursor := by
  rcases bind_eq_ok.1 read with ⟨behind, prelude, read⟩
  have behind_lt := (Cursor.passPrelude_le prelude).trans_lt (Cursor.advance_lt more Nat.one_pos)
  dsimp only at read
  split at read
  · rcases bind_eq_ok.1 read with ⟨⟨middle, ended⟩, passed, read⟩
    rcases bind_eq_ok.1 read with ⟨handled, handlers, finished⟩
    cases passed
    cases finished
    exact (Cursor.passHandlers_le handlers).trans_lt
      ((Cursor.skipPastSemicolon_le behind).trans_lt behind_lt)
  · rcases bind_eq_ok.1 read with ⟨body, colon, read⟩
    rcases bind_eq_ok.1 read with ⟨⟨middle, ended⟩, whole, read⟩
    rcases bind_eq_ok.1 read with ⟨handled, handlers, finished⟩
    cases finished
    rcases Draft.readBody_eq_ok whole with ⟨_, _, semicolon, reads, passed, _⟩
    exact (Cursor.passHandlers_le handlers).trans_lt ((Cursor.pass_lt passed).trans
      (reads.le.trans_lt ((Cursor.pass_lt colon).trans behind_lt)))

/-- Each item takes at least one token. -/
theorem Draft.readItem_lt (more : cursor.tokens ≠ [])
    (read : draft.readItem cursor = .ok (later, rest)) : rest < cursor := by
  rw [readItem] at read
  dsimp only at read
  split at read
  · cases read
    exact Cursor.advance_lt more Nat.two_pos
  · split at read
    · cases read
      exact Cursor.skipPastSemicolon_lt more
    · split at read
      · rcases bind_eq_ok.1 read with ⟨ended, passed, finished⟩
        cases finished
        exact Cursor.passNamedAction_lt passed
      · split at read
        · next here =>
            have still_more := Cursor.tokens_ne_nil_of_isAt here
            have modifiers_le := Draft.skipModifiers_le cursor
            split at read
            · cases read
              exact (Cursor.skipPastSemicolon_lt still_more).trans_le modifiers_le
            · exact (Draft.readRule_lt still_more read).trans_le modifiers_le
        · cases read

end Progress

section Items

variable {source : String} {position : Nat}

theorem readBody_follows (draft : Draft) (name : String)
    (inside : position ≤ (tokens source).length) :
    Follows (Paired (StandsAt source)) ((scanOf source).readBody draft name position)
      (draft.readBody name (cursorAt source position)) := by
  unfold Scan.readBody Draft.readBody
  rw [cursorAt_length]
  refine .bind ((follows_of_calls source name _).1 _ position (Nat.lt_succ_self _) inside) ?_
  rintro ⟨alternatives, later, behind⟩ _ ⟨⟨behind_inside, rfl⟩⟩ _
  refine .bind (pass_follows source behind _ _) ?_
  exact fun _ _ stands _ => .pure ⟨stands⟩

theorem readRule_follows (draft : Draft)
    (here : (scanOf source).isAt position .identifier) :
    Follows (Paired (StandsAt source)) ((scanOf source).readRule draft position)
      (draft.readRule (cursorAt source position)) := by
  unfold Scan.readRule Draft.readRule
  simp only [textAt_zero_eq, moveTo_eq (lt_of_isAt here), pure_bind, cursorAt_length,
    cursorAt_advance]
  refine .bind (passPrelude_follows (by rw [remaining_eq]; omega) (lt_of_isAt here)) ?_
  rintro behind _ ⟨behind_inside, rfl⟩ _
  have handled (later : Draft) {ended : Nat} (ended_inside : ended ≤ (tokens source).length) :
      Follows (Paired (StandsAt source))
        (do return (later, ← (scanOf source).passHandlers ((scanOf source).remaining ended) ended))
        (do return (later, ← (cursorAt source ended).passHandlers
          (cursorAt source ended).tokens.length)) := by
    rw [cursorAt_length]
    refine .bind (passHandlers_follows (by rw [remaining_eq]; omega) ended_inside) ?_
    exact fun _ _ stands _ => .pure ⟨stands⟩
  split
  · refine .bind_ok (skipPastSemicolon_follows behind_inside) ?_
    rintro ended ⟨ended_inside, ended_eq⟩
    rw [ended_eq]
    exact handled draft ended_inside
  · refine .bind (pass_follows source behind _ _) ?_
    rintro body _ ⟨body_inside, rfl⟩ _
    refine .bind (readBody_follows draft _ body_inside) ?_
    rintro ⟨later, ended⟩ _ ⟨ended_inside, rfl⟩ _
    exact handled later ended_inside

theorem skipModifier_follows (inside : position ≤ (tokens source).length) (modifier : String) :
    Follows (StandsAt source) ((scanOf source).skipModifier position modifier)
      (.ok (Draft.readItem.skipModifier (cursorAt source position) modifier)) := by
  unfold Scan.skipModifier Draft.readItem.skipModifier
  simp only [isAtWord_eq, pure_bind, cursorAt_kindAt?, cursorAt_advance]
  split
  · next here =>
      rw [moveTo_eq (lt_of_isAtWord here.1)]
      exact follows_standsAt (lt_of_isAtWord here.1)
  · exact follows_standsAt inside

theorem skipModifiers_follow (modifiers : List String)
    (inside : position ≤ (tokens source).length) :
    Follows (StandsAt source) (modifiers.foldlM (scanOf source).skipModifier position)
      (.ok (modifiers.foldl Draft.readItem.skipModifier (cursorAt source position))) := by
  induction modifiers generalizing position with
  | nil => exact follows_standsAt inside
  | cons modifier modifiers ih =>
      rw [List.foldlM_cons, List.foldl_cons]
      refine .bind_ok (skipModifier_follows inside modifier) ?_
      rintro behind ⟨behind_inside, behind_eq⟩
      rw [behind_eq]
      exact ih behind_inside

theorem readItem_follows (draft : Draft) (more : position < (tokens source).length) :
    Follows (Paired (StandsAt source)) ((scanOf source).readItem draft position)
      (draft.readItem (cursorAt source position)) := by
  have skipped (start : Nat) (inside : start ≤ (tokens source).length) :
      Follows (Paired (StandsAt source))
        (do return (draft, ← (scanOf source).skipPastSemicolon start))
        (.ok (draft, (cursorAt source start).skipPastSemicolon)) := by
    refine .bind_ok (skipPastSemicolon_follows inside) ?_
    exact fun _ stands => .ok ⟨stands⟩
  unfold Scan.readItem Draft.readItem
  simp only [isAtWord_eq, pure_bind, cursorAt_kindAt?, cursorAt_isAt, cursorAt_advance]
  split
  · next here =>
      have next_lt := lt_of_kindAt? (of_decide_eq_true (Bool.and_eq_true_iff.1 here).2)
      rw [moveTo_eq next_lt]
      exact .pure ⟨next_lt, rfl⟩
  · split
    · exact skipped position more.le
    · split
      · refine .bind (passNamedAction_follows source position) ?_
        exact fun _ _ stands _ => .pure ⟨stands⟩
      · refine .bind_ok (skipModifiers_follow _ more.le) ?_
        rintro start ⟨start_inside, start_eq⟩
        simp only [start_eq, cursorAt_isAt, textAt_zero_eq, pure_bind]
        split
        · next here =>
            split
            · exact skipped start start_inside
            · exact readRule_follows draft here
        · exact fail_follows _ source start _

theorem readItems_follows {turns : Nat} (draft : Draft)
    (enough : (tokens source).length ≤ position + turns) :
    Follows Eq ((scanOf source).readItems turns draft position)
      (Draft.readItems turns draft (cursorAt source position)) := by
  induction turns generalizing draft position with
  | zero =>
      rw [Scan.readItems, Draft.readItems, finish_eq _ (by omega)]
      exact .pure rfl
  | succ turns ih =>
      rw [Scan.readItems, Draft.readItems, cursorAt_isEmpty]
      split
      · exact .pure rfl
      · next more =>
          rw [isEnd_iff, not_not] at more
          refine .bind (readItem_follows draft more) ?_
          rintro ⟨later, behind⟩ _ ⟨behind_inside, rfl⟩ item
          have tokens_ne_nil : (cursorAt source position).tokens ≠ [] := by
            rcases exists_token_at more with ⟨token, tokens_eq, _⟩
            simp [tokens_eq]
          have position_lt := lt_of_cursorAt_lt (Draft.readItem_lt tokens_ne_nil item)
          simp only [ensureProgress, if_pos position_lt, pure_bind]
          exact ih later (by omega)

end Items

section Header

variable {source : String} {position : Nat}

theorem readHeaderName_follows (source : String) (lexerOnly : Bool) (position : Nat) :
    Follows (Paired (StandsAt source)) ((scanOf source).readHeaderName lexerOnly position)
      (Draft.readHeader.named lexerOnly (cursorAt source position)) := by
  unfold Scan.readHeaderName Draft.readHeader.named
  refine .bind (expect_follows source position _ _) ?_
  rintro ⟨name, behind⟩ _ ⟨_, rfl⟩ _
  refine .bind (pass_follows source behind _ _) ?_
  rintro ended _ ⟨ended_inside, rfl⟩ _
  simp only
  split
  · rfl
  · exact .pure ⟨ended_inside, rfl⟩

theorem lt_of_textAt {distance : Nat} {text : String}
    (here : (cursorAt source position).textAt distance = text) (nonempty : text ≠ "") :
    position + distance < (tokens source).length := by
  by_contra ended
  have outside : (cursorAt source position).tokens[distance]? = none := by
    rw [List.getElem?_eq_none_iff, cursorAt_length, remaining_eq]
    omega
  rw [Cursor.textAt, outside] at here
  exact nonempty here.symm

theorem readHeader_follows (inside : position ≤ (tokens source).length) :
    Follows (Paired (StandsAt source)) ((scanOf source).readHeader position)
      (Draft.readHeader (cursorAt source position)) := by
  unfold Scan.readHeader Draft.readHeader
  simp only [isAtWord_eq, textAt_eq, pure_bind, cursorAt_kindAt?, cursorAt_advance]
  split
  · next here =>
      have next_lt : position + 1 < (tokens source).length := by
        simp only [Bool.or_eq_true, Bool.and_eq_true, decide_eq_true_eq] at here
        exact here.elim (fun lexer => lt_of_textAt lexer.2 (by decide))
          fun parser => lt_of_textAt parser.2 (by decide)
      rw [moveTo_eq next_lt, pure_bind]
      exact readHeaderName_follows source _ (position + 2)
  · split
    · next here =>
        rw [moveTo_eq (lt_of_isAtWord (Bool.and_eq_true_iff.1 here).1), pure_bind]
        exact readHeaderName_follows source _ (position + 1)
    · exact .pure ⟨inside, rfl⟩

end Header

/--
The description of a grammar is read without a crash from every source text, and it is the one, or
the error is the one, that reading without checks gives.
-/
theorem checkedParse_eq (source : String) : (checkedParse source).run = .ok (parse source) := by
  apply Follows.run_eq
  unfold checkedParse parse
  rw [spans_eq, pure_bind]
  refine .bind (readHeader_follows (Nat.zero_le _)) ?_
  rintro ⟨draft, position⟩ _ ⟨inside, rfl⟩ _
  have enough : (tokens source).length ≤ position + (scanOf source).remaining position := by
    rw [remaining_eq]
    omega
  simp only [cursorAt_length]
  refine .bind (readItems_follows draft enough) ?_
  rintro later _ rfl _
  split
  · exact .pure rfl
  · rfl

end VisiblyPushdown.Source
