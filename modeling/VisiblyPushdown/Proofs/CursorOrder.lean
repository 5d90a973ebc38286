import Mathlib.Order.Basic
import VisiblyPushdown.Source.Parser

/-!
# The order of cursors

A cursor is below another one when the tokens that it has in front of it are the last ones of those
in front of the other. Whatever a cursor passes takes it down in this order, strictly unless nothing
was there to be passed.
-/

namespace VisiblyPushdown.Source

section Except

variable {ε α β : Type}

theorem bind_eq_ok {attempt : Except ε α} {next : α → Except ε β} {result : β} :
    attempt >>= next = .ok result ↔ ∃ value, attempt = .ok value ∧ next value = .ok result := by
  cases attempt <;> simp [bind, Except.bind]

end Except

theorem pastGreater?_suffix {before after : List Token} (found : pastGreater? before = some after) :
    after <:+ before := by
  induction before with
  | nil => cases found
  | cons token before ih =>
      rw [pastGreater?] at found
      split at found
      · cases found
        exact List.suffix_cons token _
      · exact (ih found).trans (List.suffix_cons token before)

theorem pastSemicolon_suffix (depth : Nat) (tokens : List Token) :
    pastSemicolon depth tokens <:+ tokens := by
  induction tokens generalizing depth with
  | nil => exact List.suffix_rfl
  | cons token tokens ih =>
      have behind (depth : Nat) : pastSemicolon depth tokens <:+ token :: tokens :=
        (ih depth).trans (List.suffix_cons token tokens)
      rw [pastSemicolon]
      split
      · exact behind _
      · exact behind _
      · split
        · exact List.suffix_cons token tokens
        · exact behind _
      · exact behind _

namespace Cursor

instance : Preorder Cursor where
  le later earlier := later.tokens <:+ earlier.tokens
  le_refl _ := List.suffix_rfl
  le_trans _ _ _ first second := first.trans second

variable {cursor later earlier rest : Cursor} {kind : TokenKind}

theorem length_le_of_le (below : later ≤ earlier) : later.tokens.length ≤ earlier.tokens.length :=
  List.IsSuffix.length_le below

theorem length_lt_of_lt (below : later < earlier) :
    later.tokens.length < earlier.tokens.length := by
  rcases below with ⟨suffix, not_suffix⟩
  apply Nat.lt_of_le_of_ne (length_le_of_le suffix)
  intro same
  have same_tokens : later.tokens = earlier.tokens := List.IsSuffix.eq_of_length suffix same
  exact not_suffix ⟨[], same_tokens.symm⟩

theorem advance_le (cursor : Cursor) (count : Nat) : cursor.advance count ≤ cursor :=
  List.drop_suffix count cursor.tokens

theorem advance_lt (more : cursor.tokens ≠ []) {count : Nat} (positive : 0 < count) :
    cursor.advance count < cursor := by
  refine ⟨advance_le cursor count, fun back => ?_⟩
  have shorter : (cursor.advance count).tokens.length = cursor.tokens.length - count :=
    List.length_drop
  have length_pos := List.length_pos_iff.2 more
  have length_le : cursor.tokens.length ≤ (cursor.advance count).tokens.length :=
    List.IsSuffix.length_le back
  omega

theorem tokens_ne_nil_of_kind? (here : cursor.kind? = some kind) : cursor.tokens ≠ [] := by
  intro empty
  simp [kind?, kindAt?, empty] at here

theorem tokens_ne_nil_of_isAt (here : cursor.isAt kind) : cursor.tokens ≠ [] :=
  tokens_ne_nil_of_kind? (of_decide_eq_true here)

theorem skip_le (cursor : Cursor) (kind : TokenKind) : cursor.skip kind ≤ cursor := by
  unfold skip
  split
  · exact advance_le cursor 1
  · exact le_refl cursor

theorem pass_eq_ok_iff {what : String} :
    cursor.pass kind what = .ok rest ↔ cursor.isAt kind ∧ cursor.advance = rest := by
  unfold pass expect
  split
  · next here => simp [here, Except.map]
  · next elsewhere => simp [elsewhere, fail, Except.map]

theorem expect_le {what text : String} (expected : cursor.expect kind what = .ok (text, rest)) :
    rest ≤ cursor := by
  unfold expect at expected
  split at expected
  · cases expected
    exact advance_le cursor 1
  · cases expected

theorem pass_lt {what : String} (passed : cursor.pass kind what = .ok rest) : rest < cursor := by
  rcases pass_eq_ok_iff.1 passed with ⟨here, rfl⟩
  exact advance_lt (tokens_ne_nil_of_isAt here) Nat.one_pos

theorem skipElementOptions_le (skipped : cursor.skipElementOptions = .ok rest) :
    rest ≤ cursor := by
  unfold skipElementOptions at skipped
  split at skipped
  · split at skipped
    · next tokens found =>
        cases skipped
        exact (pastGreater?_suffix found).trans (advance_le cursor 1)
    · cases skipped
  · cases skipped
    exact le_refl cursor

theorem skipElementLabel_le (cursor : Cursor) : cursor.skipElementLabel ≤ cursor := by
  unfold skipElementLabel
  split
  · exact advance_le cursor 2
  · exact le_refl cursor

theorem skipAlternativeLabel_le (skipped : cursor.skipAlternativeLabel = .ok rest) :
    rest ≤ cursor := by
  unfold skipAlternativeLabel at skipped
  split at skipped
  · exact (pass_lt skipped).le.trans (advance_le cursor 1)
  · cases skipped
    exact le_refl cursor

theorem skipBlockOptions_le (skipped : cursor.skipBlockOptions = .ok rest) : rest ≤ cursor := by
  unfold skipBlockOptions at skipped
  split at skipped
  · exact (pass_lt skipped).le.trans (advance_le cursor 2)
  · cases skipped
    exact le_refl cursor

/-- What is read of a block begins behind its opening parenthesis. -/
theorem inside_block_lt (here : cursor.isAt .leftParen)
    (skipped : cursor.advance.skipBlockOptions = .ok rest) : rest < cursor :=
  (skipBlockOptions_le skipped).trans_lt (advance_lt (tokens_ne_nil_of_isAt here) Nat.one_pos)

theorem repetition_le (cursor : Cursor) : cursor.repetition.2 ≤ cursor := by
  have behind : cursor.advance.skip .question ≤ cursor :=
    (skip_le _ _).trans (advance_le cursor 1)
  unfold repetition
  split
  · exact behind
  · exact behind
  · exact behind
  · exact le_refl cursor

theorem complementLength_pos {length : Nat} (found : cursor.complementLength = .ok length) :
    0 < length := by
  unfold complementLength at found
  split at found
  · split at found
    · cases found
      omega
    · cases found
  all_goals
    cases found
    try omega

theorem skipPastSemicolon_le (cursor : Cursor) : cursor.skipPastSemicolon ≤ cursor :=
  pastSemicolon_suffix 0 cursor.tokens

theorem passNamedAction_lt (passed : cursor.passNamedAction = .ok rest) : rest < cursor := by
  rcases bind_eq_ok.1 passed with ⟨name, name_passed, passed⟩
  rcases bind_eq_ok.1 passed with ⟨behind, behind_passed, passed⟩
  have behind_lt := (pass_lt behind_passed).trans (pass_lt name_passed)
  dsimp only at passed
  split at passed
  · rcases bind_eq_ok.1 passed with ⟨scope, scope_passed, passed⟩
    exact (pass_lt passed).trans
      ((pass_lt scope_passed).trans_le ((advance_le _ 1).trans behind_lt.le))
  · exact (pass_lt passed).trans behind_lt

theorem passNamedAction_le (passed : cursor.passNamedAction = .ok rest) : rest ≤ cursor :=
  (passNamedAction_lt passed).le

theorem passExceptionNames_le {turns : Nat} (passed : passExceptionNames turns cursor = .ok rest) :
    rest ≤ cursor := by
  induction turns generalizing cursor with
  | zero =>
      cases passed
      exact le_refl _
  | succ turns ih =>
      rw [passExceptionNames] at passed
      split at passed
      · rcases bind_eq_ok.1 passed with ⟨behind, name_passed, passed⟩
        exact (ih passed).trans ((pass_lt name_passed).le.trans (advance_le _ 1))
      · cases passed
        exact le_refl _

theorem passPrelude_le {turns : Nat} (passed : passPrelude turns cursor = .ok rest) :
    rest ≤ cursor := by
  induction turns generalizing cursor with
  | zero =>
      cases passed
      exact le_refl _
  | succ turns ih =>
      rw [passPrelude] at passed
      split at passed
      · exact (ih passed).trans (advance_le _ 1)
      · split at passed
        · rcases bind_eq_ok.1 passed with ⟨behind, block_passed, passed⟩
          exact (ih passed).trans ((pass_lt block_passed).le.trans (advance_le _ 1))
        · split at passed
          · rcases bind_eq_ok.1 passed with ⟨behind, name_passed, passed⟩
            rcases bind_eq_ok.1 passed with ⟨others, others_passed, passed⟩
            exact (ih passed).trans ((passExceptionNames_le others_passed).trans
              ((pass_lt name_passed).le.trans (advance_le _ 1)))
          · split at passed
            · exact (ih passed).trans (advance_le _ 2)
            · split at passed
              · rcases bind_eq_ok.1 passed with ⟨behind, action_passed, passed⟩
                exact (ih passed).trans (passNamedAction_le action_passed)
              · cases passed
                exact le_refl _

theorem passHandlers_le {turns : Nat} (passed : passHandlers turns cursor = .ok rest) :
    rest ≤ cursor := by
  induction turns generalizing cursor with
  | zero =>
      cases passed
      exact le_refl _
  | succ turns ih =>
      rw [passHandlers] at passed
      split at passed
      · rcases bind_eq_ok.1 passed with ⟨behind, name_passed, passed⟩
        rcases bind_eq_ok.1 passed with ⟨others, action_passed, passed⟩
        exact (ih passed).trans ((pass_lt action_passed).le.trans
          ((pass_lt name_passed).le.trans (advance_le _ 1)))
      · split at passed
        · rcases bind_eq_ok.1 passed with ⟨behind, action_passed, passed⟩
          exact (ih passed).trans ((pass_lt action_passed).le.trans (advance_le _ 1))
        · cases passed
          exact le_refl _

end Cursor

namespace Draft

variable {draft later : Draft} {cursor rest : Cursor} {symbol : Symbol}

theorem readLiteral_lt (more : cursor.tokens ≠ [])
    (read : draft.readLiteral cursor = .ok (symbol, later, rest)) : rest < cursor := by
  have behind := Cursor.advance_lt more Nat.one_pos
  simp only [readLiteral] at read
  split at read
  · rcases bind_eq_ok.1 read with ⟨ended, passed, finished⟩
    cases finished
    exact (Cursor.pass_lt passed).trans ((Cursor.advance_le _ 1).trans_lt behind)
  · cases read
    exact behind

theorem readName_lt (draft : Draft) (more : cursor.tokens ≠ []) :
    (draft.readName cursor).2.2 < cursor := by
  have behind := Cursor.advance_lt more Nat.one_pos
  unfold readName
  split
  · exact behind
  · exact (Cursor.skip_le _ _).trans_lt behind

theorem readPlainAtom_lt (read : draft.readPlainAtom cursor = .ok (symbol, later, rest)) :
    rest < cursor := by
  unfold readPlainAtom at read
  split at read
  · next here => exact readLiteral_lt (Cursor.tokens_ne_nil_of_kind? here) read
  · next here =>
      have behind := readName_lt draft (Cursor.tokens_ne_nil_of_kind? here)
      rw [Except.ok.inj read] at behind
      exact behind
  · next here =>
      cases read
      exact Cursor.advance_lt (Cursor.tokens_ne_nil_of_kind? here) Nat.one_pos
  · next here =>
      rcases bind_eq_ok.1 read with ⟨length, found, read⟩
      cases read
      exact Cursor.advance_lt (Cursor.tokens_ne_nil_of_kind? here)
        (Cursor.complementLength_pos found)
  · cases read

theorem readAtom_lt (read : draft.readAtom cursor = .ok (symbol, later, rest)) : rest < cursor := by
  rcases bind_eq_ok.1 read with ⟨⟨symbol, draft, behind⟩, read, finished⟩
  rcases bind_eq_ok.1 finished with ⟨rest, skipped, finished⟩
  cases finished
  exact (Cursor.skipElementOptions_le skipped).trans_lt (readPlainAtom_lt read)

end Draft

end VisiblyPushdown.Source
