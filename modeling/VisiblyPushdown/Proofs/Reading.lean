import VisiblyPushdown.Proofs.CursorOrder

/-!
# What a successful reading consists of

Alternatives, elements and blocks are read by three functions that call each other with one call
less to spend. `Reads` says what they do when they succeed, without a count of calls. A reading goes
down in the order of cursors, so three calls for each token that is left are always enough, and
what the functions return in that case is a reading.
-/

namespace VisiblyPushdown.Source

/-- What is read inside a rule. -/
inductive Part where
  | alternatives (alternatives : List Alternative)
  | elements (alternative : Alternative)
  | element (symbol : Symbol)

/--
Reading of a part of a rule, which takes a draft and a cursor to another draft and a cursor behind
the part.
-/
inductive Reads : Part → Draft → Cursor → Draft → Cursor → Prop
  | lastAlternative {alternative : Alternative} {draft later : Draft}
      {cursor first behind rest : Cursor} :
      cursor.skipElementOptions = .ok first →
      Reads (.elements alternative) draft first later behind →
      behind.skipAlternativeLabel = .ok rest → ¬ rest.isAt .bar →
      Reads (.alternatives [alternative]) draft cursor later rest
  | moreAlternatives {alternative : Alternative} {others : List Alternative}
      {draft middle later : Draft} {cursor first behind bar rest : Cursor} :
      cursor.skipElementOptions = .ok first →
      Reads (.elements alternative) draft first middle behind →
      behind.skipAlternativeLabel = .ok bar → bar.isAt .bar →
      Reads (.alternatives others) middle bar.advance later rest →
      Reads (.alternatives (alternative :: others)) draft cursor later rest
  | noElements {draft : Draft} {cursor : Cursor} :
      cursor.endsAlternative → Reads (.elements []) draft cursor draft cursor
  | moreElements {symbol : Symbol} {others : Alternative} {draft middle later : Draft}
      {cursor behind rest : Cursor} :
      ¬ cursor.endsAlternative → ¬ cursor.isAt .actionBlock →
      Reads (.element symbol) draft cursor.skipElementLabel middle behind →
      Reads (.elements others) middle behind.repetition.2 later rest →
      Reads (.elements (⟨symbol, behind.repetition.1⟩ :: others)) draft cursor later rest
  | atom {symbol : Symbol} {draft later : Draft} {cursor rest : Cursor} :
      ¬ cursor.isAt .leftParen → draft.readAtom cursor = .ok (symbol, later, rest) →
      Reads (.element symbol) draft cursor later rest
  | knownBlock {draft : Draft} {cursor : Cursor} {closing : Nat} {name : String} :
      cursor.isAt .leftParen → closingParen? 0 cursor.tokens = some closing →
      draft.blocks.lookup (joinedText cursor.tokens (closing + 1)) = some name →
      Reads (.element ⟨name, .nonterminal⟩) draft cursor draft (cursor.advance (closing + 1))
  | newBlock {draft opened later : Draft} {cursor first behind rest : Cursor} {closing : Nat}
      {name : String} {alternatives : List Alternative} :
      cursor.isAt .leftParen → closingParen? 0 cursor.tokens = some closing →
      draft.blocks.lookup (joinedText cursor.tokens (closing + 1)) = none →
      draft.openBlock (joinedText cursor.tokens (closing + 1)) = (name, opened) →
      cursor.advance.skipBlockOptions = .ok first →
      Reads (.alternatives alternatives) opened first later behind →
      behind.pass .rightParen "`)`" = .ok rest →
      Reads (.element ⟨name, .nonterminal⟩) draft cursor (later.setRule name alternatives) rest

namespace Reads

variable {part : Part} {draft later : Draft} {cursor rest : Cursor}

theorem le (reads : Reads part draft cursor later rest) : rest ≤ cursor := by
  induction reads with
  | lastAlternative skipped _ labelled _ inner =>
      exact (Cursor.skipAlternativeLabel_le labelled).trans
        (inner.trans (Cursor.skipElementOptions_le skipped))
  | moreAlternatives skipped _ labelled _ _ inner others =>
      have bar_le := (Cursor.skipAlternativeLabel_le labelled).trans
        (inner.trans (Cursor.skipElementOptions_le skipped))
      exact others.trans ((Cursor.advance_le _ 1).trans bar_le)
  | noElements _ => exact le_refl _
  | moreElements _ _ _ _ inner others =>
      exact others.trans ((Cursor.repetition_le _).trans
        (inner.trans (Cursor.skipElementLabel_le _)))
  | atom _ read => exact (Draft.readAtom_lt read).le
  | knownBlock _ _ _ => exact Cursor.advance_le _ _
  | newBlock _ _ _ _ skipped _ passed inner =>
      exact (Cursor.pass_lt passed).le.trans
        (inner.trans ((Cursor.skipBlockOptions_le skipped).trans (Cursor.advance_le _ 1)))

theorem lt_of_element {symbol : Symbol} (reads : Reads (.element symbol) draft cursor later rest) :
    rest < cursor := by
  cases reads with
  | atom _ read => exact Draft.readAtom_lt read
  | knownBlock here _ _ =>
      exact Cursor.advance_lt (Cursor.tokens_ne_nil_of_isAt here) (Nat.succ_pos _)
  | newBlock _ _ _ _ skipped inner passed =>
      exact (Cursor.pass_lt passed).trans_le
        (inner.le.trans ((Cursor.skipBlockOptions_le skipped).trans (Cursor.advance_le _ 1)))

end Reads

namespace Draft

/-- Whether alternatives that are read with so many calls to spend are a reading. -/
def AlternativesRead (rule : String) (calls : Nat) : Prop :=
  ∀ draft cursor alternatives later rest, 3 * cursor.tokens.length < calls →
    readAlternatives rule calls draft cursor = .ok (alternatives, later, rest) →
      Reads (.alternatives alternatives) draft cursor later rest

/-- Whether elements that are read with so many calls to spend are a reading. -/
def ElementsRead (rule : String) (calls : Nat) : Prop :=
  ∀ draft cursor alternative later rest, 3 * cursor.tokens.length ≤ calls →
    readElements rule calls draft cursor = .ok (alternative, later, rest) →
      Reads (.elements alternative) draft cursor later rest

/-- Whether a block that is read with so many calls to spend is a reading. -/
def BlockRead (rule : String) (calls : Nat) : Prop :=
  ∀ draft cursor symbol later rest, cursor.isAt .leftParen →
    3 * cursor.tokens.length ≤ calls + 1 →
    readBlock rule calls draft cursor = .ok (symbol, later, rest) →
      Reads (.element symbol) draft cursor later rest

section Steps

variable {rule : String} {calls : Nat} (alternatives_read : AlternativesRead rule calls)
  (elements_read : ElementsRead rule calls) (block_read : BlockRead rule calls)

include alternatives_read elements_read in
theorem alternativesRead_succ : AlternativesRead rule (calls + 1) := by
  intro draft cursor alternatives later rest enough read
  rw [readAlternatives] at read
  rcases bind_eq_ok.1 read with ⟨first, skipped, read⟩
  rcases bind_eq_ok.1 read with ⟨⟨alternative, middle, behind⟩, elements, read⟩
  rcases bind_eq_ok.1 read with ⟨bar, labelled, read⟩
  have first_le := Cursor.length_le_of_le (Cursor.skipElementOptions_le skipped)
  have inner := elements_read draft first alternative middle behind (by omega) elements
  split at read
  · next more =>
      rcases bind_eq_ok.1 read with ⟨⟨others, last, ended⟩, rest_read, read⟩
      cases read
      have bar_lt : bar.advance < cursor :=
        (Cursor.advance_lt (Cursor.tokens_ne_nil_of_isAt more) Nat.one_pos).trans_le
          ((Cursor.skipAlternativeLabel_le labelled).trans
            (inner.le.trans (Cursor.skipElementOptions_le skipped)))
      have bar_length := Cursor.length_lt_of_lt bar_lt
      exact .moreAlternatives skipped inner labelled more
        (alternatives_read middle bar.advance others _ _ (by omega) rest_read)
  · next last =>
      cases read
      exact .lastAlternative skipped inner labelled last

include elements_read block_read in
theorem elementsRead_succ : ElementsRead rule (calls + 1) := by
  intro draft cursor alternative later rest enough read
  rw [readElements] at read
  split at read
  · next ended =>
      cases read
      exact .noElements ended
  · next inside =>
      dsimp only at read
      split at read
      · cases read
      · next not_action =>
          -- A block gets all calls but one for the tokens here, the other elements are behind it.
          have label_le := Cursor.skipElementLabel_le cursor
          have label_length := Cursor.length_le_of_le label_le
          have element : ∃ symbol middle behind others,
              Reads (.element symbol) draft cursor.skipElementLabel middle behind ∧
                readElements rule calls middle behind.repetition.2 = .ok (others, later, rest) ∧
                alternative = ⟨symbol, behind.repetition.1⟩ :: others := by
            split at read
            · next here =>
                rcases bind_eq_ok.1 read with ⟨⟨symbol, middle, behind⟩, block, read⟩
                rcases bind_eq_ok.1 read with ⟨⟨others, last, ended⟩, others_read, read⟩
                cases read
                exact ⟨symbol, middle, behind, others,
                  block_read _ _ _ _ _ here (by omega) block, others_read, rfl⟩
            · next elsewhere =>
                rcases bind_eq_ok.1 read with ⟨⟨symbol, middle, behind⟩, atom, read⟩
                rcases bind_eq_ok.1 read with ⟨⟨others, last, ended⟩, others_read, read⟩
                cases read
                exact ⟨symbol, middle, behind, others, .atom elsewhere atom, others_read, rfl⟩
          rcases element with ⟨symbol, middle, behind, others, inner, others_read, rfl⟩
          have behind_lt : behind.repetition.2 < cursor :=
            ((Cursor.repetition_le behind).trans_lt inner.lt_of_element).trans_le label_le
          have behind_length := Cursor.length_lt_of_lt behind_lt
          exact .moreElements inside not_action inner
            (elements_read middle behind.repetition.2 others later rest (by omega) others_read)

include alternatives_read in
theorem blockRead_succ : BlockRead rule (calls + 1) := by
  intro draft cursor symbol later rest here enough read
  rw [readBlock] at read
  split at read
  · cases read
  · next closing closed =>
      dsimp only at read
      split at read
      · next name known =>
          cases read
          exact .knownBlock here closed known
      · next unknown =>
          rcases bind_eq_ok.1 read with ⟨first, skipped, read⟩
          rcases bind_eq_ok.1 read with ⟨⟨alternatives, middle, behind⟩, inner, read⟩
          rcases bind_eq_ok.1 read with ⟨ended, passed, read⟩
          cases read
          have first_length := Cursor.length_lt_of_lt (Cursor.inside_block_lt here skipped)
          exact .newBlock here closed unknown rfl skipped
            (alternatives_read _ first alternatives middle behind (by omega) inner) passed

end Steps

/-- Three calls for each token are enough. -/
theorem reads_of_eq_ok (rule : String) (calls : Nat) :
    AlternativesRead rule calls ∧ ElementsRead rule calls ∧ BlockRead rule calls := by
  induction calls with
  | zero =>
      refine ⟨?_, ?_, ?_⟩
      · intro draft cursor alternatives later rest enough
        omega
      · intro draft cursor alternative later rest enough read
        cases read
        -- The elements end here because no token is left, not because the calls are spent.
        apply Reads.noElements
        have empty : cursor.tokens = [] := List.length_eq_zero_iff.1 (by omega)
        simp [Cursor.endsAlternative, Cursor.kind?, Cursor.kindAt?, empty]
      · intro draft cursor symbol later rest here enough
        have more := List.length_pos_iff.2 (Cursor.tokens_ne_nil_of_isAt here)
        omega
  | succ calls ih =>
      rcases ih with ⟨alternatives_read, elements_read, block_read⟩
      exact ⟨alternativesRead_succ alternatives_read elements_read,
        elementsRead_succ elements_read block_read, blockRead_succ alternatives_read⟩

/-- The alternatives of a rule are a reading from the start of its body to its semicolon. -/
theorem readBody_eq_ok {draft later : Draft} {name : String} {cursor rest : Cursor}
    (read : draft.readBody name cursor = .ok (later, rest)) :
    ∃ alternatives middle behind,
      Reads (.alternatives alternatives) (draft.openRule name) cursor middle behind ∧
        behind.pass .semicolon "`;`" = .ok rest ∧ middle.setRule name alternatives = later := by
  rcases bind_eq_ok.1 read with ⟨⟨alternatives, middle, behind⟩, inner, read⟩
  rcases bind_eq_ok.1 read with ⟨ended, passed, read⟩
  cases read
  refine ⟨alternatives, middle, behind, ?_, passed, rfl⟩
  exact (reads_of_eq_ok name _).1 _ cursor alternatives middle behind (Nat.lt_succ_self _) inner

end Draft

end VisiblyPushdown.Source
