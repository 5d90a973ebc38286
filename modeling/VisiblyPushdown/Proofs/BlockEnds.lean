import VisiblyPushdown.Proofs.LegibleNames

/-!
# Where a block ends

The end of a block is found in two ways: by counting parentheses, and by reading what is inside. The
two agree as long as no element options hold a parenthesis, since options are the only place where
the reader passes over tokens that it does not look at and that are counted nevertheless. Then a
part that is read inside a block never leaves it.
-/

namespace VisiblyPushdown.Source

/--
Whether no parenthesis stands between a `<` and the next `>`. `inside` says that a `<` was met that
still waits for its `>`.
-/
def flatOptions : (inside : Bool) → List Token → Bool
  | _, [] => true
  | inside, token :: rest =>
    match token.kind with
    | .less => flatOptions true rest
    | .greater => flatOptions false rest
    | kind => !(inside && kind.isParen) && flatOptions inside rest

/-- Flat options are a matter of the kinds of tokens. -/
theorem flatOptions_congr {tokens twins : List Token}
    (same : tokens.map Token.lexeme = twins.map Token.lexeme) (inside : Bool) :
    flatOptions inside tokens = flatOptions inside twins := by
  induction tokens generalizing twins inside with
  | nil => rw [List.map_eq_nil_iff.1 same.symm]
  | cons token tokens ih =>
      rcases List.map_eq_cons_iff.1 same.symm with ⟨twin, others, rfl, twin_eq, others_eq⟩
      have kind_eq : twin.kind = token.kind := congrArg Lexeme.kind twin_eq
      simp only [flatOptions, kind_eq, ih others_eq.symm]

/-- Whether a token of the kind neither belongs to a group nor starts options. -/
def TokenKind.isPlain : TokenKind → Bool
  | .less => false
  | kind => !kind.isParen

/--
Whether tokens lead to the closing parenthesis at `stop`, with `depth` more parentheses to be closed
in front of it, and with flat options.
-/
inductive Enclosed : (inside : Bool) → (depth : Nat) → (tokens stop : List Token) → Prop
  | close {token : Token} {rest : List Token} : token.kind = .rightParen →
      Enclosed false 0 (token :: rest) (token :: rest)
  | leave {depth : Nat} {token : Token} {rest stop : List Token} : token.kind = .rightParen →
      Enclosed false depth rest stop → Enclosed false (depth + 1) (token :: rest) stop
  | enter {depth : Nat} {token : Token} {rest stop : List Token} : token.kind = .leftParen →
      Enclosed false (depth + 1) rest stop → Enclosed false depth (token :: rest) stop
  | less {inside : Bool} {depth : Nat} {token : Token} {rest stop : List Token} :
      token.kind = .less → Enclosed true depth rest stop →
      Enclosed inside depth (token :: rest) stop
  | greater {inside : Bool} {depth : Nat} {token : Token} {rest stop : List Token} :
      token.kind = .greater → Enclosed false depth rest stop →
      Enclosed inside depth (token :: rest) stop
  | other {inside : Bool} {depth : Nat} {token : Token} {rest stop : List Token} :
      token.kind ≠ .less → token.kind ≠ .greater → token.kind.isParen = false →
      Enclosed inside depth rest stop → Enclosed inside depth (token :: rest) stop

/-- Where parentheses are counted to end, tokens with flat options lead to that end. -/
theorem enclosed_of_flatOptions {inside : Bool} {depth count : Nat} {tokens : List Token}
    (found : closingParen? (depth + 1) tokens = some count)
    (flat : flatOptions inside (tokens.take (count + 1))) :
    Enclosed inside depth tokens (tokens.drop count) := by
  induction tokens generalizing inside depth count with
  | nil => cases found
  | cons token tokens ih =>
      rw [List.take_succ_cons, flatOptions.eq_def] at flat
      cases kind_eq : token.kind with
      | leftParen =>
          rw [closingParen?_cons_opening _ _ kind_eq, Option.map_eq_some_iff] at found
          rcases found with ⟨fewer, found, rfl⟩
          simp [kind_eq, TokenKind.isParen] at flat
          rcases flat with ⟨rfl, flat⟩
          exact .enter kind_eq (ih found flat)
      | rightParen =>
          simp [kind_eq, TokenKind.isParen] at flat
          rcases flat with ⟨rfl, flat⟩
          cases depth with
          | zero =>
              rw [closingParen?_cons_last _ kind_eq] at found
              cases found
              exact .close kind_eq
          | succ depth =>
              rw [closingParen?_cons_close _ _ kind_eq, Option.map_eq_some_iff] at found
              rcases found with ⟨fewer, found, rfl⟩
              exact .leave kind_eq (ih found flat)
      | less =>
          have not_paren : token.kind.isParen = false := by rw [kind_eq]; rfl
          rw [closingParen?_cons _ _ not_paren, Option.map_eq_some_iff] at found
          rcases found with ⟨fewer, found, rfl⟩
          simp only [kind_eq] at flat
          exact .less kind_eq (ih found flat)
      | greater =>
          have not_paren : token.kind.isParen = false := by rw [kind_eq]; rfl
          rw [closingParen?_cons _ _ not_paren, Option.map_eq_some_iff] at found
          rcases found with ⟨fewer, found, rfl⟩
          simp only [kind_eq] at flat
          exact .greater kind_eq (ih found flat)
      | _ =>
          have not_paren : token.kind.isParen = false := by rw [kind_eq]; rfl
          rw [closingParen?_cons _ _ not_paren, Option.map_eq_some_iff] at found
          rcases found with ⟨fewer, found, rfl⟩
          simp [kind_eq, TokenKind.isParen] at flat
          exact .other (by simp [kind_eq]) (by simp [kind_eq]) not_paren (ih found flat)

theorem TokenKind.isPlain_of_isSet {kind : TokenKind} (set : kind.isSet) : kind.isPlain := by
  revert set
  cases kind <;> decide

namespace Cursor

theorem exists_token {cursor : Cursor} {kind : TokenKind} (here : cursor.kind? = some kind) :
    ∃ token, cursor.tokens = token :: cursor.advance.tokens ∧ token.kind = kind := by
  rcases exists_of_kind? here with ⟨token, others, tokens_eq, kind_eq, _⟩
  exact ⟨token, by simp [advance, tokens_eq], kind_eq⟩

theorem kind?_advance (cursor : Cursor) : cursor.advance.kind? = cursor.kindAt? 1 := by
  simp [kind?, kindAt?, advance]

theorem advance_advance (cursor : Cursor) (first second : Nat) :
    (cursor.advance first).advance second = cursor.advance (first + second) := by
  simp [advance]

end Cursor

namespace Enclosed

variable {inside : Bool} {depth inner count : Nat} {token : Token}
  {tokens rest stop : List Token}

theorem suffix (enclosed : Enclosed inside depth tokens stop) : stop <:+ tokens := by
  induction enclosed with
  | close _ => exact List.suffix_rfl
  | leave _ _ ih => exact ih.trans (List.suffix_cons _ _)
  | enter _ _ ih => exact ih.trans (List.suffix_cons _ _)
  | less _ _ ih => exact ih.trans (List.suffix_cons _ _)
  | greater _ _ ih => exact ih.trans (List.suffix_cons _ _)
  | other _ _ _ _ ih => exact ih.trans (List.suffix_cons _ _)

/-- A closing parenthesis is where the tokens lead to. -/
theorem exists_stop (enclosed : Enclosed inside depth tokens stop) :
    ∃ closing rest, stop = closing :: rest ∧ closing.kind = .rightParen := by
  induction enclosed with
  | close kind_eq => exact ⟨_, _, rfl, kind_eq⟩
  | leave _ _ ih => exact ih
  | enter _ _ ih => exact ih
  | less _ _ ih => exact ih
  | greater _ _ ih => exact ih
  | other _ _ _ _ ih => exact ih

theorem tail (enclosed : Enclosed false depth (token :: rest) stop) (plain : token.kind.isPlain) :
    Enclosed false depth rest stop := by
  cases enclosed with
  | other _ _ _ enclosed => exact enclosed
  | greater _ enclosed => exact enclosed
  | _ => simp_all [TokenKind.isPlain, TokenKind.isParen]

theorem tail_leftParen (enclosed : Enclosed false depth (token :: rest) stop)
    (kind_eq : token.kind = .leftParen) : Enclosed false (depth + 1) rest stop := by
  cases enclosed with
  | enter _ enclosed => exact enclosed
  | _ => simp_all [TokenKind.isParen]

theorem tail_rightParen (enclosed : Enclosed false (depth + 1) (token :: rest) stop)
    (kind_eq : token.kind = .rightParen) : Enclosed false depth rest stop := by
  cases enclosed with
  | leave _ enclosed => exact enclosed
  | _ => simp_all [TokenKind.isParen]

theorem eq_stop (enclosed : Enclosed false 0 (token :: rest) stop)
    (kind_eq : token.kind = .rightParen) : token :: rest = stop := by
  cases enclosed with
  | close _ => rfl
  | _ => simp_all [TokenKind.isParen]

theorem tail_less (enclosed : Enclosed inside depth (token :: rest) stop)
    (kind_eq : token.kind = .less) : Enclosed true depth rest stop := by
  cases enclosed with
  | less _ enclosed => exact enclosed
  | other not_less _ _ _ => exact absurd kind_eq not_less
  | _ => simp_all

/-- Options end in front of the parenthesis. -/
theorem of_pastGreater? (enclosed : Enclosed true depth tokens stop)
    (found : pastGreater? tokens = some rest) : Enclosed false depth rest stop := by
  induction tokens with
  | nil => cases found
  | cons token tokens ih =>
      rw [pastGreater?] at found
      cases enclosed with
      | less kind_eq enclosed =>
          rw [if_neg (by simp [kind_eq])] at found
          exact ih enclosed found
      | greater kind_eq enclosed =>
          rw [if_pos kind_eq] at found
          cases found
          exact enclosed
      | other _ not_greater _ enclosed =>
          rw [if_neg not_greater] at found
          exact ih enclosed found

/-- What is inside an inner group leads to its end, and what is behind it leads to the outer one. -/
theorem of_closingParen? (enclosed : Enclosed inside depth tokens stop)
    (found : closingParen? (inner + 1) tokens = some count) (outer : Nat)
    (depth_eq : depth = inner + 1 + outer) :
    Enclosed inside inner tokens (tokens.drop count) ∧
      Enclosed false outer (tokens.drop (count + 1)) stop := by
  induction enclosed generalizing inner count with
  | close _ => omega
  | @leave depth token rest stop kind_eq enclosed ih =>
      cases inner with
      | zero =>
          rw [closingParen?_cons_last rest kind_eq] at found
          cases found
          obtain rfl : depth = outer := by omega
          exact ⟨.close kind_eq, enclosed⟩
      | succ inner =>
          rw [closingParen?_cons_close inner rest kind_eq, Option.map_eq_some_iff] at found
          rcases found with ⟨fewer, found, rfl⟩
          rcases ih found (by omega) with ⟨first, second⟩
          exact ⟨.leave kind_eq first, second⟩
  | @enter depth token rest stop kind_eq enclosed ih =>
      rw [closingParen?_cons_opening _ rest kind_eq, Option.map_eq_some_iff] at found
      rcases found with ⟨fewer, found, rfl⟩
      rcases ih found (by omega) with ⟨first, second⟩
      exact ⟨.enter kind_eq first, second⟩
  | @less inside depth token rest stop kind_eq enclosed ih =>
      rw [closingParen?_cons _ rest (by rw [kind_eq]; rfl), Option.map_eq_some_iff] at found
      rcases found with ⟨fewer, found, rfl⟩
      rcases ih found depth_eq with ⟨first, second⟩
      exact ⟨.less kind_eq first, second⟩
  | @greater inside depth token rest stop kind_eq enclosed ih =>
      rw [closingParen?_cons _ rest (by rw [kind_eq]; rfl), Option.map_eq_some_iff] at found
      rcases found with ⟨fewer, found, rfl⟩
      rcases ih found depth_eq with ⟨first, second⟩
      exact ⟨.greater kind_eq first, second⟩
  | @other inside depth token rest stop not_less not_greater not_paren enclosed ih =>
      rw [closingParen?_cons _ rest not_paren, Option.map_eq_some_iff] at found
      rcases found with ⟨fewer, found, rfl⟩
      rcases ih found depth_eq with ⟨first, second⟩
      exact ⟨.other not_less not_greater not_paren first, second⟩

section Cursors

variable {cursor ended : Cursor} {kind : TokenKind} {what : String}

theorem advance (enclosed : Enclosed false depth cursor.tokens stop)
    (here : cursor.kind? = some kind) (plain : kind.isPlain) :
    Enclosed false depth cursor.advance.tokens stop := by
  rcases Cursor.exists_token here with ⟨token, tokens_eq, rfl⟩
  rw [tokens_eq] at enclosed
  exact enclosed.tail plain

theorem skip (enclosed : Enclosed false depth cursor.tokens stop) (plain : kind.isPlain) :
    Enclosed false depth (cursor.skip kind).tokens stop := by
  unfold Cursor.skip
  split
  · next here => exact enclosed.advance (of_decide_eq_true here) plain
  · exact enclosed

theorem pass (enclosed : Enclosed false depth cursor.tokens stop)
    (passed : cursor.pass kind what = .ok ended) (plain : kind.isPlain) :
    Enclosed false depth ended.tokens stop := by
  rcases Cursor.pass_eq_ok_iff.1 passed with ⟨here, rfl⟩
  exact enclosed.advance (of_decide_eq_true here) plain

theorem advance_leftParen (enclosed : Enclosed false depth cursor.tokens stop)
    (here : cursor.isAt .leftParen) : Enclosed false (depth + 1) cursor.advance.tokens stop := by
  rcases Cursor.exists_token (of_decide_eq_true here) with ⟨token, tokens_eq, kind_eq⟩
  rw [tokens_eq] at enclosed
  exact enclosed.tail_leftParen kind_eq

theorem pass_rightParen (enclosed : Enclosed false (depth + 1) cursor.tokens stop)
    (passed : cursor.pass .rightParen what = .ok ended) :
    Enclosed false depth ended.tokens stop := by
  rcases Cursor.pass_eq_ok_iff.1 passed with ⟨here, rfl⟩
  rcases Cursor.exists_token (of_decide_eq_true here) with ⟨token, tokens_eq, kind_eq⟩
  rw [tokens_eq] at enclosed
  exact enclosed.tail_rightParen kind_eq

theorem tokens_eq_stop (enclosed : Enclosed false 0 cursor.tokens stop)
    (here : cursor.isAt .rightParen) : cursor.tokens = stop := by
  rcases Cursor.exists_token (of_decide_eq_true here) with ⟨token, tokens_eq, kind_eq⟩
  rw [tokens_eq] at enclosed ⊢
  exact enclosed.eq_stop kind_eq

theorem skipElementOptions (enclosed : Enclosed false depth cursor.tokens stop)
    (skipped : cursor.skipElementOptions = .ok ended) :
    Enclosed false depth ended.tokens stop := by
  unfold Cursor.skipElementOptions at skipped
  split at skipped
  · next here =>
      split at skipped
      · next behind found =>
          cases skipped
          rcases Cursor.exists_token (of_decide_eq_true here) with ⟨token, tokens_eq, kind_eq⟩
          rw [tokens_eq] at enclosed
          exact (enclosed.tail_less kind_eq).of_pastGreater? found
      · cases skipped
  · cases skipped
    exact enclosed

theorem skipAlternativeLabel (enclosed : Enclosed false depth cursor.tokens stop)
    (skipped : cursor.skipAlternativeLabel = .ok ended) :
    Enclosed false depth ended.tokens stop := by
  unfold Cursor.skipAlternativeLabel at skipped
  split at skipped
  · next here => exact (enclosed.advance (of_decide_eq_true here) rfl).pass skipped rfl
  · cases skipped
    exact enclosed

theorem advance_two (enclosed : Enclosed false depth cursor.tokens stop) {next : TokenKind}
    (here : cursor.kind? = some kind) (plain : kind.isPlain)
    (next_here : cursor.kindAt? 1 = some next) (next_plain : next.isPlain) :
    Enclosed false depth (cursor.advance 2).tokens stop := by
  have behind := cursor.kind?_advance.trans next_here
  have enclosed_behind := (enclosed.advance here plain).advance behind next_plain
  rwa [Cursor.advance_advance] at enclosed_behind

theorem skipElementLabel (enclosed : Enclosed false depth cursor.tokens stop) :
    Enclosed false depth cursor.skipElementLabel.tokens stop := by
  unfold Cursor.skipElementLabel
  split
  · next here =>
      rcases here with ⟨name, sign | sign⟩
      · exact enclosed.advance_two (of_decide_eq_true name) rfl sign rfl
      · exact enclosed.advance_two (of_decide_eq_true name) rfl sign rfl
  · exact enclosed

theorem skipBlockOptions (enclosed : Enclosed false depth cursor.tokens stop)
    (skipped : cursor.skipBlockOptions = .ok ended) : Enclosed false depth ended.tokens stop := by
  unfold Cursor.skipBlockOptions at skipped
  split at skipped
  · next here =>
      simp only [Cursor.isAtOptions, Cursor.isAtWord, Bool.and_eq_true] at here
      rcases here with ⟨⟨name, _⟩, action⟩
      exact (enclosed.advance_two (of_decide_eq_true name) rfl (of_decide_eq_true action) rfl).pass
        skipped rfl
  · cases skipped
    exact enclosed

theorem repetition (enclosed : Enclosed false depth cursor.tokens stop) :
    Enclosed false depth cursor.repetition.2.tokens stop := by
  unfold Cursor.repetition
  split
  · next here => exact (enclosed.advance here rfl).skip rfl
  · next here => exact (enclosed.advance here rfl).skip rfl
  · next here => exact (enclosed.advance here rfl).skip rfl
  · exact enclosed

/-- A group that is passed over lies inside as a whole. -/
theorem group (enclosed : Enclosed false depth cursor.tokens stop) (here : cursor.isAt .leftParen)
    (found : closingParen? 0 cursor.tokens = some count) :
    Enclosed false 0 cursor.advance.tokens (cursor.tokens.drop count) ∧
      Enclosed false depth (cursor.advance (count + 1)).tokens stop := by
  rcases Cursor.exists_token (of_decide_eq_true here) with ⟨token, tokens_eq, kind_eq⟩
  have inside := enclosed.advance_leftParen here
  rw [tokens_eq, closingParen?_cons_opening 0 _ kind_eq, Option.map_eq_some_iff] at found
  rcases found with ⟨fewer, found, rfl⟩
  rcases inside.of_closingParen? found depth (by omega) with ⟨first, second⟩
  have drop_eq (length : Nat) :
      cursor.tokens.drop (length + 1) = cursor.advance.tokens.drop length := by
    rw [tokens_eq, List.drop_succ_cons]
  have behind_eq : (cursor.advance (fewer + 1 + 1)).tokens =
      cursor.advance.tokens.drop (fewer + 1) :=
    drop_eq (fewer + 1)
  rw [drop_eq fewer, behind_eq]
  exact ⟨first, second⟩

/-- The complement of a set lies inside as a whole. -/
theorem complement (enclosed : Enclosed false depth cursor.tokens stop)
    (here : cursor.kind? = some .tilde) {length : Nat}
    (found : cursor.complementLength = .ok length) :
    Enclosed false depth (cursor.advance length).tokens stop := by
  rcases Cursor.complementLength_eq_ok found with
    ⟨closing, paren, closed, rfl⟩ | ⟨kind, set, next_here, rfl⟩
  · have opens : cursor.advance.isAt .leftParen :=
      decide_eq_true (cursor.kind?_advance.trans paren)
    have group := ((enclosed.advance here rfl).group opens closed).2
    rwa [Cursor.advance_advance, Nat.add_comm 1] at group
  · exact enclosed.advance_two here rfl next_here (TokenKind.isPlain_of_isSet set)

end Cursors

section Readers

variable {draft later : Draft} {cursor ended : Cursor} {symbol : Symbol}

theorem readPlainAtom (enclosed : Enclosed false depth cursor.tokens stop)
    (read : draft.readPlainAtom cursor = .ok (symbol, later, ended)) :
    Enclosed false depth ended.tokens stop := by
  unfold Draft.readPlainAtom at read
  split at read
  · next here =>
      have behind := enclosed.advance here rfl
      simp only [Draft.readLiteral] at read
      split at read
      · next range =>
          rcases bind_eq_ok.1 read with ⟨closed, passed, finished⟩
          cases finished
          exact (behind.advance (of_decide_eq_true range) rfl).pass passed rfl
      · cases read
        exact behind
  · next here =>
      have behind := enclosed.advance here rfl
      simp only [Draft.readName] at read
      split at read
      · cases read
        exact behind
      · cases read
        exact behind.skip rfl
  · next here =>
      cases read
      exact enclosed.advance here rfl
  · next here =>
      rcases bind_eq_ok.1 read with ⟨length, found, finished⟩
      cases finished
      exact enclosed.complement here found
  · cases read

theorem readAtom (enclosed : Enclosed false depth cursor.tokens stop)
    (read : draft.readAtom cursor = .ok (symbol, later, ended)) :
    Enclosed false depth ended.tokens stop := by
  rcases bind_eq_ok.1 read with ⟨⟨symbol, middle, behind⟩, plain, read⟩
  rcases bind_eq_ok.1 read with ⟨closed, skipped, finished⟩
  cases finished
  exact (enclosed.readPlainAtom plain).skipElementOptions skipped

end Readers

end Enclosed

/-- A block with flat options leads to its own end. -/
theorem enclosed_of_block {cursor : Cursor} {closing : Nat} (here : cursor.isAt .leftParen)
    (found : closingParen? 0 cursor.tokens = some closing)
    (flat : flatOptions false (cursor.tokens.take (closing + 1))) :
    Enclosed false 0 cursor.advance.tokens (cursor.tokens.drop closing) := by
  rcases Cursor.exists_token (of_decide_eq_true here) with ⟨token, tokens_eq, kind_eq⟩
  rw [tokens_eq, closingParen?_cons_opening 0 _ kind_eq, Option.map_eq_some_iff] at found
  rcases found with ⟨fewer, found, rfl⟩
  rw [tokens_eq, List.take_succ_cons, flatOptions, kind_eq] at flat
  rw [tokens_eq]
  exact enclosed_of_flatOptions found (by simpa using flat)

variable {part : Part} {draft later opened : Draft} {cursor rest first behind : Cursor}
  {depth closing : Nat} {stop : List Token} {alternatives : List Alternative}

/-- What is read inside a group ends inside it. -/
theorem Reads.enclosed (reads : Reads part draft cursor later rest)
    (enclosed : Enclosed false depth cursor.tokens stop) :
    Enclosed false depth rest.tokens stop := by
  induction reads generalizing depth with
  | lastAlternative skipped _ labelled _ inner =>
      exact (inner (enclosed.skipElementOptions skipped)).skipAlternativeLabel labelled
  | moreAlternatives skipped _ labelled more _ inner others =>
      have bar := (inner (enclosed.skipElementOptions skipped)).skipAlternativeLabel labelled
      exact others (bar.advance (of_decide_eq_true more) rfl)
  | noElements _ => exact enclosed
  | moreElements _ _ _ _ inner others =>
      exact others (inner enclosed.skipElementLabel).repetition
  | atom _ read => exact enclosed.readAtom read
  | knownBlock here closed _ => exact (enclosed.group here closed).2
  | newBlock here _ _ _ skipped _ passed inner =>
      exact (inner ((enclosed.advance_leftParen here).skipBlockOptions skipped)).pass_rightParen
        passed

/-- A block that is read ends where its parentheses are counted to end. -/
theorem Reads.tokens_of_block (reads : Reads (.alternatives alternatives) opened first later behind)
    (inside : Enclosed false 0 cursor.advance.tokens (cursor.tokens.drop closing))
    (skipped : cursor.advance.skipBlockOptions = .ok first) {what : String}
    (passed : behind.pass .rightParen what = .ok rest) :
    behind.tokens = cursor.tokens.drop closing ∧
      rest.tokens = (cursor.advance (closing + 1)).tokens := by
  rcases Cursor.pass_eq_ok_iff.1 passed with ⟨ended, rfl⟩
  have behind_eq := (reads.enclosed (inside.skipBlockOptions skipped)).tokens_eq_stop ended
  refine ⟨behind_eq, ?_⟩
  rw [Cursor.advance, Cursor.advance, behind_eq, List.drop_drop]

end VisiblyPushdown.Source
