import VisiblyPushdown.Proofs.BlockReuse
import VisiblyPushdown.Proofs.CheckedReader

/-!
# Steps that follow each other

A position goes with the cursor in front of the tokens that are left there. A step with checks
follows a step without them when it does not crash, and reports the same error or gives the same
result at the position of the cursor. Whatever passes tokens one after the other follows the cursor
that passes them, and so does the search for the parenthesis that closes a group.
-/

namespace VisiblyPushdown.Source

section Following

variable {α β γ δ : Type}

/-- Whether a step with checks does not crash and comes to what a step without them comes to. -/
def Follows (relates : α → β → Prop) (checked : Checked α) : Except GrammarError β → Prop
  | .ok result => ∃ value, checked = pure value ∧ relates value result
  | .error error => checked = throw error

/-- Pairs with the same first part and related second parts. -/
inductive Paired (relates : β → γ → Prop) : α × β → α × γ → Prop
  | mk {first : α} {value : β} {result : γ} : relates value result →
      Paired relates (first, value) (first, result)

namespace Follows

variable {relates : α → β → Prop} {relates_next : γ → δ → Prop}

theorem ok {value : α} {result : β} (related : relates value result) :
    Follows relates (pure value) (.ok result) :=
  ⟨value, rfl, related⟩

theorem pure {value : α} {result : β} (related : relates value result) :
    Follows relates (Pure.pure value) (Pure.pure result) :=
  ⟨value, rfl, related⟩

theorem error (relates : α → β → Prop) (error : GrammarError) :
    Follows relates (throw error) (.error error) :=
  rfl

theorem bind {checked : Checked α} {attempt : Except GrammarError β} {checked_next : α → Checked γ}
    {next : β → Except GrammarError δ} (first : Follows relates checked attempt)
    (second : ∀ value result, relates value result → attempt = .ok result →
      Follows relates_next (checked_next value) (next result)) :
    Follows relates_next (checked >>= checked_next) (attempt >>= next) := by
  cases attempt with
  | ok result =>
      rcases first with ⟨value, rfl, related⟩
      rw [pure_bind]
      exact second value result related rfl
  | error error =>
      rw [show checked = throw error from first]
      rfl

/-- A step that always gives a result in the one reader, in front of more steps in the other. -/
theorem bind_ok {checked : Checked α} {result : β} {checked_next : α → Checked γ}
    {attempt : Except GrammarError δ} (first : Follows relates checked (.ok result))
    (second : ∀ value, relates value result →
      Follows relates_next (checked_next value) attempt) :
    Follows relates_next (checked >>= checked_next) attempt := by
  rcases first with ⟨value, rfl, related⟩
  rw [pure_bind]
  exact second value related

theorem run_eq {checked : Checked α} {attempt : Except GrammarError α}
    (follows : Follows Eq checked attempt) : checked.run = .ok attempt := by
  cases attempt with
  | ok result =>
      rcases follows with ⟨value, rfl, rfl⟩
      rfl
  | error error =>
      rw [show checked = throw error from follows]
      rfl

end Follows

end Following

section Pieces

variable {token : Token} {found : List Lexeme} {start line : Nat}

theorem exists_pieces_of_mem_placed (mem : token ∈ placed start line found) :
    ∃ front back, joined found = front ++ (token.text.toList ++ back) ∧
      token.start = start + byteLength front ∧
      token.stop = token.start + byteLength token.text.toList ∧
      token.line = line + front.count '\n' := by
  induction found generalizing start line with
  | nil => cases mem
  | cons first found ih =>
      rcases List.mem_cons.1 mem with rfl | mem
      · exact ⟨[], joined found, by simp [joined_cons], rfl, by simp, rfl⟩
      · rcases ih mem with ⟨front, back, joined_eq, start_eq, stop_eq, line_eq⟩
        refine ⟨first.text ++ front, back, ?_, ?_, stop_eq, ?_⟩
        · rw [joined_cons, joined_eq, List.append_assoc]
        · rw [start_eq, byteLength_append, Nat.add_assoc]
        · rw [line_eq, List.count_append, Nat.add_assoc]

/-- A token stands in the text at the bytes that it covers, and its line is that of its start. -/
theorem exists_pieces_of_mem_tokens {source : String} (mem : token ∈ tokens source) :
    ∃ front back, source.toList = front ++ (token.text.toList ++ back) ∧
      token.start = byteLength front ∧
      token.stop = token.start + byteLength token.text.toList ∧
      token.line = front.count '\n' + 1 := by
  rcases exists_pieces_of_mem_placed (mem_tokens.1 mem).1 with
    ⟨front, back, joined_eq, start_eq, stop_eq, line_eq⟩
  rw [joined_foldr_joinGarbage, joined, text_lexemes] at joined_eq
  exact ⟨front, back, joined_eq, by omega, stop_eq, by omega⟩

theorem slice_append (front piece back : List Char) :
    slice (front ++ (piece ++ back)) (byteLength front) (byteLength front + byteLength piece) =
      pure (String.ofList piece) := by
  simp [slice, cutBytes_append]

example : slice ['é', 'a'] 2 3 = pure "a" ∧ slice ['é', 'a'] 1 3 = crash .insideCharacter :=
  ⟨rfl, rfl⟩

end Pieces

/-- A source text with the spans of its tokens. -/
def scanOf (source : String) : Scan where
  source := source.toList
  spans := (tokens source).map Token.span

/-- Whether a cursor stands in front of the tokens from a position on. -/
structure StandsAt (source : String) (position : Nat) (cursor : Cursor) : Prop where
  inside : position ≤ (tokens source).length
  eq : cursor = cursorAt source position

section Positions

variable {source : String} {position count : Nat} {kind : TokenKind}

@[simp]
theorem cursorAt_advance (source : String) (position count : Nat) :
    (cursorAt source position).advance count = cursorAt source (position + count) := by
  simp [cursorAt, Cursor.advance]

@[simp]
theorem cursorAt_kindAt? (source : String) (position distance : Nat) :
    (cursorAt source position).kindAt? distance =
      (scanOf source).kindAt? (position + distance) := by
  simp [cursorAt, scanOf, Cursor.kindAt?, Scan.kindAt?, Function.comp_def, Token.span]

@[simp]
theorem cursorAt_kind? (source : String) (position : Nat) :
    (cursorAt source position).kind? = (scanOf source).kindAt? position :=
  cursorAt_kindAt? source position 0

@[simp]
theorem cursorAt_isAt (source : String) (position : Nat) (kind : TokenKind) :
    (cursorAt source position).isAt kind = (scanOf source).isAt position kind := by
  simp [Cursor.isAt, Scan.isAt]

@[simp]
theorem cursorAt_endsAlternative (source : String) (position : Nat) :
    (cursorAt source position).endsAlternative = (scanOf source).endsAlternative position := by
  simp [Cursor.endsAlternative, Scan.endsAlternative]

@[simp]
theorem cursorAt_length (source : String) (position : Nat) :
    (cursorAt source position).tokens.length = (scanOf source).remaining position := by
  simp [cursorAt, scanOf, Scan.remaining]

@[simp]
theorem cursorAt_isEmpty (source : String) (position : Nat) :
    (cursorAt source position).tokens.isEmpty = (scanOf source).isEnd position := by
  rw [Bool.eq_iff_iff]
  simp [cursorAt, scanOf, Scan.isEnd]

theorem lt_of_kindAt? (here : (scanOf source).kindAt? position = some kind) :
    position < (tokens source).length := by
  rcases Option.map_eq_some_iff.1 here with ⟨span, found, _⟩
  simpa [scanOf] using (List.getElem?_eq_some_iff.1 found).1

theorem lt_of_isAt (here : (scanOf source).isAt position kind) :
    position < (tokens source).length :=
  lt_of_kindAt? (of_decide_eq_true here)

theorem moveTo_eq (inside : position ≤ (tokens source).length) :
    (scanOf source).moveTo position = pure position := by
  simp [Scan.moveTo, scanOf, inside]

theorem follows_standsAt (inside : position ≤ (tokens source).length) :
    Follows (StandsAt source) (pure position) (.ok (cursorAt source position)) :=
  .ok ⟨inside, rfl⟩

@[simp]
theorem textAt_eq (source : String) (position distance : Nat) :
    (scanOf source).textAt (position + distance) =
      pure ((cursorAt source position).textAt distance) := by
  simp only [Scan.textAt, scanOf, Cursor.textAt, cursorAt, List.getElem?_map, List.getElem?_drop]
  cases found : (tokens source)[position + distance]? with
  | none => rfl
  | some token =>
      rcases exists_pieces_of_mem_tokens (List.mem_of_getElem? found) with
        ⟨front, back, source_eq, start_eq, stop_eq, _⟩
      simp only [Option.map_some, Option.getD_some, Token.span]
      rw [source_eq, stop_eq, start_eq, slice_append, String.ofList_toList]

@[simp]
theorem textAt_zero_eq (source : String) (position : Nat) :
    (scanOf source).textAt position = pure (cursorAt source position).text :=
  textAt_eq source position 0

@[simp]
theorem isAtWord_eq (source : String) (position : Nat) (word : String) :
    (scanOf source).isAtWord position word = pure ((cursorAt source position).isAtWord word) := by
  simp [Scan.isAtWord, Cursor.isAtWord]

@[simp]
theorem isAtOptions_eq (source : String) (position : Nat) :
    (scanOf source).isAtOptions position = pure (cursorAt source position).isAtOptions := by
  simp [Scan.isAtOptions, Cursor.isAtOptions]

@[simp]
theorem line_eq (source : String) (position : Nat) :
    (scanOf source).line position = pure (cursorAt source position).line := by
  have front_eq {front back : List Char} (source_eq : source.toList = front ++ back) :
      slice source.toList 0 (byteLength front) = pure (String.ofList front) := by
    have piece := slice_append [] front back
    rw [List.nil_append] at piece
    rw [source_eq]
    simpa [byteLength] using piece
  simp only [Scan.line, scanOf, Cursor.line, cursorAt, List.getElem?_map, List.head?_drop]
  cases found : (tokens source)[position]? with
  | none =>
      simp [front_eq (List.append_nil _).symm, lastLine]
  | some token =>
      rcases exists_pieces_of_mem_tokens (List.mem_of_getElem? found) with
        ⟨front, back, source_eq, start_eq, stop_eq, line_eq⟩
      simp [Token.span, start_eq, front_eq source_eq, line_eq]

theorem fail_follows {α β : Type} (relates : α → β → Prop) (source : String) (position : Nat)
    (fault : Fault) :
    Follows relates ((scanOf source).fail position fault)
      ((cursorAt source position).fail fault) := by
  simp [Scan.fail, Cursor.fail, Follows]

theorem skip_follows (inside : position ≤ (tokens source).length) (kind : TokenKind) :
    Follows (StandsAt source) ((scanOf source).skip position kind)
      (.ok ((cursorAt source position).skip kind)) := by
  unfold Scan.skip Cursor.skip
  simp only [cursorAt_isAt, cursorAt_advance]
  split
  · next here =>
      rw [moveTo_eq (lt_of_isAt here)]
      exact follows_standsAt (lt_of_isAt here)
  · exact follows_standsAt inside

theorem expect_follows (source : String) (position : Nat) (kind : TokenKind) (what : String) :
    Follows (Paired (StandsAt source)) ((scanOf source).expect position kind what)
      ((cursorAt source position).expect kind what) := by
  unfold Scan.expect Cursor.expect
  simp only [cursorAt_isAt, cursorAt_advance, textAt_zero_eq, pure_bind]
  split
  · next here =>
      rw [moveTo_eq (lt_of_isAt here)]
      exact .ok ⟨lt_of_isAt here, rfl⟩
  · split
    · next ended =>
        rw [← cursorAt_isEmpty] at ended
        rw [List.isEmpty_iff.1 ended]
        exact fail_follows _ source position _
    · next more =>
        rw [← cursorAt_isEmpty] at more
        cases found : (cursorAt source position).tokens with
        | nil => simp [found] at more
        | cons token rest =>
            have text_eq : (cursorAt source position).text = token.text := by
              simp [Cursor.text, Cursor.textAt, found]
            rw [text_eq]
            exact fail_follows _ source position _

theorem pass_follows (source : String) (position : Nat) (kind : TokenKind) (what : String) :
    Follows (StandsAt source) ((scanOf source).pass position kind what)
      ((cursorAt source position).pass kind what) := by
  have expected := expect_follows source position kind what
  unfold Scan.pass Cursor.pass
  cases attempt : (cursorAt source position).expect kind what with
  | ok result =>
      rw [attempt] at expected
      rcases expected with ⟨⟨text, next⟩, checked_eq, ⟨stands⟩⟩
      rw [checked_eq]
      exact .ok stands
  | error error =>
      rw [attempt] at expected
      rw [show (scanOf source).expect position kind what = throw error from expected]
      rfl

theorem remaining_eq (source : String) (position : Nat) :
    (scanOf source).remaining position = (tokens source).length - position := by
  simp [Scan.remaining, scanOf]

theorem isEnd_iff : (scanOf source).isEnd position ↔ ¬ position < (tokens source).length := by
  simp [Scan.isEnd, scanOf]

theorem finish_eq {α : Type} (result : α) (ended : ¬ position < (tokens source).length) :
    (scanOf source).finish position result = pure result := by
  rw [Scan.finish, if_pos (isEnd_iff.2 ended)]

/-- The token at a position inside the list, in front of those at the next one. -/
theorem exists_token_at (more : position < (tokens source).length) :
    ∃ token, (cursorAt source position).tokens = token :: (cursorAt source (position + 1)).tokens ∧
      (scanOf source).kindAt? position = some token.kind := by
  refine ⟨(tokens source)[position], List.drop_eq_getElem_cons more, ?_⟩
  simp [Scan.kindAt?, scanOf, more, Token.span]

theorem tokens_eq_nil (ended : ¬ position < (tokens source).length) :
    (cursorAt source position).tokens = [] :=
  List.drop_eq_nil_of_le (by omega)

end Positions

section Skipping

variable {source : String} {position : Nat}

theorem pastSemicolon_follows {turns : Nat} (depth : Nat)
    (enough : (tokens source).length ≤ position + turns)
    (inside : position ≤ (tokens source).length) :
    Follows (StandsAt source) ((scanOf source).pastSemicolon turns depth position)
      (.ok { cursorAt source position with
        tokens := pastSemicolon depth (cursorAt source position).tokens }) := by
  induction turns generalizing depth position with
  | zero =>
      have ended : ¬ position < (tokens source).length := by omega
      rw [Scan.pastSemicolon, finish_eq _ ended, tokens_eq_nil ended, pastSemicolon,
        ← tokens_eq_nil ended]
      exact follows_standsAt inside
  | succ turns ih =>
      rw [Scan.pastSemicolon]
      by_cases more : position < (tokens source).length
      · rcases exists_token_at more with ⟨token, tokens_eq, kind_eq⟩
        have behind (depth : Nat) := ih depth (by omega) more
        rw [if_neg (by rw [isEnd_iff]; omega), moveTo_eq more, pure_bind, kind_eq, tokens_eq,
          pastSemicolon]
        cases token.kind with
        | semicolon =>
            dsimp only
            split
            · exact follows_standsAt more
            · exact behind depth
        | _ => exact behind _
      · rw [if_pos (isEnd_iff.2 more), tokens_eq_nil more, pastSemicolon, ← tokens_eq_nil more]
        exact follows_standsAt inside

theorem skipPastSemicolon_follows (inside : position ≤ (tokens source).length) :
    Follows (StandsAt source) ((scanOf source).skipPastSemicolon position)
      (.ok (cursorAt source position).skipPastSemicolon) := by
  apply pastSemicolon_follows 0 ?_ inside
  rw [remaining_eq]
  omega

/-- Strictly below in the order of cursors is strictly behind. -/
theorem lt_of_cursorAt_lt {behind : Nat} (lt : cursorAt source behind < cursorAt source position) :
    position < behind := by
  have length_lt := Cursor.length_lt_of_lt lt
  simp only [cursorAt_length, remaining_eq] at length_lt
  omega

theorem fail_follows_at_end (relates : Nat → Cursor → Prop) (fault : Fault)
    (ended : ¬ position < (tokens source).length) :
    Follows relates ((scanOf source).fail position fault)
      (.error (.malformed (lastLine source) fault)) := by
  have line_eq : (cursorAt source position).line = lastLine source := by
    rw [Cursor.line, tokens_eq_nil ended]
    rfl
  rw [← line_eq]
  exact fail_follows _ source position fault

theorem pastGreater_follows {turns : Nat} (enough : (tokens source).length ≤ position + turns) :
    Follows (StandsAt source) ((scanOf source).pastGreater turns position)
      (match pastGreater? (cursorAt source position).tokens with
      | some tokens => .ok { cursorAt source position with tokens }
      | none => .error (.malformed (lastLine source) .unclosedOptions)) := by
  induction turns generalizing position with
  | zero =>
      have ended : ¬ position < (tokens source).length := by omega
      rw [Scan.pastGreater, if_pos (isEnd_iff.2 ended), tokens_eq_nil ended, pastGreater?]
      exact fail_follows_at_end _ _ ended
  | succ turns ih =>
      rw [Scan.pastGreater]
      by_cases more : position < (tokens source).length
      · rcases exists_token_at more with ⟨token, tokens_eq, kind_eq⟩
        rw [tokens_eq, pastGreater?, moveTo_eq more, pure_bind,
          if_neg (c := (scanOf source).isEnd position = true) (by rw [isEnd_iff]; omega)]
        simp only [Scan.isAt, kind_eq, Option.some.injEq, decide_eq_true_eq]
        split
        · exact follows_standsAt more
        · exact ih (by omega)
      · have elsewhere : ¬ (scanOf source).isAt position .greater :=
          fun here => more (lt_of_isAt here)
        rw [if_neg elsewhere, if_pos (isEnd_iff.2 more), tokens_eq_nil more, pastGreater?]
        exact fail_follows_at_end _ _ more

theorem skipElementOptions_follows (inside : position ≤ (tokens source).length) :
    Follows (StandsAt source) ((scanOf source).skipElementOptions position)
      (cursorAt source position).skipElementOptions := by
  unfold Scan.skipElementOptions Cursor.skipElementOptions
  rw [cursorAt_isAt, cursorAt_advance]
  split
  · next here =>
      have enough : (tokens source).length ≤
          position + 1 + (scanOf source).remaining (position + 1) := by
        rw [remaining_eq]
        omega
      have past := pastGreater_follows enough
      rw [moveTo_eq (lt_of_isAt here), pure_bind]
      cases found : pastGreater? (cursorAt source (position + 1)).tokens with
      | some tokens =>
          rw [found] at past
          exact past
      | none =>
          rw [found] at past
          exact past
  · exact follows_standsAt inside

theorem skipElementLabel_follows (inside : position ≤ (tokens source).length) :
    Follows (StandsAt source) ((scanOf source).skipElementLabel position)
      (.ok (cursorAt source position).skipElementLabel) := by
  unfold Scan.skipElementLabel Cursor.skipElementLabel
  simp only [cursorAt_isAt, cursorAt_kindAt?, cursorAt_advance]
  split
  · next here =>
      have next_lt : position + 1 < (tokens source).length :=
        here.2.elim lt_of_kindAt? lt_of_kindAt?
      rw [moveTo_eq next_lt]
      exact follows_standsAt next_lt
  · exact follows_standsAt inside

theorem skipAlternativeLabel_follows (inside : position ≤ (tokens source).length) :
    Follows (StandsAt source) ((scanOf source).skipAlternativeLabel position)
      (cursorAt source position).skipAlternativeLabel := by
  unfold Scan.skipAlternativeLabel Cursor.skipAlternativeLabel
  rw [cursorAt_isAt, cursorAt_advance]
  split
  · next here =>
      rw [moveTo_eq (lt_of_isAt here), pure_bind]
      exact pass_follows source (position + 1) _ _
  · exact follows_standsAt inside

theorem lt_of_isAtOptions (options : (cursorAt source position).isAtOptions) :
    position + 1 < (tokens source).length := by
  simp only [Cursor.isAtOptions, Bool.and_eq_true, decide_eq_true_eq, cursorAt_kindAt?] at options
  exact lt_of_kindAt? options.2

theorem lt_of_isAtWord {word : String} (here : (cursorAt source position).isAtWord word) :
    position < (tokens source).length := by
  simp only [Cursor.isAtWord, Bool.and_eq_true, cursorAt_isAt] at here
  exact lt_of_isAt here.1

theorem skipBlockOptions_follows (inside : position ≤ (tokens source).length) :
    Follows (StandsAt source) ((scanOf source).skipBlockOptions position)
      (cursorAt source position).skipBlockOptions := by
  unfold Scan.skipBlockOptions Cursor.skipBlockOptions
  rw [isAtOptions_eq, pure_bind, cursorAt_advance]
  split
  · next options =>
      rw [moveTo_eq (lt_of_isAtOptions options), pure_bind]
      exact pass_follows source (position + 2) _ _
  · exact follows_standsAt inside

theorem repetition_follows (inside : position ≤ (tokens source).length) :
    Follows (Paired (StandsAt source)) ((scanOf source).repetition position)
      (.ok (cursorAt source position).repetition) := by
  have marked {kind : TokenKind} (mark : Repetition)
      (here : (scanOf source).kindAt? position = some kind) :
      Follows (Paired (StandsAt source))
        (do
          let next ← (scanOf source).moveTo (position + 1)
          return (mark, ← (scanOf source).skip next .question))
        (.ok (mark, (cursorAt source (position + 1)).skip .question)) := by
    rw [moveTo_eq (lt_of_kindAt? here), pure_bind]
    refine .bind_ok (skip_follows (lt_of_kindAt? here) .question) ?_
    exact fun next stands => .ok ⟨stands⟩
  unfold Scan.repetition Cursor.repetition
  simp only [cursorAt_kind?, cursorAt_advance]
  cases here : (scanOf source).kindAt? position with
  | none => exact .ok ⟨inside, rfl⟩
  | some kind =>
      cases kind with
      | question => exact marked .optional here
      | star => exact marked .star here
      | plus => exact marked .plus here
      | _ => exact .ok ⟨⟨inside, rfl⟩⟩

end Skipping

section Clauses

variable {source : String} {position : Nat}

/-- Behind a token that is passed the reader goes on from a later position. -/
theorem pass_bind_follows {α β : Type} {relates : α → β → Prop} {kind : TokenKind} {what : String}
    {checked_next : Nat → Checked α} {next : Cursor → Except GrammarError β}
    (behind_follows : ∀ behind, position < behind → behind ≤ (tokens source).length →
      Follows relates (checked_next behind) (next (cursorAt source behind))) :
    Follows relates ((scanOf source).pass position kind what >>= checked_next)
      ((cursorAt source position).pass kind what >>= next) := by
  refine .bind (pass_follows source position kind what) ?_
  rintro behind _ ⟨inside, rfl⟩ passed
  exact behind_follows behind (lt_of_cursorAt_lt (Cursor.pass_lt passed)) inside

theorem passNamedAction_follows (source : String) (position : Nat) :
    Follows (StandsAt source) ((scanOf source).passNamedAction position)
      (cursorAt source position).passNamedAction := by
  unfold Scan.passNamedAction Cursor.passNamedAction
  refine pass_bind_follows fun marked _ _ => ?_
  refine pass_bind_follows fun behind _ _ => ?_
  simp only [cursorAt_isAt, cursorAt_advance]
  split
  · next here =>
      rw [moveTo_eq (lt_of_isAt here), pure_bind]
      exact pass_bind_follows fun named _ _ => pass_follows source named _ _
  · exact pass_follows source behind _ _

theorem passExceptionNames_follows {turns : Nat}
    (enough : (tokens source).length ≤ position + turns)
    (inside : position ≤ (tokens source).length) :
    Follows (StandsAt source) ((scanOf source).passExceptionNames turns position)
      ((cursorAt source position).passExceptionNames turns) := by
  induction turns generalizing position with
  | zero =>
      rw [Scan.passExceptionNames, Cursor.passExceptionNames, finish_eq position (by omega)]
      exact follows_standsAt inside
  | succ turns ih =>
      rw [Scan.passExceptionNames, Cursor.passExceptionNames, cursorAt_isAt, cursorAt_advance]
      split
      · next here =>
          rw [moveTo_eq (lt_of_isAt here), pure_bind]
          exact pass_bind_follows fun behind moved behind_inside => ih (by omega) behind_inside
      · exact follows_standsAt inside

theorem passPrelude_follows {turns : Nat} (enough : (tokens source).length ≤ position + turns)
    (inside : position ≤ (tokens source).length) :
    Follows (StandsAt source) ((scanOf source).passPrelude turns position)
      ((cursorAt source position).passPrelude turns) := by
  induction turns generalizing position with
  | zero =>
      rw [Scan.passPrelude, Cursor.passPrelude, finish_eq position (by omega)]
      exact follows_standsAt inside
  | succ turns ih =>
      simp only [Scan.passPrelude, Cursor.passPrelude, cursorAt_isAt, cursorAt_advance,
        isAtWord_eq, isAtOptions_eq, pure_bind]
      split
      · next here =>
          rw [moveTo_eq (lt_of_isAt here), pure_bind]
          exact ih (by omega) (lt_of_isAt here)
      split
      · next word =>
          have more : position < (tokens source).length := by
            rcases Bool.or_eq_true_iff.1 word with word | word
            · exact lt_of_isAtWord word
            · exact lt_of_isAtWord word
          rw [moveTo_eq more, pure_bind]
          exact pass_bind_follows fun behind moved behind_inside => ih (by omega) behind_inside
      split
      · next word =>
          rw [moveTo_eq (lt_of_isAtWord word), pure_bind]
          refine pass_bind_follows fun behind moved behind_inside => ?_
          rw [cursorAt_length]
          refine .bind (passExceptionNames_follows (by rw [remaining_eq]; omega)
            behind_inside) ?_
          rintro ended _ ⟨ended_inside, rfl⟩ names
          have ended_le := Cursor.length_le_of_le (Cursor.passExceptionNames_le names)
          simp only [cursorAt_length, remaining_eq] at ended_le
          exact ih (by omega) ended_inside
      split
      · next options =>
          have next_lt := lt_of_isAtOptions options
          rw [moveTo_eq next_lt, pure_bind]
          exact ih (by omega) next_lt
      split
      · next here =>
          refine .bind (passNamedAction_follows source position) ?_
          rintro behind _ ⟨behind_inside, rfl⟩ passed
          have position_lt := lt_of_cursorAt_lt (Cursor.passNamedAction_lt passed)
          exact ih (by omega) behind_inside
      · exact follows_standsAt inside

theorem passHandlers_follows {turns : Nat} (enough : (tokens source).length ≤ position + turns)
    (inside : position ≤ (tokens source).length) :
    Follows (StandsAt source) ((scanOf source).passHandlers turns position)
      ((cursorAt source position).passHandlers turns) := by
  induction turns generalizing position with
  | zero =>
      rw [Scan.passHandlers, Cursor.passHandlers, finish_eq position (by omega)]
      exact follows_standsAt inside
  | succ turns ih =>
      simp only [Scan.passHandlers, Cursor.passHandlers, cursorAt_advance, isAtWord_eq, pure_bind]
      split
      · next word =>
          rw [moveTo_eq (lt_of_isAtWord word), pure_bind]
          refine pass_bind_follows fun behind moved _ => ?_
          exact pass_bind_follows fun ended further ended_inside => ih (by omega) ended_inside
      split
      · next word =>
          rw [moveTo_eq (lt_of_isAtWord word), pure_bind]
          exact pass_bind_follows fun behind moved behind_inside => ih (by omega) behind_inside
      · exact follows_standsAt inside

end Clauses

section Groups

variable {source : String} {position : Nat}

/-- With a parenthesis open the count is never taken below zero. -/
theorem closingPosition?_succ (depth position : Nat) (found : List Token) :
    closingPosition? (depth + 1) position (found.map Token.span) =
      pure ((closingParen? (depth + 1) found).map (position + ·)) := by
  induction found generalizing depth position with
  | nil => rfl
  | cons token found ih =>
      have behind (depth : Nat) :
          closingPosition? (depth + 1) (position + 1) (found.map Token.span) =
            pure (((closingParen? (depth + 1) found).map (· + 1)).map (position + ·)) := by
        rw [ih, Option.map_map]
        simp [Function.comp_def, Nat.add_assoc, Nat.add_comm 1]
      rw [List.map_cons]
      cases kind_eq : token.kind with
      | leftParen =>
          rw [closingParen?_cons_opening _ _ kind_eq, ← behind]
          simp [closingPosition?, Token.span, kind_eq]
      | rightParen =>
          cases depth with
          | zero =>
              rw [closingParen?_cons_last _ kind_eq]
              simp [closingPosition?, Token.span, kind_eq]
          | succ depth =>
              rw [closingParen?_cons_close _ _ kind_eq, ← behind]
              simp [closingPosition?, Token.span, kind_eq]
      | _ =>
          rw [closingParen?_cons _ _ (by rw [kind_eq]; rfl), ← behind]
          simp [closingPosition?, Token.span, kind_eq]

theorem closingPosition?_eq (here : (scanOf source).isAt position .leftParen) :
    closingPosition? 0 position ((scanOf source).spans.drop position) =
      pure ((closingParen? 0 (cursorAt source position).tokens).map (position + ·)) := by
  rcases exists_token_at (lt_of_isAt here) with ⟨token, tokens_eq, kind_eq⟩
  have opens : token.kind = .leftParen := by
    simp only [Scan.isAt, kind_eq, decide_eq_true_eq] at here
    exact Option.some.inj here
  have spans_eq : (scanOf source).spans.drop position =
      token.span :: (cursorAt source (position + 1)).tokens.map Token.span := by
    rw [← List.map_cons, ← tokens_eq]
    exact List.map_drop.symm
  rw [spans_eq, tokens_eq, closingParen?_cons_opening _ _ opens]
  simp only [closingPosition?, Token.span, opens]
  rw [closingPosition?_succ, Option.map_map]
  simp [Function.comp_def, Nat.add_assoc, Nat.add_comm 1]

/-- The count starts at zero, so it needs the parenthesis that opens the group. -/
example : closingPosition? 0 0 [⟨.rightParen, 0, 1⟩] = crash .underflow :=
  rfl

theorem closingParen?_lt {depth count : Nat} {found : List Token}
    (closed : closingParen? depth found = some count) : count < found.length := by
  induction found generalizing depth count with
  | nil => cases closed
  | cons token found ih =>
      have behind {depth : Nat}
          (closed : (closingParen? depth found).map (· + 1) = some count) :
          count < (token :: found).length := by
        rcases Option.map_eq_some_iff.1 closed with ⟨inner, inner_closed, rfl⟩
        exact Nat.succ_lt_succ (ih inner_closed)
      rw [closingParen?] at closed
      split at closed
      · exact behind closed
      · split at closed
        · cases closed
          exact Nat.zero_lt_succ _
        · exact behind closed
      · exact behind closed

/-- The parenthesis that is found is in the list of tokens. -/
theorem lt_of_closingParen? {closing : Nat}
    (closed : closingParen? 0 (cursorAt source position).tokens = some closing) :
    position + closing < (tokens source).length := by
  have closing_lt := closingParen?_lt closed
  rw [cursorAt_length, remaining_eq] at closing_lt
  omega

theorem joinedText_eq {last count : Nat} (last_eq : last + 1 = position + count)
    (inside : last < (tokens source).length) :
    (scanOf source).joinedText position last =
      pure (joinedText (cursorAt source position).tokens count) := by
  have texts_eq : (List.range' position count).map (fun index => (cursorAt source index).text) =
      ((cursorAt source position).tokens.take count).map Token.text := by
    apply List.ext_getElem
    · simp only [List.length_map, List.length_range', List.length_take, cursorAt_length,
        remaining_eq]
      omega
    · intro index index_lt _
      simp only [List.length_map, List.length_range'] at index_lt
      have index_inside : position + index < (tokens source).length := by omega
      simp [cursorAt, Cursor.text, Cursor.textAt, index_inside]
  have text_at : (scanOf source).textAt = fun index => pure (cursorAt source index).text :=
    funext fun index => textAt_zero_eq source index
  have in_range : last < (scanOf source).spans.length := by simpa [scanOf] using inside
  rw [Scan.joinedText, if_pos in_range, text_at, List.mapM_pure, pure_bind, last_eq,
    Nat.add_sub_cancel_left, texts_eq]
  rfl

end Groups

end VisiblyPushdown.Source
