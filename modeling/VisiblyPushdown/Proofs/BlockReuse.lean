import VisiblyPushdown.Proofs.LegibleNames
import VisiblyPushdown.Proofs.Rereading

/-!
# Reuse of blocks

A block is passed over when the joined text of its tokens is that of a block that was met before,
and then it stands for the rule of that block. `Comes` says where the reader comes to, in sources
with faults, too. Wherever it comes to, a block that is known was opened by the reader before, and
it has been read to its end, or the reader is still inside it. So a block with the same tokens as
the first one stands for what would be read from it, when no element options hold a parenthesis.
Both conditions matter: the joined text does not tell where a token ends, and the end of the block
is found by counting the parentheses in options.
-/

namespace VisiblyPushdown.Source

/-- The kinds and the texts of the tokens of a block that closes `closing` tokens further on. -/
def Cursor.block (cursor : Cursor) (closing : Nat) : List Lexeme :=
  (cursor.tokens.take (closing + 1)).map Token.lexeme

namespace Draft

/-- Reads the block that comes next, up to the parenthesis that closes it. -/
def readInside (rule : String) (calls : Nat) (draft : Draft) (cursor : Cursor) :
    Except GrammarError (List Alternative × Draft × Cursor) := do
  let cursor ← cursor.advance.skipBlockOptions
  let (alternatives, draft, cursor) ← readAlternatives rule calls draft cursor
  let cursor ← cursor.pass .rightParen "`)`"
  return (alternatives, draft, cursor)

/-- Whether the block that comes next is met for the first time and gets a name. -/
structure OpensBlock (draft : Draft) (cursor : Cursor) (closing : Nat) (name : String)
    (opened : Draft) : Prop where
  here : cursor.isAt .leftParen
  closed : closingParen? 0 cursor.tokens = some closing
  unknown : draft.blocks.lookup (joinedText cursor.tokens (closing + 1)) = none
  opened_eq : draft.openBlock (joinedText cursor.tokens (closing + 1)) = (name, opened)

/-- Whether the block that comes next has the text of a block with that name. -/
structure ReusesBlock (draft : Draft) (cursor : Cursor) (closing : Nat) (name : String) : Prop where
  here : cursor.isAt .leftParen
  closed : closingParen? 0 cursor.tokens = some closing
  known : draft.blocks.lookup (joinedText cursor.tokens (closing + 1)) = some name

variable {draft opened : Draft} {cursor : Cursor} {closing : Nat} {name : String}

theorem ReusesBlock.readBlock_eq (reuses : draft.ReusesBlock cursor closing name) (rule : String)
    (calls : Nat) :
    readBlock rule (calls + 1) draft cursor =
      .ok (⟨name, .nonterminal⟩, draft, cursor.advance (closing + 1)) := by
  rw [readBlock, reuses.closed]
  simp only [reuses.known]
  rfl

theorem OpensBlock.readBlock_eq (opens : draft.OpensBlock cursor closing name opened)
    (rule : String) (calls : Nat) :
    readBlock rule (calls + 1) draft cursor = do
      let (alternatives, later, rest) ← readInside rule calls opened cursor
      return (⟨name, .nonterminal⟩, later.setRule name alternatives, rest) := by
  rw [readBlock, opens.closed]
  simp only [opens.unknown, opens.opened_eq, readInside, bind_assoc, pure_bind]

end Draft

/-- What the reader is about to read. -/
inductive Place where
  | alternatives
  | elements
  | element

/-- The place at which a part is read. -/
def Part.place : Part → Place
  | .alternatives _ => .alternatives
  | .elements _ => .elements
  | .element _ => .element

/--
Where the reader of a source text comes to, with what it knows there. It comes to the bodies of the
definitions that are not passed over, to the parts of what it reads, in their order, and into each
block that it opens.
-/
inductive Comes (source : String) : Place → Draft → Cursor → Prop
  | body {definition : Definition} {cursor : Cursor} : definition ∈ definitions source →
      ¬ definition.isPassedOver → definition.body = .ok cursor →
      Comes source .alternatives (definition.draft.openRule definition.name) cursor
  | elements {draft : Draft} {cursor first : Cursor} : Comes source .alternatives draft cursor →
      cursor.skipElementOptions = .ok first → Comes source .elements draft first
  | nextAlternative {alternative : Alternative} {draft later : Draft} {cursor behind bar : Cursor} :
      Comes source .elements draft cursor →
      Reads (.elements alternative) draft cursor later behind →
      behind.skipAlternativeLabel = .ok bar → bar.isAt .bar →
      Comes source .alternatives later bar.advance
  | element {draft : Draft} {cursor : Cursor} : Comes source .elements draft cursor →
      ¬ cursor.endsAlternative → ¬ cursor.isAt .actionBlock →
      Comes source .element draft cursor.skipElementLabel
  | nextElement {symbol : Symbol} {draft later : Draft} {cursor behind : Cursor} :
      Comes source .element draft cursor → Reads (.element symbol) draft cursor later behind →
      Comes source .elements later behind.repetition.2
  | inside {draft opened : Draft} {cursor first : Cursor} {closing : Nat} {name : String} :
      Comes source .element draft cursor → draft.OpensBlock cursor closing name opened →
      cursor.advance.skipBlockOptions = .ok first → Comes source .alternatives opened first

/-- How a block came to be known: where it was opened, and where it ends. -/
structure Origin (source : String) (block : String × String) (earlier : Draft) (place : Cursor)
    (closing : Nat) (opened : Draft) : Prop where
  comes : Comes source .element earlier place
  opens : earlier.OpensBlock place closing block.2 opened
  text_eq : joinedText place.tokens (closing + 1) = block.1

/-- Whether a block has been read to its end. -/
def IsFinished (source : String) (draft : Draft) (block : String × String) : Prop :=
  ∃ earlier place closing opened, Origin source block earlier place closing opened ∧
    ∃ first alternatives later behind rest, place.advance.skipBlockOptions = .ok first ∧
      Reads (.alternatives alternatives) opened first later behind ∧
      behind.pass .rightParen "`)`" = .ok rest ∧ later.Grows draft

/-- Whether a cursor is inside a block, as far as its options are flat. -/
def IsPending (source : String) (cursor : Cursor) (block : String × String) : Prop :=
  ∃ earlier place closing opened, Origin source block earlier place closing opened ∧
    cursor ≤ place ∧
    (flatOptions false (place.tokens.take (closing + 1)) →
      ∃ depth, Enclosed false depth cursor.tokens (place.tokens.drop closing))

section Origins

variable {source : String} {block : String × String} {part : Part} {draft later : Draft}
  {cursor rest : Cursor}

theorem IsFinished.mono (finished : IsFinished source draft block) (grows : draft.Grows later) :
    IsFinished source later block := by
  rcases finished with ⟨earlier, place, closing, opened, origin, first, alternatives, filled,
    behind, ended, skipped, reads, passed, filled_grows⟩
  exact ⟨earlier, place, closing, opened, origin, first, alternatives, filled, behind, ended,
    skipped, reads, passed, filled_grows.trans grows⟩

theorem IsPending.mono (pending : IsPending source cursor block) (rest_le : rest ≤ cursor)
    (moves : ∀ depth stop, Enclosed false depth cursor.tokens stop →
      ∃ inner, Enclosed false inner rest.tokens stop) : IsPending source rest block := by
  rcases pending with ⟨earlier, place, closing, opened, origin, below, inside⟩
  refine ⟨earlier, place, closing, opened, origin, rest_le.trans below, ?_⟩
  intro flat
  rcases inside flat with ⟨depth, enclosed⟩
  exact moves depth _ enclosed

/-- Every block that is opened while a part is read is read to its end. -/
theorem Reads.isFinished (reads : Reads part draft cursor later rest)
    (comes : Comes source part.place draft cursor) (mem : block ∈ later.blocks) :
    block ∈ draft.blocks ∨ IsFinished source later block := by
  induction reads generalizing block with
  | lastAlternative skipped _ _ _ inner => exact inner (.elements comes skipped) mem
  | moreAlternatives skipped reads labelled more others_read inner others =>
      have elements := Comes.elements comes skipped
      rcases others (.nextAlternative elements reads labelled more) mem with mem | finished
      · exact (inner elements mem).imp_right fun finished => finished.mono others_read.grows
      · exact .inr finished
  | noElements _ => exact .inl mem
  | moreElements unended no_action reads others_read inner others =>
      have element := Comes.element comes unended no_action
      rcases others (.nextElement element reads) mem with mem | finished
      · exact (inner element mem).imp_right fun finished => finished.mono others_read.grows
      · exact .inr finished
  | atom _ read =>
      rcases Draft.readAtom_eq_ok read {} with ⟨rfl, _⟩
      exact .inl (by simpa using mem)
  | knownBlock _ _ _ => exact .inl mem
  | @newBlock draft opened later cursor first behind rest closing name alternatives here closed
      unknown opened_eq skipped reads passed inner =>
      have opens : draft.OpensBlock cursor closing name opened :=
        ⟨here, closed, unknown, opened_eq⟩
      have filled_grows := later.grows_setRule name alternatives
      rcases inner (.inside comes opens skipped) mem with mem | finished
      · rw [Draft.blocks_openBlock opened_eq] at mem
        rcases List.mem_append.1 mem with mem | mem
        · exact .inl mem
        · rw [List.mem_singleton.1 mem]
          exact .inr ⟨draft, cursor, closing, opened, ⟨comes, opens, rfl⟩, first, alternatives,
            later, behind, rest, skipped, reads, passed, filled_grows⟩
      · exact .inr (finished.mono filled_grows)

/-- Items leave no block that has not been read to its end. -/
theorem isFinished_of_readItem (read : draft.readItem cursor = .ok (later, rest))
    (found : ∀ start, cursor.ruleName? = some start → ⟨draft, start⟩ ∈ definitions source)
    (finished : ∀ block ∈ draft.blocks, IsFinished source draft block)
    (mem : block ∈ later.blocks) : IsFinished source later block := by
  rcases Draft.readItem_changes read with
    ⟨_, rfl⟩ | ⟨start, alternatives, middle, behind, body, rule, untaken, _, body_eq, reads, rfl⟩
  · exact finished block mem
  · have comes : Comes source .alternatives (draft.openRule start.text) body :=
      .body (found start rule) untaken body_eq
    have filled_grows := middle.grows_setRule start.text alternatives
    rcases reads.isFinished comes mem with mem | block_finished
    · have grows := (draft.grows_openRule start.text).trans (reads.grows.trans filled_grows)
      exact (finished block mem).mono grows
    · exact block_finished.mono filled_grows

/-- In front of a definition every block that was met has been read to its end. -/
theorem isFinished_of_definitions {turns : Nat} {definition : Definition}
    {before after : List Definition}
    (found : ∀ other ∈ Draft.definitions turns draft cursor, other ∈ definitions source)
    (finished : ∀ block ∈ draft.blocks, IsFinished source draft block)
    (whole : Draft.definitions turns draft cursor = before ++ definition :: after)
    (mem : block ∈ definition.draft.blocks) : IsFinished source definition.draft block := by
  induction turns generalizing draft cursor before with
  | zero => simp [Draft.definitions] at whole
  | succ turns ih =>
      rcases Draft.definitions_eq_append whole with
        ⟨more, ⟨_, rfl, _⟩ | ⟨later, rest, others, read, _, behind⟩⟩
      · exact finished block mem
      · rw [Draft.definitions_of_ne_nil turns draft more, read] at found
        refine ih ?_ ?_ behind
        · exact fun other other_mem => found other (List.mem_append_right _ other_mem)
        · intro other other_mem
          refine isFinished_of_readItem read ?_ finished other_mem
          intro start rule
          exact found _ (List.mem_append_left _ (by simp [rule]))

theorem isFinished_of_mem_definitions {definition : Definition}
    (mem : definition ∈ definitions source)
    (block_mem : block ∈ definition.draft.blocks) : IsFinished source definition.draft block := by
  unfold definitions at mem
  split at mem
  · next draft cursor header =>
      rcases List.append_of_mem mem with ⟨before, after, whole⟩
      refine isFinished_of_definitions ?_ ?_ whole block_mem
      · intro other other_mem
        simpa [definitions, header] using other_mem
      · rcases Draft.readHeader_eq_ok header with ⟨name, rfl⟩
        simp
  · cases mem

/-- A block that is known has been read to its end, or the reader is still inside it. -/
theorem Comes.origin {place : Place} (comes : Comes source place draft cursor)
    (mem : block ∈ draft.blocks) :
    IsFinished source draft block ∨ IsPending source cursor block := by
  induction comes with
  | @body definition cursor found untaken body_eq =>
      have finished := isFinished_of_mem_definitions found mem
      exact .inl (finished.mono (definition.draft.grows_openRule definition.name))
  | elements comes skipped ih =>
      refine (ih mem).imp_right fun pending =>
        pending.mono (Cursor.skipElementOptions_le skipped) ?_
      exact fun depth _ enclosed => ⟨depth, enclosed.skipElementOptions skipped⟩
  | nextAlternative comes reads labelled more ih =>
      rcases reads.isFinished comes mem with mem | finished
      · refine (ih mem).imp (fun finished => finished.mono reads.grows) ?_
        intro pending
        have bar_le := (Cursor.advance_le _ 1).trans
          ((Cursor.skipAlternativeLabel_le labelled).trans reads.le)
        refine pending.mono bar_le fun depth _ enclosed => ⟨depth, ?_⟩
        exact ((reads.enclosed enclosed).skipAlternativeLabel labelled).advance
          (of_decide_eq_true more) rfl
      · exact .inl finished
  | element comes unended no_action ih =>
      refine (ih mem).imp_right fun pending => pending.mono (Cursor.skipElementLabel_le _) ?_
      exact fun depth _ enclosed => ⟨depth, enclosed.skipElementLabel⟩
  | nextElement comes reads ih =>
      rcases reads.isFinished comes mem with mem | finished
      · refine (ih mem).imp (fun finished => finished.mono reads.grows) ?_
        intro pending
        refine pending.mono ((Cursor.repetition_le _).trans reads.le) ?_
        exact fun depth _ enclosed => ⟨depth, (reads.enclosed enclosed).repetition⟩
      · exact .inl finished
  | @inside draft opened cursor first closing name comes opens skipped ih =>
      have first_le := (Cursor.inside_block_lt opens.here skipped).le
      have grows := Draft.grows_openBlock opens.opened_eq
      rw [Draft.blocks_openBlock opens.opened_eq] at mem
      rcases List.mem_append.1 mem with mem | mem
      · refine (ih mem).imp (fun finished => finished.mono grows) ?_
        intro pending
        refine pending.mono first_le fun depth _ enclosed => ⟨depth + 1, ?_⟩
        exact (enclosed.advance_leftParen opens.here).skipBlockOptions skipped
      · rw [List.mem_singleton.1 mem]
        refine .inr ⟨draft, cursor, closing, opened, ⟨comes, opens, rfl⟩, first_le, ?_⟩
        intro flat
        exact ⟨0, (enclosed_of_block opens.here opens.closed flat).skipBlockOptions skipped⟩

end Origins

/-- Tokens that stay apart are known from their joined text. -/
theorem eq_of_joined_eq {found others : List Lexeme} (apart : StayApart found)
    (others_apart : StayApart others) (joined_eq : joined found = joined others) :
    found = others := by
  have ends_all : EndsAll [] := by
    intro kind char mem
    cases mem
  have found_eq := lexemes_joined_append apart ends_all
  have others_eq := lexemes_joined_append others_apart ends_all
  rw [joined_eq, others_eq] at found_eq
  exact (List.append_cancel_right found_eq).symm

section Blocks

variable {source name : String} {draft earlier opened : Draft} {cursor place : Cursor}
  {closing length : Nat}

/-- What is read from a block that comes next, when there are enough calls to spend. -/
theorem Reads.readInside_eq {alternatives : List Alternative} {later : Draft}
    {first behind rest : Cursor}
    (reads : Reads (.alternatives alternatives) opened first later behind)
    (here : cursor.isAt .leftParen) (skipped : cursor.advance.skipBlockOptions = .ok first)
    (passed : behind.pass .rightParen "`)`" = .ok rest) (rule : String) {calls : Nat}
    (enough : 3 * cursor.tokens.length ≤ calls) :
    opened.readInside rule calls cursor = .ok (alternatives, later, rest) := by
  have first_length := Cursor.length_lt_of_lt (Cursor.inside_block_lt here skipped)
  refine bind_eq_ok.2 ⟨first, skipped, bind_eq_ok.2 ⟨_, reads.isReadBy rule calls (by omega), ?_⟩⟩
  exact bind_eq_ok.2 ⟨rest, passed, rfl⟩

/-- Blocks with the same tokens are equally long. -/
theorem closing_eq_of_block_eq (same : place.block length = cursor.block closing)
    (enclosed : Enclosed false 0 place.advance.tokens (place.tokens.drop length))
    (twin_enclosed : Enclosed false 0 cursor.advance.tokens (cursor.tokens.drop closing)) :
    length = closing := by
  have in_range {tokens : List Token} {count : Nat} {others : List Token}
      (enclosed : Enclosed false 0 others (tokens.drop count)) : count < tokens.length := by
    rcases enclosed.exists_stop with ⟨token, rest, drop_eq, _⟩
    have shorter := congrArg List.length drop_eq
    simp only [List.length_drop, List.length_cons] at shorter
    omega
  have lengths := congrArg List.length same
  simp only [Cursor.block, List.length_map, List.length_take] at lengths
  have first := in_range enclosed
  have second := in_range twin_enclosed
  omega

/-- The reader is inside no block with the tokens of the one that comes next. -/
theorem not_enclosed_of_le {depth : Nat} (below : cursor ≤ place) (here : cursor.isAt .leftParen)
    (closed : closingParen? 0 cursor.tokens = some closing)
    (enclosed : Enclosed false depth cursor.tokens (place.tokens.drop closing)) : False := by
  have behind := (enclosed.group here closed).2.suffix.length_le
  have cursor_le := Cursor.length_le_of_le below
  have length_pos := List.length_pos_iff.2 (Cursor.tokens_ne_nil_of_isAt here)
  rcases enclosed.exists_stop with ⟨token, rest, drop_eq, _⟩
  have shorter := congrArg List.length drop_eq
  simp only [Cursor.advance, List.length_drop, List.length_cons] at behind shorter
  omega

/-- A block with the same tokens as one that was read is read again as the same alternatives. -/
theorem exists_reread (opens : earlier.OpensBlock place length name opened)
    (here : cursor.isAt .leftParen) (closed : closingParen? 0 cursor.tokens = some closing)
    (same : place.block length = cursor.block closing)
    (flat : flatOptions false (cursor.tokens.take (closing + 1)))
    {alternatives : List Alternative} {later : Draft} {first behind rest : Cursor}
    (skipped : place.advance.skipBlockOptions = .ok first)
    (reads : Reads (.alternatives alternatives) opened first later behind)
    (passed : behind.pass .rightParen "`)`" = .ok rest) (grows : later.Grows draft) :
    ∃ ended, (∀ rule calls, 3 * cursor.tokens.length ≤ calls →
        draft.readInside rule calls cursor = .ok (alternatives, draft, ended)) ∧
      ended.tokens = (cursor.advance (closing + 1)).tokens := by
  have enclosed := enclosed_of_block opens.here opens.closed (flatOptions_congr same false ▸ flat)
  have twin_enclosed := enclosed_of_block here closed flat
  obtain rfl := closing_eq_of_block_eq same enclosed twin_enclosed
  have alike : Alike (place.tokens.drop length) (cursor.tokens.drop length) place.tokens
      cursor.tokens := by
    rcases enclosed.exists_stop with ⟨token, others, drop_eq, kind_eq⟩
    rcases twin_enclosed.exists_stop with ⟨twin, twinOthers, twin_drop_eq, twin_kind_eq⟩
    have inside := congrArg (List.take length) same
    simp only [Cursor.block, ← List.map_take, List.take_take, Nat.min_eq_left (Nat.le_succ length)]
      at inside
    exact .of_take inside drop_eq twin_drop_eq kind_eq twin_kind_eq
  rcases (alike.advance opens.here (by decide)).skipBlockOptions skipped with
    ⟨twinFirst, twin_skipped, first_alike⟩
  rcases reads.reread (enclosed.skipBlockOptions skipped) first_alike grows with
    ⟨twinBehind, twin_reads, behind_alike⟩
  have ended : twinBehind.isAt .rightParen := by
    rw [← behind_alike.isAt_eq]
    exact (Cursor.pass_eq_ok_iff.1 passed).1
  have twin_passed : twinBehind.pass .rightParen "`)`" = .ok twinBehind.advance :=
    Cursor.pass_eq_ok_iff.2 ⟨ended, rfl⟩
  refine ⟨twinBehind.advance, ?_, ?_⟩
  · intro rule calls enough
    exact twin_reads.readInside_eq here twin_skipped twin_passed rule enough
  · exact (twin_reads.tokens_of_block twin_enclosed twin_skipped twin_passed).2

end Blocks

/--
Wherever the reader passes over a block, it opened a block with the same joined text before and gave
it the name that it returns now. Blocks whose tokens stay apart have the same tokens then. When the
tokens are the same and no options in them hold a parenthesis, the first block was read to its end,
and reading this one would give the same alternatives, would add nothing to what is known, and would
end at the token at which the reader goes on.
-/
theorem reused_block {source name : String} {draft : Draft} {cursor : Cursor} {closing : Nat}
    (comes : Comes source .element draft cursor)
    (reuses : draft.ReusesBlock cursor closing name) :
    (∀ rule calls, Draft.readBlock rule (calls + 1) draft cursor =
      .ok (⟨name, .nonterminal⟩, draft, cursor.advance (closing + 1))) ∧
    ∃ earlier place length opened, Comes source .element earlier place ∧
      earlier.OpensBlock place length name opened ∧
      joinedText place.tokens (length + 1) = joinedText cursor.tokens (closing + 1) ∧
      (StayApart (place.block length) → StayApart (cursor.block closing) →
        place.block length = cursor.block closing) ∧
      (place.block length = cursor.block closing →
        flatOptions false (cursor.tokens.take (closing + 1)) →
        ∃ (alternatives : List Alternative) (later : Draft) (rest ended : Cursor),
          (∀ rule calls, 3 * place.tokens.length ≤ calls →
            Draft.readBlock rule (calls + 1) earlier place =
              .ok (⟨name, .nonterminal⟩, later.setRule name alternatives, rest)) ∧
          (∀ rule calls, 3 * cursor.tokens.length ≤ calls →
            draft.readInside rule calls cursor = .ok (alternatives, draft, ended)) ∧
          ended.tokens = (cursor.advance (closing + 1)).tokens) := by
  refine ⟨reuses.readBlock_eq, ?_⟩
  have apart {place : Cursor} {length : Nat}
      (text_eq : joinedText place.tokens (length + 1) = joinedText cursor.tokens (closing + 1))
      (first : StayApart (place.block length)) (second : StayApart (cursor.block closing)) :
      place.block length = cursor.block closing := by
    apply eq_of_joined_eq first second
    rw [Cursor.block, Cursor.block, ← toList_joinedText, ← toList_joinedText, text_eq]
  rcases comes.origin (InsertionOrder.mem_of_lookup_eq_some reuses.known) with finished | pending
  · rcases finished with ⟨earlier, place, length, opened, origin, first, alternatives, later,
      behind, rest, skipped, reads, passed, grows⟩
    refine ⟨earlier, place, length, opened, origin.comes, origin.opens, origin.text_eq,
      apart origin.text_eq, ?_⟩
    intro same flat
    rcases exists_reread origin.opens reuses.here reuses.closed same flat skipped reads passed
      grows with ⟨ended, reread, ended_eq⟩
    refine ⟨alternatives, later, rest, ended, ?_, reread, ended_eq⟩
    intro rule calls enough
    rw [origin.opens.readBlock_eq, reads.readInside_eq origin.opens.here skipped passed rule enough]
    rfl
  · rcases pending with ⟨earlier, place, length, opened, origin, below, inside⟩
    refine ⟨earlier, place, length, opened, origin.comes, origin.opens, origin.text_eq,
      apart origin.text_eq, ?_⟩
    intro same flat
    have place_flat : flatOptions false (place.tokens.take (length + 1)) :=
      flatOptions_congr same false ▸ flat
    rcases inside place_flat with ⟨depth, enclosed⟩
    -- The reader would be inside a block that is as long as the one that comes next.
    obtain rfl := closing_eq_of_block_eq same
      (enclosed_of_block origin.opens.here origin.opens.closed place_flat)
      (enclosed_of_block reuses.here reuses.closed flat)
    exact (not_enclosed_of_le below reuses.here reuses.closed enclosed).elim

/-- The cursor behind the first tokens of a text. -/
def cursorAt (source : String) (count : Nat) : Cursor :=
  { tokens := (tokens source).drop count, lastLine := lastLine source }

theorem Cursor.of_leftParen {cursor : Cursor} (here : cursor.isAt .leftParen) :
    cursor.skipElementOptions = .ok cursor ∧ ¬ cursor.endsAlternative ∧
      ¬ cursor.isAt .actionBlock ∧ cursor.skipElementLabel = cursor ∧
      cursor.repetition.2 = cursor := by
  have kind_eq : cursor.kind? = some .leftParen := of_decide_eq_true here
  simp [skipElementOptions, endsAlternative, skipElementLabel, repetition, isAt, kind_eq,
    TokenKind.endsAlternative]

/-- The reader comes to two blocks with which a rule starts. -/
theorem comes_blocks {source : String} {definition : Definition} {start next : Cursor}
    {later : Draft} {symbol : Symbol} (mem : definition ∈ definitions source)
    (untaken : ¬ definition.isPassedOver) (body_eq : definition.body = .ok start)
    (here : start.isAt .leftParen)
    (read : Draft.readBlock definition.name (3 * start.tokens.length)
      (definition.draft.openRule definition.name) start = .ok (symbol, later, next))
    (next_here : next.isAt .leftParen) :
    Comes source .element (definition.draft.openRule definition.name) start ∧
      Comes source .element later next := by
  have element {draft : Draft} {cursor : Cursor} (comes : Comes source .elements draft cursor)
      (here : cursor.isAt .leftParen) : Comes source .element draft cursor := by
    rcases Cursor.of_leftParen here with ⟨_, unended, no_action, label_eq, _⟩
    have labelled := Comes.element comes unended no_action
    rwa [label_eq] at labelled
  have first := element (.elements (.body mem untaken body_eq) (Cursor.of_leftParen here).1) here
  have reads := (Draft.reads_of_eq_ok _ _).2.2 _ _ _ _ _ here (Nat.le_succ _) read
  have behind := Comes.nextElement first reads
  rw [(Cursor.of_leftParen next_here).2.2.2.2] at behind
  exact ⟨first, element behind next_here⟩

/-- Two blocks with the same tokens. -/
def twoPairs : String :=
  "s : (a b) (a b) ;"

/-- Two blocks with the same joined text, but other tokens. -/
def pairAndName : String :=
  "s : (a b) (ab) ;"

/-- What is known behind the first block of the two texts. -/
def pairKnown : Draft where
  description :=
    { start := some "s"
      nonterminals := ["s", "_new_rule_1", "a", "b"]
      rules :=
        [("s", []), ("_new_rule_1", [[.bare ⟨"a", .nonterminal⟩, .bare ⟨"b", .nonterminal⟩]])] }
  blocks := [("(ab)", "_new_rule_1")]

theorem reused_block_twoPairs :
    Comes twoPairs .element pairKnown (cursorAt twoPairs 6) ∧
      pairKnown.ReusesBlock (cursorAt twoPairs 6) 3 "_new_rule_1" ∧
      (cursorAt twoPairs 2).block 3 = (cursorAt twoPairs 6).block 3 ∧
      flatOptions false ((cursorAt twoPairs 6).tokens.take 4) ∧
      ∃ earlier place length opened, Comes twoPairs .element earlier place ∧
        earlier.OpensBlock place length "_new_rule_1" opened ∧
        joinedText place.tokens (length + 1) = "(ab)" := by
  have mem : ⟨{}, cursorAt twoPairs 0⟩ ∈ definitions twoPairs := List.mem_singleton_self _
  have untaken : ¬ Definition.isPassedOver ⟨{}, cursorAt twoPairs 0⟩ := by decide
  have body_eq : Definition.body ⟨{}, cursorAt twoPairs 0⟩ = .ok (cursorAt twoPairs 2) := by rfl
  have read : Draft.readBlock "s" (3 * (cursorAt twoPairs 2).tokens.length)
      (({} : Draft).openRule "s") (cursorAt twoPairs 2) =
        .ok (⟨"_new_rule_1", .nonterminal⟩, pairKnown, cursorAt twoPairs 6) := by rfl
  have comes := (comes_blocks mem untaken body_eq rfl read rfl).2
  have reuses : pairKnown.ReusesBlock (cursorAt twoPairs 6) 3 "_new_rule_1" := ⟨rfl, rfl, rfl⟩
  rcases (reused_block comes reuses).2 with
    ⟨earlier, place, length, opened, first, opens, text_eq, _⟩
  exact ⟨comes, reuses, rfl, rfl, earlier, place, length, opened, first, opens, text_eq⟩

/-- Two blocks with the same counted end, of which the first one ends somewhere else. -/
def optionParens : String :=
  "s : (a <x=) b <c> d) (a <x=) b <c> d ;"

/-- What is known behind the first block of that text. -/
def optionKnown : Draft where
  description :=
    { start := some "s"
      nonterminals := ["s", "_new_rule_1", "a", "d"]
      rules :=
        [("s", []), ("_new_rule_1", [[.bare ⟨"a", .nonterminal⟩, .bare ⟨"d", .nonterminal⟩]])] }
  blocks := [("(a<x=)", "_new_rule_1")]

/--
A block is passed over that would be read as other alternatives, and another one that could not be
read at all.
-/
theorem reused_block_changes :
    ((parse pairAndName).isOk ∧ Comes pairAndName .element pairKnown (cursorAt pairAndName 6) ∧
      pairKnown.ReusesBlock (cursorAt pairAndName 6) 2 "_new_rule_1" ∧
      pairKnown.description.rules.lookup "_new_rule_1" =
        some [[.bare ⟨"a", .nonterminal⟩, .bare ⟨"b", .nonterminal⟩]] ∧
      (pairKnown.readInside "s" 12 (cursorAt pairAndName 6)).map Prod.fst =
        .ok [[.bare ⟨"ab", .nonterminal⟩]]) ∧
    ((parse optionParens).isOk ∧
      Comes optionParens .element optionKnown (cursorAt optionParens 14) ∧
      optionKnown.ReusesBlock (cursorAt optionParens 14) 5 "_new_rule_1" ∧
      optionKnown.readInside "s" 33 (cursorAt optionParens 14) =
        .error (.malformed 1 (.expected "`)`" (some ";")))) := by
  have pair_comes : Comes pairAndName .element pairKnown (cursorAt pairAndName 6) := by
    have mem : ⟨{}, cursorAt pairAndName 0⟩ ∈ definitions pairAndName := by decide +kernel
    have untaken : ¬ Definition.isPassedOver ⟨{}, cursorAt pairAndName 0⟩ := by decide
    have body_eq : Definition.body ⟨{}, cursorAt pairAndName 0⟩ =
        .ok (cursorAt pairAndName 2) := by rfl
    have read : Draft.readBlock "s" (3 * (cursorAt pairAndName 2).tokens.length)
        (({} : Draft).openRule "s") (cursorAt pairAndName 2) =
          .ok (⟨"_new_rule_1", .nonterminal⟩, pairKnown, cursorAt pairAndName 6) := by rfl
    exact (comes_blocks mem untaken body_eq rfl read rfl).2
  have option_comes : Comes optionParens .element optionKnown (cursorAt optionParens 14) := by
    have mem : ⟨{}, cursorAt optionParens 0⟩ ∈ definitions optionParens := by decide +kernel
    have untaken : ¬ Definition.isPassedOver ⟨{}, cursorAt optionParens 0⟩ := by decide
    have body_eq : Definition.body ⟨{}, cursorAt optionParens 0⟩ =
        .ok (cursorAt optionParens 2) := by rfl
    have read : Draft.readBlock "s" (3 * (cursorAt optionParens 2).tokens.length)
        (({} : Draft).openRule "s") (cursorAt optionParens 2) =
          .ok (⟨"_new_rule_1", .nonterminal⟩, optionKnown, cursorAt optionParens 14) := by rfl
    exact (comes_blocks mem untaken body_eq rfl read rfl).2
  have accepted : (parse pairAndName).isOk ∧ (parse optionParens).isOk := by decide +kernel
  exact ⟨⟨accepted.1, pair_comes, ⟨rfl, rfl, rfl⟩, rfl, rfl⟩, accepted.2, option_comes,
    ⟨rfl, rfl, rfl⟩, rfl⟩

end VisiblyPushdown.Source
