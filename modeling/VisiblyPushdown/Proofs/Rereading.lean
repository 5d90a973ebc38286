import VisiblyPushdown.Proofs.BlockEnds
import VisiblyPushdown.Proofs.RuleNames

/-!
# Reading the same tokens again

What is read inside a block depends on the kinds and the texts of its tokens alone. When they stand
in another place and everything that they mention is known there, they are read as the same
alternatives, up to the same token, and nothing is added to the draft. Blocks inside are passed over
this time, so it matters that both ways to find their ends agree.
-/

namespace VisiblyPushdown.Source

/--
Whether tokens in front of the parenthesis at `stop` and those in front of the parenthesis at
`twinStop` have the same kinds and texts.
-/
inductive Alike (stop twinStop : List Token) : (tokens twins : List Token) → Prop
  | stop {closing twinClosing : Token} {rest twinRest : List Token} :
      stop = closing :: rest → twinStop = twinClosing :: twinRest →
      closing.kind = .rightParen → twinClosing.kind = .rightParen →
      Alike stop twinStop stop twinStop
  | token {token twin : Token} {rest twinRest : List Token} : token.kind = twin.kind →
      token.text = twin.text → Alike stop twinStop rest twinRest →
      Alike stop twinStop (token :: rest) (twin :: twinRest)

namespace Alike

theorem of_take {tokens twins : List Token} {count : Nat} {closing twinClosing : Token}
    {rest twinRest : List Token}
    (same : (tokens.take count).map Token.lexeme = (twins.take count).map Token.lexeme)
    (drop_eq : tokens.drop count = closing :: rest)
    (twin_drop_eq : twins.drop count = twinClosing :: twinRest)
    (kind_eq : closing.kind = .rightParen) (twin_kind_eq : twinClosing.kind = .rightParen) :
    Alike (tokens.drop count) (twins.drop count) tokens twins := by
  induction count generalizing tokens twins with
  | zero => exact .stop drop_eq twin_drop_eq kind_eq twin_kind_eq
  | succ count ih =>
      rcases tokens with _ | ⟨token, tokens⟩
      · cases drop_eq
      rcases twins with _ | ⟨twin, twins⟩
      · cases twin_drop_eq
      rw [List.take_succ_cons, List.take_succ_cons, List.map_cons, List.map_cons] at same
      have token_eq := (List.cons.inj same).1
      refine .token (congrArg Lexeme.kind token_eq) ?_
        (ih (List.cons.inj same).2 drop_eq twin_drop_eq)
      exact String.toList_inj.1 (congrArg Lexeme.text token_eq)

variable {stop twinStop rest tokens twins : List Token} {cursor twin ended : Cursor}
  {kind : TokenKind} {what : String} {count depth : Nat}

theorem kind?_eq (alike : Alike stop twinStop cursor.tokens twin.tokens) :
    cursor.kind? = twin.kind? := by
  rcases cursor with ⟨tokens, lastLine⟩
  rcases twin with ⟨twins, twinLastLine⟩
  cases alike with
  | stop stop_eq twin_eq kind_eq twin_kind_eq =>
      simp only at stop_eq twin_eq
      simp [Cursor.kind?, Cursor.kindAt?, stop_eq, twin_eq, kind_eq, twin_kind_eq]
  | token kind_eq _ _ => simp [Cursor.kind?, Cursor.kindAt?, kind_eq]

theorem isAt_eq (alike : Alike stop twinStop cursor.tokens twin.tokens) (kind : TokenKind) :
    cursor.isAt kind = twin.isAt kind := by
  rw [Cursor.isAt, Cursor.isAt, alike.kind?_eq]

/-- In front of the parenthesis there is a token in both places. -/
theorem exists_tokens (alike : Alike stop twinStop cursor.tokens twin.tokens)
    (here : cursor.kind? = some kind) (inside : kind ≠ .rightParen) :
    ∃ token twinToken, cursor.tokens = token :: cursor.advance.tokens ∧
      twin.tokens = twinToken :: twin.advance.tokens ∧ token.text = twinToken.text ∧
      Alike stop twinStop cursor.advance.tokens twin.advance.tokens := by
  rcases cursor with ⟨tokens, lastLine⟩
  rcases twin with ⟨twins, twinLastLine⟩
  cases alike with
  | stop stop_eq _ kind_eq _ =>
      simp only at stop_eq
      simp [Cursor.kind?, Cursor.kindAt?, stop_eq, kind_eq] at here
      exact absurd here.symm inside
  | @token token twinToken _ _ _ text_eq alike =>
      exact ⟨token, twinToken, rfl, rfl, text_eq, alike⟩

theorem text_eq (alike : Alike stop twinStop cursor.tokens twin.tokens)
    (here : cursor.kind? = some kind) (inside : kind ≠ .rightParen) : cursor.text = twin.text := by
  rcases alike.exists_tokens here inside with ⟨token, twinToken, tokens_eq, twin_eq, text_eq, _⟩
  simp [Cursor.text, Cursor.textAt, tokens_eq, twin_eq, text_eq]

/-- In front of the parenthesis the cursors move on together. -/
theorem step (alike : Alike stop twinStop cursor.tokens twin.tokens)
    (here : cursor.kind? = some kind) (inside : kind ≠ .rightParen) :
    Alike stop twinStop cursor.advance.tokens twin.advance.tokens := by
  rcases alike.exists_tokens here inside with ⟨_, _, _, _, _, behind⟩
  exact behind

theorem texts_succ (alike : Alike stop twinStop cursor.tokens twin.tokens)
    (here : cursor.kind? = some kind) (inside : kind ≠ .rightParen)
    (texts_eq : (cursor.advance.tokens.take count).map Token.text =
      (twin.advance.tokens.take count).map Token.text) :
    (cursor.tokens.take (count + 1)).map Token.text =
      (twin.tokens.take (count + 1)).map Token.text := by
  rcases alike.exists_tokens here inside with ⟨token, twinToken, tokens_eq, twin_eq, text_eq, _⟩
  rw [tokens_eq, twin_eq, List.take_succ_cons, List.take_succ_cons, List.map_cons, List.map_cons,
    text_eq, texts_eq]

theorem advance (alike : Alike stop twinStop cursor.tokens twin.tokens)
    (here : cursor.isAt kind) (inside : kind ≠ .rightParen) :
    Alike stop twinStop cursor.advance.tokens twin.advance.tokens :=
  alike.step (of_decide_eq_true here) inside

theorem kindAt?_one_eq (alike : Alike stop twinStop cursor.tokens twin.tokens)
    (here : cursor.kind? = some kind) (inside : kind ≠ .rightParen) :
    cursor.kindAt? 1 = twin.kindAt? 1 := by
  rw [← Cursor.kind?_advance, ← Cursor.kind?_advance]
  exact (alike.step here inside).kind?_eq

theorem skip (alike : Alike stop twinStop cursor.tokens twin.tokens)
    (inside : kind ≠ .rightParen) :
    Alike stop twinStop (cursor.skip kind).tokens (twin.skip kind).tokens := by
  unfold Cursor.skip
  rw [← alike.isAt_eq]
  split
  · next here => exact alike.advance here inside
  · exact alike

theorem pass (alike : Alike stop twinStop cursor.tokens twin.tokens)
    (inside : kind ≠ .rightParen) (passed : cursor.pass kind what = .ok ended) :
    ∃ twinEnded, twin.pass kind what = .ok twinEnded ∧
      Alike stop twinStop ended.tokens twinEnded.tokens := by
  rcases Cursor.pass_eq_ok_iff.1 passed with ⟨here, rfl⟩
  refine ⟨twin.advance, ?_, alike.advance here inside⟩
  exact Cursor.pass_eq_ok_iff.2 ⟨alike.isAt_eq kind ▸ here, rfl⟩

theorem pastGreater? (alike : Alike stop twinStop tokens twins)
    (found : Source.pastGreater? tokens = some rest) (inside : stop <:+ rest) :
    ∃ twinRest, Source.pastGreater? twins = some twinRest ∧
      Alike stop twinStop rest twinRest := by
  induction alike with
  | stop stop_eq _ kind_eq _ =>
      rw [stop_eq, Source.pastGreater?, if_neg (by simp [kind_eq])] at found
      have shorter := (pastGreater?_suffix found).length_le
      have longer := inside.length_le
      rw [stop_eq, List.length_cons] at longer
      omega
  | @token token twin others twinOthers kind_eq _ alike ih =>
      rw [Source.pastGreater?] at found ⊢
      rw [← kind_eq]
      split at found
      · next greater =>
          cases found
          exact ⟨twinOthers, if_pos greater, alike⟩
      · next not_greater =>
          rw [if_neg not_greater]
          exact ih found

theorem skipElementOptions (alike : Alike stop twinStop cursor.tokens twin.tokens)
    (enclosed : Enclosed false depth cursor.tokens stop)
    (skipped : cursor.skipElementOptions = .ok ended) :
    ∃ twinEnded, twin.skipElementOptions = .ok twinEnded ∧
      Alike stop twinStop ended.tokens twinEnded.tokens := by
  have inside := (enclosed.skipElementOptions skipped).suffix
  unfold Cursor.skipElementOptions at skipped ⊢
  rw [← alike.isAt_eq]
  split at skipped
  · next here =>
      split at skipped
      · next behind found =>
          cases skipped
          rcases (alike.advance here (by decide)).pastGreater? found inside with
            ⟨twinBehind, twin_found, behind_alike⟩
          rw [if_pos here, twin_found]
          exact ⟨_, rfl, behind_alike⟩
      · cases skipped
  · next elsewhere =>
      cases skipped
      rw [if_neg elsewhere]
      exact ⟨twin, rfl, alike⟩

theorem skipAlternativeLabel (alike : Alike stop twinStop cursor.tokens twin.tokens)
    (skipped : cursor.skipAlternativeLabel = .ok ended) :
    ∃ twinEnded, twin.skipAlternativeLabel = .ok twinEnded ∧
      Alike stop twinStop ended.tokens twinEnded.tokens := by
  unfold Cursor.skipAlternativeLabel at skipped ⊢
  rw [← alike.isAt_eq]
  split at skipped
  · next here =>
      rw [if_pos here]
      exact (alike.advance here (by decide)).pass (by decide) skipped
  · next elsewhere =>
      cases skipped
      rw [if_neg elsewhere]
      exact ⟨twin, rfl, alike⟩

theorem advance_two (alike : Alike stop twinStop cursor.tokens twin.tokens) {next : TokenKind}
    (here : cursor.kind? = some kind) (inside : kind ≠ .rightParen)
    (next_here : cursor.kindAt? 1 = some next) (next_inside : next ≠ .rightParen) :
    Alike stop twinStop (cursor.advance 2).tokens (twin.advance 2).tokens := by
  have behind := cursor.kind?_advance.trans next_here
  have alike_behind := (alike.step here inside).step behind next_inside
  rwa [Cursor.advance_advance, Cursor.advance_advance] at alike_behind

theorem skipElementLabel (alike : Alike stop twinStop cursor.tokens twin.tokens) :
    Alike stop twinStop cursor.skipElementLabel.tokens twin.skipElementLabel.tokens := by
  unfold Cursor.skipElementLabel
  rw [← alike.isAt_eq]
  by_cases name : cursor.isAt .identifier
  · have name_here := of_decide_eq_true name
    rw [← alike.kindAt?_one_eq name_here (by decide)]
    split
    · next here =>
        rcases here.2 with sign | sign
        · exact alike.advance_two name_here (by decide) sign (by decide)
        · exact alike.advance_two name_here (by decide) sign (by decide)
    · exact alike
  · simpa [name] using alike

theorem isAtOptions_eq (alike : Alike stop twinStop cursor.tokens twin.tokens) :
    cursor.isAtOptions = twin.isAtOptions := by
  unfold Cursor.isAtOptions Cursor.isAtWord
  rw [← alike.isAt_eq]
  by_cases name : cursor.isAt .identifier
  · have name_here := of_decide_eq_true name
    rw [← alike.kindAt?_one_eq name_here (by decide), alike.text_eq name_here (by decide)]
  · simp [name]

theorem skipBlockOptions (alike : Alike stop twinStop cursor.tokens twin.tokens)
    (skipped : cursor.skipBlockOptions = .ok ended) :
    ∃ twinEnded, twin.skipBlockOptions = .ok twinEnded ∧
      Alike stop twinStop ended.tokens twinEnded.tokens := by
  unfold Cursor.skipBlockOptions at skipped ⊢
  rw [← alike.isAtOptions_eq]
  split at skipped
  · next here =>
      rw [if_pos here]
      simp only [Cursor.isAtOptions, Cursor.isAtWord, Bool.and_eq_true] at here
      rcases here with ⟨⟨name, _⟩, action⟩
      exact (alike.advance_two (of_decide_eq_true name) (by decide) (of_decide_eq_true action)
        (by decide)).pass (by decide) skipped
  · next elsewhere =>
      cases skipped
      rw [if_neg elsewhere]
      exact ⟨twin, rfl, alike⟩

theorem repetition (alike : Alike stop twinStop cursor.tokens twin.tokens) :
    cursor.repetition.1 = twin.repetition.1 ∧
      Alike stop twinStop cursor.repetition.2.tokens twin.repetition.2.tokens := by
  unfold Cursor.repetition
  rw [← alike.kind?_eq]
  split
  · next here => exact ⟨rfl, (alike.step here (by decide)).skip (by decide)⟩
  · next here => exact ⟨rfl, (alike.step here (by decide)).skip (by decide)⟩
  · next here => exact ⟨rfl, (alike.step here (by decide)).skip (by decide)⟩
  · exact ⟨rfl, alike⟩

theorem endsAlternative_eq (alike : Alike stop twinStop cursor.tokens twin.tokens) :
    cursor.endsAlternative = twin.endsAlternative := by
  rw [Cursor.endsAlternative, Cursor.endsAlternative, alike.kind?_eq]

/-- A group has the same end and the same text in both places. -/
theorem closingParen? (alike : Alike stop twinStop tokens twins)
    (found : Source.closingParen? depth tokens = some count)
    (inside : stop <:+ tokens.drop (count + 1)) :
    Source.closingParen? depth twins = some count ∧
      (tokens.take (count + 1)).map Token.text = (twins.take (count + 1)).map Token.text ∧
      Alike stop twinStop (tokens.drop (count + 1)) (twins.drop (count + 1)) := by
  induction alike generalizing depth count with
  | stop stop_eq _ _ _ =>
      have longer := inside.length_le
      rw [stop_eq] at longer
      simp only [List.length_drop, List.length_cons] at longer
      omega
  | @token token twin others twinOthers kind_eq text_eq alike ih =>
      have further {inner : Nat}
          (found : (Source.closingParen? inner others).map (· + 1) = some count) :
          (Source.closingParen? inner twinOthers).map (· + 1) = some count ∧
            ((token :: others).take (count + 1)).map Token.text =
              ((twin :: twinOthers).take (count + 1)).map Token.text ∧
            Alike stop twinStop ((token :: others).drop (count + 1))
              ((twin :: twinOthers).drop (count + 1)) := by
        rcases Option.map_eq_some_iff.1 found with ⟨fewer, inner_found, rfl⟩
        rcases ih inner_found inside with ⟨twin_found, texts_eq, behind⟩
        refine ⟨by rw [twin_found]; rfl, ?_, behind⟩
        rw [List.take_succ_cons, List.take_succ_cons, List.map_cons, List.map_cons, text_eq,
          texts_eq]
      rw [Source.closingParen?] at found ⊢
      rw [← kind_eq]
      split at found
      · exact further found
      · split at found
        · next last =>
            cases found
            exact ⟨if_pos last, by simp [text_eq], alike⟩
        · next not_last =>
            rw [if_neg not_last]
            exact further found
      · exact further found

/-- A group that is passed over has the same text and the same end in both places. -/
theorem group (alike : Alike stop twinStop cursor.tokens twin.tokens)
    (enclosed : Enclosed false depth cursor.tokens stop) (here : cursor.isAt .leftParen)
    (found : Source.closingParen? 0 cursor.tokens = some count) :
    Source.closingParen? 0 twin.tokens = some count ∧
      joinedText cursor.tokens (count + 1) = joinedText twin.tokens (count + 1) ∧
      Alike stop twinStop (cursor.advance (count + 1)).tokens
        (twin.advance (count + 1)).tokens := by
  rcases alike.closingParen? found (enclosed.group here found).2.suffix with
    ⟨twin_found, texts_eq, behind⟩
  exact ⟨twin_found, congrArg String.join texts_eq, behind⟩

section Readers

variable {draft later : Draft} {symbol : Symbol}

theorem complementLength (alike : Alike stop twinStop cursor.tokens twin.tokens)
    (enclosed : Enclosed false depth cursor.tokens stop) (here : cursor.kind? = some .tilde)
    {length : Nat} (found : cursor.complementLength = .ok length) :
    twin.complementLength = .ok length ∧
      joinedText cursor.tokens length = joinedText twin.tokens length ∧
      Alike stop twinStop (cursor.advance length).tokens (twin.advance length).tokens := by
  have behind := alike.step here (by decide)
  have next_eq := alike.kindAt?_one_eq here (by decide)
  rcases Cursor.complementLength_eq_ok found with
    ⟨closing, paren, closed, rfl⟩ | ⟨kind, set, next_here, rfl⟩
  · have opens : cursor.advance.isAt .leftParen :=
      decide_eq_true (cursor.kind?_advance.trans paren)
    have group := ((enclosed.advance here rfl).group opens closed).2
    rcases behind.closingParen? closed group.suffix with ⟨twin_closed, texts_eq, behind_alike⟩
    refine ⟨?_, congrArg String.join (alike.texts_succ here (by decide) texts_eq), ?_⟩
    · rw [Cursor.complementLength, ← next_eq, paren]
      simp only [twin_closed]
    · simpa only [Cursor.advance, List.drop_drop, Nat.add_comm 1] using behind_alike
  · have inside : kind ≠ .rightParen := by
      rintro rfl
      cases set
    have texts_eq : (cursor.advance.tokens.take 1).map Token.text =
        (twin.advance.tokens.take 1).map Token.text :=
      behind.texts_succ (cursor.kind?_advance.trans next_here) inside rfl
    refine ⟨?_, congrArg String.join (alike.texts_succ here (by decide) texts_eq), ?_⟩
    · exact Cursor.complementLength_of_isSet set (next_eq.symm.trans next_here)
    · exact alike.advance_two here (by decide) next_here inside

theorem readComplement (alike : Alike stop twinStop cursor.tokens twin.tokens)
    (enclosed : Enclosed false depth cursor.tokens stop) (here : cursor.kind? = some .tilde)
    (read : draft.readComplement cursor = .ok (symbol, later, ended)) :
    ∃ twinEnded, draft.readComplement twin = .ok (symbol, later, twinEnded) ∧
      Alike stop twinStop ended.tokens twinEnded.tokens := by
  rcases bind_eq_ok.1 read with ⟨length, found, finished⟩
  cases finished
  rcases alike.complementLength enclosed here found with ⟨twin_found, text_eq, behind⟩
  refine ⟨twin.advance length, bind_eq_ok.2 ⟨length, twin_found, ?_⟩, behind⟩
  rw [text_eq]
  rfl

theorem readPlainAtom (alike : Alike stop twinStop cursor.tokens twin.tokens)
    (enclosed : Enclosed false depth cursor.tokens stop)
    (read : draft.readPlainAtom cursor = .ok (symbol, later, ended)) :
    ∃ twinEnded, draft.readPlainAtom twin = .ok (symbol, later, twinEnded) ∧
      Alike stop twinStop ended.tokens twinEnded.tokens := by
  unfold Draft.readPlainAtom at read ⊢
  rw [← alike.kind?_eq]
  split at read
  · next here =>
      have text_eq := alike.text_eq here (by decide)
      have behind := alike.step here (by decide)
      simp only [Draft.readLiteral] at read ⊢
      rw [← text_eq, ← behind.isAt_eq]
      split at read
      · next range =>
          rcases bind_eq_ok.1 read with ⟨closed, passed, finished⟩
          cases finished
          rcases (behind.advance range (by decide)).pass (by decide) passed with
            ⟨twinClosed, twin_passed, closed_alike⟩
          rw [if_pos range, twin_passed]
          exact ⟨twinClosed, rfl, closed_alike⟩
      · next alone =>
          cases read
          rw [if_neg alone]
          exact ⟨twin.advance, rfl, behind⟩
  · next here =>
      have text_eq := alike.text_eq here (by decide)
      have behind := alike.step here (by decide)
      simp only [Draft.readName] at read ⊢
      rw [← text_eq]
      split at read
      · next upper =>
          cases read
          rw [if_pos upper]
          exact ⟨twin.advance, rfl, behind⟩
      · next lower =>
          cases read
          rw [if_neg lower]
          exact ⟨twin.advance.skip .bracketBlock, rfl, behind.skip (by decide)⟩
  · next here =>
      cases read
      exact ⟨twin.advance, rfl, alike.step here (by decide)⟩
  · next here => exact alike.readComplement enclosed here read
  · cases read

theorem readAtom (alike : Alike stop twinStop cursor.tokens twin.tokens)
    (enclosed : Enclosed false depth cursor.tokens stop)
    (read : draft.readAtom cursor = .ok (symbol, later, ended)) :
    ∃ twinEnded, draft.readAtom twin = .ok (symbol, later, twinEnded) ∧
      Alike stop twinStop ended.tokens twinEnded.tokens := by
  rcases bind_eq_ok.1 read with ⟨⟨symbol, middle, behind⟩, plain, read⟩
  rcases bind_eq_ok.1 read with ⟨closed, skipped, finished⟩
  cases finished
  rcases alike.readPlainAtom enclosed plain with ⟨twinBehind, twin_plain, behind_alike⟩
  rcases behind_alike.skipElementOptions (enclosed.readPlainAtom plain) skipped with
    ⟨twinEnded, twin_skipped, ended_alike⟩
  exact ⟨twinEnded, bind_eq_ok.2 ⟨_, twin_plain, bind_eq_ok.2 ⟨_, twin_skipped, rfl⟩⟩, ended_alike⟩

end Readers

end Alike

namespace Draft

variable {draft earlier later known : Draft} {symbol : Symbol} {name text : String}

/-- What is mentioned already is not declared again. -/
theorem mention_eq_self (known_all : (draft.mention symbol).Grows known) :
    known.mention symbol = known := by
  rcases symbol with ⟨name, kind⟩
  cases kind with
  | terminal =>
      have mem : name ∈ known.description.terminals :=
        known_all.terminals (InsertionOrder.mem_insert.2 (.inr rfl))
      simp [mention, mentionTerminal, InsertionOrder.insert, mem]
  | nonterminal =>
      have mem : name ∈ known.description.nonterminals :=
        known_all.nonterminals (InsertionOrder.mem_insert.2 (.inr rfl))
      simp [mention, mentionNonterminal, InsertionOrder.insert, mem]

theorem Grows.lookup_blocks (grows : earlier.Grows later)
    (found : earlier.blocks.lookup text = some name) : later.blocks.lookup text = some name := by
  rcases grows.blocks with ⟨added, blocks_eq⟩
  rw [← blocks_eq, List.lookup_append, found]
  rfl

theorem lookup_openBlock (unknown : draft.blocks.lookup text = none)
    (opened : draft.openBlock text = (name, later)) : later.blocks.lookup text = some name := by
  rw [blocks_openBlock opened, List.lookup_append, unknown]
  simp

end Draft

namespace Reads

variable {part : Part} {draft later known : Draft} {cursor twin rest : Cursor} {depth : Nat}
  {stop twinStop : List Token}

/--
What was read inside a block is read again from the same tokens, when everything that was met is
known. Nothing is added, since the blocks inside are known, too, and are passed over.
-/
theorem reread (reads : Reads part draft cursor later rest)
    (enclosed : Enclosed false depth cursor.tokens stop)
    (alike : Alike stop twinStop cursor.tokens twin.tokens) (grows : later.Grows known) :
    ∃ twinRest, Reads part known twin known twinRest ∧
      Alike stop twinStop rest.tokens twinRest.tokens := by
  induction reads generalizing depth twin with
  | lastAlternative skipped reads labelled last inner =>
      have inside := enclosed.skipElementOptions skipped
      rcases alike.skipElementOptions enclosed skipped with ⟨twinFirst, twin_skipped, first_alike⟩
      rcases inner inside first_alike grows with ⟨twinBehind, twin_reads, behind_alike⟩
      rcases behind_alike.skipAlternativeLabel labelled with ⟨twinRest, twin_labelled, rest_alike⟩
      refine ⟨twinRest, ?_, rest_alike⟩
      exact .lastAlternative twin_skipped twin_reads twin_labelled (rest_alike.isAt_eq _ ▸ last)
  | moreAlternatives skipped reads labelled more others_read inner others =>
      have inside := enclosed.skipElementOptions skipped
      have bar_inside := (reads.enclosed inside).skipAlternativeLabel labelled
      have inner_grows := others_read.grows.trans grows
      rcases alike.skipElementOptions enclosed skipped with ⟨twinFirst, twin_skipped, first_alike⟩
      rcases inner inside first_alike inner_grows with ⟨twinBehind, twin_reads, behind_alike⟩
      rcases behind_alike.skipAlternativeLabel labelled with ⟨twinBar, twin_labelled, bar_alike⟩
      rcases others (bar_inside.advance (of_decide_eq_true more) rfl)
        (bar_alike.advance more (by decide)) grows with ⟨twinRest, twin_others, rest_alike⟩
      refine ⟨twinRest, ?_, rest_alike⟩
      exact .moreAlternatives twin_skipped twin_reads twin_labelled (bar_alike.isAt_eq _ ▸ more)
        twin_others
  | noElements ended => exact ⟨twin, .noElements (alike.endsAlternative_eq ▸ ended), alike⟩
  | moreElements unended no_action reads others_read inner others =>
      have inside := enclosed.skipElementLabel
      have inner_grows := others_read.grows.trans grows
      rcases inner inside alike.skipElementLabel inner_grows with
        ⟨twinBehind, twin_reads, behind_alike⟩
      rcases behind_alike.repetition with ⟨mark_eq, marked_alike⟩
      rcases others (reads.enclosed inside).repetition marked_alike grows with
        ⟨twinRest, twin_others, rest_alike⟩
      rw [mark_eq]
      refine ⟨twinRest, ?_, rest_alike⟩
      exact .moreElements (alike.endsAlternative_eq ▸ unended) (alike.isAt_eq _ ▸ no_action)
        twin_reads twin_others
  | atom elsewhere read =>
      rcases Draft.readAtom_eq_ok read known with ⟨rfl, known_read⟩
      rw [Draft.mention_eq_self grows] at known_read
      rcases alike.readAtom enclosed known_read with ⟨twinRest, twin_read, rest_alike⟩
      exact ⟨twinRest, .atom (alike.isAt_eq _ ▸ elsewhere) twin_read, rest_alike⟩
  | knownBlock here closed found =>
      rcases alike.group enclosed here closed with ⟨twin_closed, text_eq, behind⟩
      rw [text_eq] at found
      exact ⟨_, .knownBlock (alike.isAt_eq _ ▸ here) twin_closed (grows.lookup_blocks found),
        behind⟩
  | newBlock here closed unknown opened skipped reads passed _ =>
      rcases alike.group enclosed here closed with ⟨twin_closed, text_eq, behind⟩
      have opened_grows := reads.grows.trans ((Draft.grows_setRule _ _ _).trans grows)
      have found := opened_grows.lookup_blocks (Draft.lookup_openBlock unknown opened)
      rw [text_eq] at found
      -- The block was read the first time and is passed over now, which takes it to the same end.
      rw [(reads.tokens_of_block (enclosed.group here closed).1 skipped passed).2]
      exact ⟨_, .knownBlock (alike.isAt_eq _ ▸ here) twin_closed found, behind⟩

end Reads

/-- Whether the reader of a part, with so many calls to spend, comes to the given result. -/
def Part.IsReadBy (rule : String) (calls : Nat) (draft : Draft) (cursor : Cursor) (later : Draft)
    (rest : Cursor) : Part → Prop
  | .alternatives found => 3 * cursor.tokens.length < calls →
      Draft.readAlternatives rule calls draft cursor = .ok (found, later, rest)
  | .elements found => 3 * cursor.tokens.length ≤ calls →
      Draft.readElements rule calls draft cursor = .ok (found, later, rest)
  | .element symbol => 3 * cursor.tokens.length ≤ calls + 1 →
      (if cursor.isAt .leftParen then Draft.readBlock rule calls draft cursor
        else draft.readAtom cursor) = .ok (symbol, later, rest)

/-- A reading is what the readers do when they have enough calls to spend. -/
theorem Reads.isReadBy {part : Part} {draft later : Draft} {cursor rest : Cursor}
    (reads : Reads part draft cursor later rest) (rule : String) (calls : Nat) :
    part.IsReadBy rule calls draft cursor later rest := by
  induction reads generalizing calls with
  | lastAlternative skipped _ labelled last inner =>
      intro enough
      have first_le := Cursor.length_le_of_le (Cursor.skipElementOptions_le skipped)
      cases calls with
      | zero => omega
      | succ calls =>
          rw [Draft.readAlternatives]
          refine bind_eq_ok.2 ⟨_, skipped, bind_eq_ok.2 ⟨_, inner calls (by omega), ?_⟩⟩
          exact bind_eq_ok.2 ⟨_, labelled, by rw [if_neg last]; rfl⟩
  | @moreAlternatives _ _ _ _ _ cursor first behind bar rest skipped reads labelled more _ inner
      others =>
      intro enough
      have first_le := Cursor.length_le_of_le (Cursor.skipElementOptions_le skipped)
      have bar_lt : bar.advance < cursor :=
        (Cursor.advance_lt (Cursor.tokens_ne_nil_of_isAt more) Nat.one_pos).trans_le
          ((Cursor.skipAlternativeLabel_le labelled).trans
            (reads.le.trans (Cursor.skipElementOptions_le skipped)))
      have bar_length := Cursor.length_lt_of_lt bar_lt
      cases calls with
      | zero => omega
      | succ calls =>
          rw [Draft.readAlternatives]
          refine bind_eq_ok.2 ⟨_, skipped, bind_eq_ok.2 ⟨_, inner calls (by omega), ?_⟩⟩
          refine bind_eq_ok.2 ⟨_, labelled, ?_⟩
          rw [if_pos more]
          exact bind_eq_ok.2 ⟨_, others calls (by omega), rfl⟩
  | noElements ended =>
      intro enough
      cases calls with
      | zero => rfl
      | succ calls => rw [Draft.readElements, if_pos ended]; rfl
  | @moreElements _ _ _ _ _ cursor behind rest unended no_action reads _ inner others =>
      intro enough
      have more : cursor.tokens ≠ [] := by
        intro empty
        simp [Cursor.endsAlternative, Cursor.kind?, Cursor.kindAt?, empty] at unended
      have length_pos := List.length_pos_iff.2 more
      have label_le := Cursor.skipElementLabel_le cursor
      have label_length := Cursor.length_le_of_le label_le
      have behind_lt : behind.repetition.2 < cursor :=
        ((Cursor.repetition_le behind).trans_lt reads.lt_of_element).trans_le label_le
      have behind_length := Cursor.length_lt_of_lt behind_lt
      cases calls with
      | zero => omega
      | succ calls =>
          rw [Draft.readElements, if_neg unended]
          have element := inner calls (by omega)
          have further := others calls (by omega)
          dsimp only
          rw [if_neg no_action]
          split at element
          · next here =>
              rw [if_pos here]
              exact bind_eq_ok.2 ⟨_, element, bind_eq_ok.2 ⟨_, further, rfl⟩⟩
          · next elsewhere =>
              rw [if_neg elsewhere]
              exact bind_eq_ok.2 ⟨_, element, bind_eq_ok.2 ⟨_, further, rfl⟩⟩
  | atom elsewhere read =>
      intro _
      rw [if_neg elsewhere]
      exact read
  | @knownBlock draft cursor closing name here closed found =>
      intro enough
      have length_pos := List.length_pos_iff.2 (Cursor.tokens_ne_nil_of_isAt here)
      rw [if_pos here]
      cases calls with
      | zero => omega
      | succ calls =>
          rw [Draft.readBlock, closed]
          simp only [found]
          rfl
  | @newBlock draft opened later cursor first behind rest closing name alternatives here closed
      unknown opened_eq skipped reads passed inner =>
      intro enough
      have length_pos := List.length_pos_iff.2 (Cursor.tokens_ne_nil_of_isAt here)
      have first_length := Cursor.length_lt_of_lt (Cursor.inside_block_lt here skipped)
      rw [if_pos here]
      cases calls with
      | zero => omega
      | succ calls =>
          rw [Draft.readBlock, closed]
          simp only [unknown, opened_eq]
          refine bind_eq_ok.2 ⟨_, skipped, bind_eq_ok.2 ⟨_, inner calls (by omega), ?_⟩⟩
          exact bind_eq_ok.2 ⟨_, passed, rfl⟩

end VisiblyPushdown.Source
