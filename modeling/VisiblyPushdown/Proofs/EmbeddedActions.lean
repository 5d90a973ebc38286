import VisiblyPushdown.Proofs.BlockReuse

/-!
# Code inside rules

The reader looks for code where an element begins, and only there. All other tokens inside a rule
are of kinds that it asks for, apart from the stretches that it passes over as a whole: element
options, the options of a block, the complement of a group, and a block whose text is known. So
code that is accepted inside a rule stands in one of these stretches.
-/

namespace VisiblyPushdown.Source

/-- What is passed over without a look at the kinds of its tokens. -/
inductive Passage where
  | elementOptions
  | blockOptions
  | complement
  | knownBlock
deriving DecidableEq, Repr

/--
Whether the reader of a source text passes over the tokens from one cursor up to another one. The
options of a block are the code between the word `options` and the colon.
-/
inductive PassesOver (source : String) : Passage → (start stop : Cursor) → Prop
  | alternativeOptions {draft : Draft} {start stop : Cursor} :
      Comes source .alternatives draft start → start.isAt .less →
      start.skipElementOptions = .ok stop → PassesOver source .elementOptions start stop
  | atomOptions {symbol : Symbol} {draft later : Draft} {cursor start stop : Cursor} :
      Comes source .element draft cursor → ¬ cursor.isAt .leftParen →
      draft.readPlainAtom cursor = .ok (symbol, later, start) → start.isAt .less →
      start.skipElementOptions = .ok stop → PassesOver source .elementOptions start stop
  | blockOptions {draft opened : Draft} {cursor : Cursor} {closing : Nat} {name : String} :
      Comes source .element draft cursor → draft.OpensBlock cursor closing name opened →
      cursor.advance.isAtOptions → (cursor.advance 3).isAt .colon →
      PassesOver source .blockOptions (cursor.advance 2) (cursor.advance 3)
  | complement {draft : Draft} {start : Cursor} {length : Nat} :
      Comes source .element draft start → start.isAt .tilde →
      start.kindAt? 1 = some .leftParen → start.complementLength = .ok length →
      PassesOver source .complement start (start.advance length)
  | knownBlock {draft : Draft} {start : Cursor} {closing : Nat} {name : String} :
      Comes source .element draft start → draft.ReusesBlock start closing name →
      PassesOver source .knownBlock start (start.advance (closing + 1))

namespace Cursor

variable {cursor start stop middle action : Cursor} {kind : TokenKind}

/-- Cursors of one text stand in front of each other. -/
theorem le_or_lt (below : action ≤ start) (other_below : middle ≤ start) :
    action ≤ middle ∨ middle < action := by
  by_cases le : action ≤ middle
  · exact .inl le
  · exact .inr ⟨(List.suffix_or_suffix_of_suffix below other_below).resolve_left le, le⟩

/-- Between a token and the next one there is no other. -/
theorem tokens_eq_of_advance_lt (above : cursor.advance < action) (below : action ≤ cursor) :
    action.tokens = cursor.tokens := by
  have length_lt := length_lt_of_lt above
  have length_le := length_le_of_le below
  apply List.IsSuffix.eq_of_length below
  simp only [advance, List.length_drop] at length_lt
  omega

end Cursor

/-- Whether all code between two cursors is passed over. -/
def PassesActions (source : String) (start stop : Cursor) : Prop :=
  ∀ action : Cursor, action.isAt .actionBlock → stop < action → action ≤ start →
    ∃ passage start stop, PassesOver source passage start stop ∧ stop < action ∧ action ≤ start

section Passages

variable {source : String} {passage : Passage} {start middle stop cursor rest : Cursor}
  {kind : TokenKind} {draft later : Draft} {symbol : Symbol} {what : String}

theorem PassesOver.passesActions (passes : PassesOver source passage start stop) :
    PassesActions source start stop :=
  fun _ _ above below => ⟨passage, start, stop, passes, above, below⟩

namespace PassesActions

theorem refl (source : String) (cursor : Cursor) : PassesActions source cursor cursor :=
  fun _ _ above below => absurd below above.2

theorem trans (first : PassesActions source start middle) (middle_le : middle ≤ start)
    (second : PassesActions source middle stop) : PassesActions source start stop := by
  intro action here above below
  rcases Cursor.le_or_lt below middle_le with in_second | in_first
  · exact second action here above in_second
  · exact first action here in_first below

/-- A token of another kind is no code. -/
theorem advance (source : String) (here : cursor.kind? = some kind) (other : kind ≠ .actionBlock) :
    PassesActions source cursor cursor.advance := by
  intro action action_here above below
  have kind_eq : action.kind? = cursor.kind? := by
    rw [Cursor.kind?, Cursor.kindAt?, Cursor.tokens_eq_of_advance_lt above below]
    rfl
  rw [here, of_decide_eq_true action_here] at kind_eq
  exact absurd (Option.some.inj kind_eq).symm other

theorem skip (source : String) (cursor : Cursor) (other : kind ≠ .actionBlock) :
    PassesActions source cursor (cursor.skip kind) := by
  unfold Cursor.skip
  split
  · next here => exact advance source (of_decide_eq_true here) other
  · exact refl source cursor

theorem pass (source : String) (passed : cursor.pass kind what = .ok rest)
    (other : kind ≠ .actionBlock) : PassesActions source cursor rest := by
  rcases Cursor.pass_eq_ok_iff.1 passed with ⟨here, rfl⟩
  exact advance source (of_decide_eq_true here) other

/-- Two tokens of other kinds are no code. -/
theorem advance_two (source : String) {next : TokenKind} (here : cursor.kind? = some kind)
    (other : kind ≠ .actionBlock) (next_here : cursor.kindAt? 1 = some next)
    (next_other : next ≠ .actionBlock) : PassesActions source cursor (cursor.advance 2) := by
  have second := advance source (cursor.kind?_advance.trans next_here) next_other
  rw [Cursor.advance_advance] at second
  exact (advance source here other).trans (Cursor.advance_le _ 1) second

/-- Element options are passed over where the reader comes to them. -/
theorem skipElementOptions (skipped : start.skipElementOptions = .ok stop)
    (passes : start.isAt .less → PassesOver source .elementOptions start stop) :
    PassesActions source start stop := by
  by_cases here : start.isAt .less
  · exact (passes here).passesActions
  · rw [Cursor.skipElementOptions, if_neg here] at skipped
    cases skipped
    exact refl source start

theorem skipAlternativeLabel (source : String) (skipped : cursor.skipAlternativeLabel = .ok rest) :
    PassesActions source cursor rest := by
  unfold Cursor.skipAlternativeLabel at skipped
  split at skipped
  · next here =>
      exact (advance source (of_decide_eq_true here) (by decide)).trans (Cursor.advance_le _ 1)
        (pass source skipped (by decide))
  · cases skipped
    exact refl source cursor

theorem skipElementLabel (source : String) (cursor : Cursor) :
    PassesActions source cursor cursor.skipElementLabel := by
  unfold Cursor.skipElementLabel
  split
  · next here =>
      rcases here with ⟨name, sign | sign⟩
      · exact advance_two source (of_decide_eq_true name) (by decide) sign (by decide)
      · exact advance_two source (of_decide_eq_true name) (by decide) sign (by decide)
  · exact refl source cursor

theorem repetition (source : String) (cursor : Cursor) :
    PassesActions source cursor cursor.repetition.2 := by
  have behind {kind : TokenKind} (here : cursor.kind? = some kind) (other : kind ≠ .actionBlock) :
      PassesActions source cursor (cursor.advance.skip .question) :=
    (advance source here other).trans (Cursor.advance_le _ 1) (skip source _ (by decide))
  unfold Cursor.repetition
  split
  · next here => exact behind here (by decide)
  · next here => exact behind here (by decide)
  · next here => exact behind here (by decide)
  · exact refl source cursor

theorem complement (comes : Comes source .element draft cursor) (here : cursor.isAt .tilde)
    {length : Nat} (found : cursor.complementLength = .ok length) :
    PassesActions source cursor (cursor.advance length) := by
  rcases Cursor.complementLength_eq_ok found with
    ⟨closing, paren, closed, _⟩ | ⟨kind, set, next_here, rfl⟩
  · exact (PassesOver.complement comes here paren found).passesActions
  · have other : kind ≠ .actionBlock := by
      rintro rfl
      cases set
    exact advance_two source (of_decide_eq_true here) (by decide) next_here other

theorem readPlainAtom (comes : Comes source .element draft cursor)
    (read : draft.readPlainAtom cursor = .ok (symbol, later, rest)) :
    PassesActions source cursor rest := by
  unfold Draft.readPlainAtom at read
  split at read
  · next here =>
      have literal := advance source here (by decide)
      simp only [Draft.readLiteral] at read
      split at read
      · next range =>
          rcases bind_eq_ok.1 read with ⟨ended, passed, finished⟩
          cases finished
          have dots := advance source (of_decide_eq_true range) (by decide)
          exact literal.trans (Cursor.advance_le _ 1)
            (dots.trans (Cursor.advance_le _ 1) (pass source passed (by decide)))
      · cases read
        exact literal
  · next here =>
      have name := advance source here (by decide)
      simp only [Draft.readName] at read
      split at read
      · cases read
        exact name
      · cases read
        exact name.trans (Cursor.advance_le _ 1) (skip source _ (by decide))
  · next here =>
      cases read
      exact advance source here (by decide)
  · next here =>
      rcases bind_eq_ok.1 read with ⟨length, found, finished⟩
      cases finished
      exact complement comes (decide_eq_true here) found
  · cases read

theorem readAtom (comes : Comes source .element draft cursor) (elsewhere : ¬ cursor.isAt .leftParen)
    (read : draft.readAtom cursor = .ok (symbol, later, rest)) :
    PassesActions source cursor rest := by
  rcases bind_eq_ok.1 read with ⟨⟨symbol, middle, behind⟩, plain, read⟩
  rcases bind_eq_ok.1 read with ⟨ended, skipped, finished⟩
  cases finished
  exact (readPlainAtom comes plain).trans (Draft.readPlainAtom_lt plain).le
    (skipElementOptions skipped fun here => .atomOptions comes elsewhere plain here skipped)

/-- The options of a block are code that is passed over. -/
theorem skipBlockOptions {opened : Draft} {closing : Nat} {name : String}
    (comes : Comes source .element draft cursor)
    (opens : draft.OpensBlock cursor closing name opened)
    (skipped : cursor.advance.skipBlockOptions = .ok rest) :
    PassesActions source cursor rest := by
  have paren := advance source (of_decide_eq_true opens.here) (by decide)
  unfold Cursor.skipBlockOptions at skipped
  split at skipped
  · next options =>
      rw [Cursor.advance_advance] at skipped
      have colon := (Cursor.pass_eq_ok_iff.1 skipped).1
      have word : cursor.advance.kind? = some .identifier := by
        simp only [Cursor.isAtOptions, Cursor.isAtWord, Bool.and_eq_true] at options
        exact of_decide_eq_true options.1.1
      have first := advance source word (by decide)
      rw [Cursor.advance_advance] at first
      have second := (PassesOver.blockOptions comes opens options colon).passesActions
      have second_le : cursor.advance 3 ≤ cursor.advance 2 := by
        rw [← Cursor.advance_advance cursor 2 1]
        exact Cursor.advance_le _ 1
      have first_le : cursor.advance 2 ≤ cursor.advance := by
        rw [← Cursor.advance_advance cursor 1 1]
        exact Cursor.advance_le _ 1
      exact paren.trans (Cursor.advance_le _ 1)
        (first.trans first_le (second.trans second_le (pass source skipped (by decide))))
  · cases skipped
    exact paren

end PassesActions

/-- Code in a part that is read is passed over. -/
theorem Reads.passesActions {part : Part} (reads : Reads part draft cursor later rest)
    (comes : Comes source part.place draft cursor) : PassesActions source cursor rest := by
  induction reads with
  | lastAlternative skipped reads labelled _ inner =>
      have options := PassesActions.skipElementOptions skipped fun here =>
        .alternativeOptions comes here skipped
      exact options.trans (Cursor.skipElementOptions_le skipped)
        ((inner (.elements comes skipped)).trans reads.le (.skipAlternativeLabel source labelled))
  | moreAlternatives skipped reads labelled more others_read inner others =>
      have options := PassesActions.skipElementOptions skipped fun here =>
        .alternativeOptions comes here skipped
      have elements := Comes.elements comes skipped
      have bar := PassesActions.advance source (of_decide_eq_true more) (by decide)
      have behind := bar.trans (Cursor.advance_le _ 1)
        (others (.nextAlternative elements reads labelled more))
      have label := (PassesActions.skipAlternativeLabel source labelled).trans
        (Cursor.skipAlternativeLabel_le labelled) behind
      exact options.trans (Cursor.skipElementOptions_le skipped)
        ((inner elements).trans reads.le label)
  | noElements _ => exact .refl source _
  | @moreElements _ _ _ _ _ cursor behind _ unended no_action reads others_read inner others =>
      have element := Comes.element comes unended no_action
      have mark := (PassesActions.repetition source behind).trans (Cursor.repetition_le behind)
        (others (.nextElement element reads))
      exact (PassesActions.skipElementLabel source cursor).trans (Cursor.skipElementLabel_le cursor)
        ((inner element).trans reads.le mark)
  | atom elsewhere read => exact .readAtom comes elsewhere read
  | knownBlock here closed known =>
      exact (PassesOver.knownBlock comes ⟨here, closed, known⟩).passesActions
  | newBlock here closed unknown opened_eq skipped reads passed inner =>
      have opens : Draft.OpensBlock _ _ _ _ _ := ⟨here, closed, unknown, opened_eq⟩
      have paren := (inner (.inside comes opens skipped)).trans reads.le
        (.pass source passed (by decide))
      exact (PassesActions.skipBlockOptions comes opens skipped).trans
        (Cursor.inside_block_lt here skipped).le paren

end Passages

/-- The rule of a definition that is not passed over is read from its colon to a semicolon. -/
theorem exists_semicolon_of_parse {source : String} {description : Description}
    {definition : Definition} (parsed : parse source = .ok description)
    (mem : definition ∈ definitions source) (untaken : ¬ definition.isPassedOver) :
    ∃ alternatives later semicolon,
      definition.alternatives = .ok (alternatives, later, semicolon) ∧
        semicolon.isAt .semicolon := by
  rcases bind_eq_ok.1 parsed with ⟨⟨draft, cursor⟩, header, parsed⟩
  rcases bind_eq_ok.1 parsed with ⟨last, items, _⟩
  rw [definitions, header] at mem
  rcases List.append_of_mem mem with ⟨before, after, whole⟩
  rcases Draft.exists_readItems_of_definitions items whole with
    ⟨_, start, middle, rest, named, item, _⟩
  rcases Draft.readItem_eq_ok item with ⟨nameless, _⟩ | ⟨found, found_eq, rule⟩
  · exact absurd (named.symm.trans nameless) (Option.some_ne_none _)
  obtain rfl := Option.some.inj (named.symm.trans found_eq)
  rcases bind_eq_ok.1 rule with ⟨colon, prelude, rule⟩
  dsimp only at rule
  split at rule
  · next taken => exact absurd taken untaken
  · rcases bind_eq_ok.1 rule with ⟨body, passed, rule⟩
    rcases bind_eq_ok.1 rule with ⟨_, whole_body, _⟩
    rcases bind_eq_ok.1 whole_body with ⟨⟨alternatives, later, semicolon⟩, inner, whole_body⟩
    rcases bind_eq_ok.1 whole_body with ⟨_, ended, _⟩
    have body_eq : definition.body = .ok body := bind_eq_ok.2 ⟨colon, prelude, passed⟩
    exact ⟨alternatives, later, semicolon, bind_eq_ok.2 ⟨body, body_eq, inner⟩,
      (Cursor.pass_eq_ok_iff.1 ended).1⟩

/--
When a source text is read, the alternatives of each rule that is not passed over reach from its
colon to a semicolon, and all code between them is in the options of an element or an alternative,
is the options of a block, or is in a complement or a block that is passed over unread.
-/
theorem passesOver_of_parse {source : String} {description : Description}
    {definition : Definition} (parsed : parse source = .ok description)
    (mem : definition ∈ definitions source) (untaken : ¬ definition.isPassedOver) :
    ∃ body alternatives later semicolon, definition.body = .ok body ∧
      definition.alternatives = .ok (alternatives, later, semicolon) ∧
      semicolon.isAt .semicolon ∧ semicolon ≤ body ∧
      ∀ action : Cursor, action.isAt .actionBlock → semicolon < action → action ≤ body →
        ∃ passage start stop, PassesOver source passage start stop ∧
          stop < action ∧ action ≤ start := by
  rcases exists_semicolon_of_parse parsed mem untaken with
    ⟨alternatives, later, semicolon, found, ended⟩
  rcases Draft.reads_of_alternatives found with ⟨body, body_eq, reads⟩
  exact ⟨body, alternatives, later, semicolon, body_eq, found, ended, reads.le,
    reads.passesActions (.body mem untaken body_eq)⟩

theorem cursorAt_le (source : String) {first second : Nat} (le : first ≤ second) :
    cursorAt source second ≤ cursorAt source first :=
  List.drop_suffix_drop_left _ le

theorem cursorAt_lt (source : String) {first second : Nat} (lt : first < second)
    (inside : first < (tokens source).length) : cursorAt source second < cursorAt source first := by
  refine ⟨cursorAt_le source lt.le, fun back => ?_⟩
  have shorter := Cursor.length_le_of_le back
  simp only [cursorAt, List.length_drop] at shorter
  omega

/-- A rule with a block that has options, and with an option of an element. -/
def optionBraces : String :=
  "s : (options {k=1} : A) B<fail={x}> ;"

/-- The description that is read from that text. -/
def optionBracesRead : Description where
  start := some "s"
  terminals := ["A", "B"]
  nonterminals := ["s", "_new_rule_1"]
  rules :=
    [("s", [[.bare ⟨"_new_rule_1", .nonterminal⟩, .bare ⟨"B", .terminal⟩]]),
      ("_new_rule_1", [[.bare ⟨"A", .terminal⟩]])]

theorem passesOver_of_parse_optionBraces :
    parse optionBraces = .ok optionBracesRead ∧
      ∃ definition ∈ definitions optionBraces, ¬ definition.isPassedOver ∧
        ∃ body alternatives later semicolon, definition.body = .ok body ∧
          definition.alternatives = .ok (alternatives, later, semicolon) ∧
          ∀ action ∈ [cursorAt optionBraces 4, cursorAt optionBraces 12],
            action.isAt .actionBlock ∧ semicolon < action ∧ action ≤ body ∧
              ∃ passage start stop, PassesOver optionBraces passage start stop ∧
                stop < action ∧ action ≤ start := by
  have parsed : parse optionBraces = .ok optionBracesRead := by rfl
  have mem : ⟨{}, cursorAt optionBraces 0⟩ ∈ definitions optionBraces :=
    List.mem_singleton_self _
  have untaken : ¬ Definition.isPassedOver ⟨{}, cursorAt optionBraces 0⟩ := by decide
  have body_eq : Definition.body ⟨{}, cursorAt optionBraces 0⟩ =
      .ok (cursorAt optionBraces 2) := by rfl
  have ended : (Definition.alternatives ⟨{}, cursorAt optionBraces 0⟩).map (·.2.2) =
      .ok (cursorAt optionBraces 14) := by rfl
  rcases passesOver_of_parse parsed mem untaken with
    ⟨body, alternatives, later, semicolon, body_found, found, _, _, passes⟩
  cases body_eq.symm.trans body_found
  rw [found] at ended
  cases ended
  refine ⟨parsed, _, mem, untaken, _, alternatives, later, _, body_eq, found, ?_⟩
  intro action action_mem
  have between : action.isAt .actionBlock ∧ cursorAt optionBraces 14 < action ∧
      action ≤ cursorAt optionBraces 2 := by
    simp only [List.mem_cons, List.not_mem_nil, or_false] at action_mem
    rcases action_mem with rfl | rfl
    · exact ⟨rfl, cursorAt_lt _ (by decide) (by decide +kernel), cursorAt_le _ (by decide)⟩
    · exact ⟨rfl, cursorAt_lt _ (by decide) (by decide +kernel), cursorAt_le _ (by decide)⟩
  exact ⟨between.1, between.2.1, between.2.2, passes action between.1 between.2.1 between.2.2⟩

/-- Code in the options of an element is accepted in a text without any parenthesis. -/
theorem action_in_elementOptions :
    (parse "s : A<fail={x}> ;").isOk ∧
      (definitions "s : A<fail={x}> ;").map (fun definition =>
        (definition.isPassedOver, definition.body, definition.alternatives.map (·.2.2))) =
        [(false, .ok (cursorAt "s : A<fail={x}> ;" 2),
          .ok (cursorAt "s : A<fail={x}> ;" 8))] ∧
      (cursorAt "s : A<fail={x}> ;" 8).isAt .semicolon ∧
      (cursorAt "s : A<fail={x}> ;" 6).isAt .actionBlock ∧
      cursorAt "s : A<fail={x}> ;" 8 < cursorAt "s : A<fail={x}> ;" 6 ∧
      cursorAt "s : A<fail={x}> ;" 6 ≤ cursorAt "s : A<fail={x}> ;" 2 ∧
      ∀ token ∈ tokens "s : A<fail={x}> ;", token.kind ≠ .leftParen := by
  refine ⟨by decide +kernel, rfl, rfl, rfl, ?_, cursorAt_le _ (by decide), by decide +kernel⟩
  exact cursorAt_lt _ (by decide) (by decide +kernel)

end VisiblyPushdown.Source
