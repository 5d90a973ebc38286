import VisiblyPushdown.Proofs.Complements
import VisiblyPushdown.Proofs.Declarations

/-!
# Legible names

The names in a grammar that was read from source text can be read again. A rule is named with an
identifier, and so is a block. A terminal is a string literal, the name of a token, a dot or the
complement of a set. Readers only declare such names, as long as there is no garbage in the text.
-/

namespace VisiblyPushdown

namespace Source

/-- Whether the complement of a set may consist of a tilde and one token of the kind. -/
def TokenKind.isSet : TokenKind → Bool
  | .stringLiteral | .identifier | .bracketBlock => true
  | _ => false

/-- The tokens that are read as one symbol. -/
inductive Writes : Kind → List Lexeme → Prop
  | literal {text : List Char} : Spelled .stringLiteral text →
      Writes .terminal [⟨.stringLiteral, text⟩]
  | tokenName {text : List Char} : Spelled .identifier text → isTokenName (String.ofList text) →
      Writes .terminal [⟨.identifier, text⟩]
  | ruleName {text : List Char} : Spelled .identifier text → ¬ isTokenName (String.ofList text) →
      Writes .nonterminal [⟨.identifier, text⟩]
  | dot : Writes .terminal [⟨.dot, ['.']⟩]
  | complement {kind : TokenKind} {text : List Char} : kind.isSet → Spelled kind text →
      Writes .terminal [⟨.tilde, ['~']⟩, ⟨kind, text⟩]
  | complementOfGroup {found : List Lexeme} : Closes 0 found →
      Writes .terminal (⟨.tilde, ['~']⟩ :: ⟨.leftParen, ['(']⟩ :: found)

end Source

open Source

/-- Whether the name of a symbol consists of tokens that are read as the symbol. -/
def Symbol.IsLegible (symbol : Symbol) : Prop :=
  ∃ found, Writes symbol.kind found ∧ StayApart found ∧ joined found = symbol.name.toList

namespace Source

theorem StayApart.cons_sign {kind : TokenKind} {text : List Char} {found : List Lexeme}
    (apart : StayApart found) (sign : kind.sign? = some text)
    (whole : ∀ char, kind.goesOn char = false) : StayApart (⟨kind, text⟩ :: found) :=
  ⟨.sign sign, fun char _ => whole char, apart⟩

theorem Spelled.stayApart {kind : TokenKind} {text : List Char} (spelled : Spelled kind text) :
    StayApart [⟨kind, text⟩] :=
  ⟨spelled, by simp [TokenKind.EndsAt], trivial⟩

/-- The joined tokens of a symbol can be read again. -/
theorem Writes.isLegible {symbol : Symbol} {found : List Lexeme} (writes : Writes symbol.kind found)
    (joined_eq : joined found = symbol.name.toList) : symbol.IsLegible := by
  rcases symbol with ⟨name, kind⟩
  cases writes with
  | literal spelled => exact ⟨_, .literal spelled, spelled.stayApart, joined_eq⟩
  | tokenName spelled upper => exact ⟨_, .tokenName spelled upper, spelled.stayApart, joined_eq⟩
  | ruleName spelled lower => exact ⟨_, .ruleName spelled lower, spelled.stayApart, joined_eq⟩
  | dot => exact ⟨_, .dot, Spelled.stayApart (.sign rfl), joined_eq⟩
  | complement set spelled =>
      exact ⟨_, .complement set spelled, spelled.stayApart.cons_sign rfl fun _ => rfl, joined_eq⟩
  | complementOfGroup closes =>
      rcases closes.exists_groups with ⟨united, closes, apart, united_eq⟩
      refine ⟨_, .complementOfGroup closes, ?_, ?_⟩
      · exact (apart.cons_sign rfl fun _ => rfl).cons_sign rfl fun _ => rfl
      · rw [← joined_eq, joined_cons, joined_cons, united_eq]
        rfl

namespace Cursor

/-- Whether a cursor stands in front of tokens without garbage. -/
def IsSpelled (cursor : Cursor) : Prop :=
  ∀ token ∈ cursor.tokens, Spelled token.kind token.text.toList

variable {cursor rest : Cursor} {kind : TokenKind}

theorem IsSpelled.of_le (spelled : cursor.IsSpelled) (below : rest ≤ cursor) : rest.IsSpelled :=
  fun token mem => spelled token (List.IsSuffix.subset below mem)

theorem exists_of_kind? (here : cursor.kind? = some kind) :
    ∃ token others, cursor.tokens = token :: others ∧ token.kind = kind ∧
      cursor.text = token.text := by
  rcases tokens_eq : cursor.tokens with _ | ⟨token, others⟩
  · exact absurd tokens_eq (tokens_ne_nil_of_kind? here)
  · refine ⟨token, others, rfl, ?_, ?_⟩
    · simpa [kind?, kindAt?, tokens_eq] using here
    · simp [text, textAt, tokens_eq]

theorem IsSpelled.text (spelled : cursor.IsSpelled) (here : cursor.kind? = some kind) :
    Spelled kind cursor.text.toList := by
  rcases exists_of_kind? here with ⟨token, others, tokens_eq, rfl, text_eq⟩
  rw [text_eq]
  exact spelled token (by simp [tokens_eq])

theorem exists_of_kindAt? {next : TokenKind} (here : cursor.kind? = some kind)
    (behind : cursor.kindAt? 1 = some next) :
    ∃ first second others, cursor.tokens = first :: second :: others ∧ first.kind = kind ∧
      second.kind = next := by
  rcases exists_of_kind? here with ⟨first, rest, tokens_eq, kind_eq, _⟩
  rcases rest with _ | ⟨second, others⟩
  · simp [kindAt?, tokens_eq] at behind
  · exact ⟨first, second, others, tokens_eq, kind_eq, by simpa [kindAt?, tokens_eq] using behind⟩

theorem IsSpelled.lexeme_eq (spelled : cursor.IsSpelled) (token : Token) {sign : List Char}
    (mem : token ∈ cursor.tokens) (kind_eq : token.kind = kind) (known : kind.sign? = some sign) :
    token.lexeme = ⟨kind, sign⟩ := by
  subst kind_eq
  rw [Token.lexeme, (spelled token mem).eq_sign known]

/-- The complement of a set is a tilde with a group or one token. -/
theorem complementLength_eq_ok {length : Nat} (found : cursor.complementLength = .ok length) :
    (∃ closing, cursor.kindAt? 1 = some .leftParen ∧
        closingParen? 0 cursor.advance.tokens = some closing ∧ closing + 2 = length) ∨
      ∃ kind : TokenKind, kind.isSet ∧ cursor.kindAt? 1 = some kind ∧ 2 = length := by
  unfold complementLength at found
  split at found
  · next opens =>
      split at found
      · next closing closed => exact .inl ⟨closing, opens, closed, Except.ok.inj found⟩
      · cases found
  · next literal => exact .inr ⟨.stringLiteral, rfl, literal, Except.ok.inj found⟩
  · next name => exact .inr ⟨.identifier, rfl, name, Except.ok.inj found⟩
  · next block => exact .inr ⟨.bracketBlock, rfl, block, Except.ok.inj found⟩
  · cases found

theorem complementLength_of_isSet (set : kind.isSet) (here : cursor.kindAt? 1 = some kind) :
    cursor.complementLength = .ok 2 := by
  rw [complementLength, here]
  cases kind <;> first | rfl | cases set

end Cursor

theorem toList_joinedText (tokens : List Token) (count : Nat) :
    (joinedText tokens count).toList = joined ((tokens.take count).map Token.lexeme) := by
  rw [joinedText, joined, String.toList_join, List.flatMap_map, List.flatMap_map]
  rfl

namespace Draft

/-- Whether all symbols that are declared so far are legible. -/
def IsLegible (draft : Draft) : Prop :=
  ∀ symbol, draft.Declares symbol → symbol.IsLegible

variable {draft later : Draft} {name : String} {cursor rest : Cursor} {symbol : Symbol}

/-- Declaring one more legible symbol keeps all of them legible. -/
theorem IsLegible.declare (legible : draft.IsLegible) (symbol_legible : symbol.IsLegible)
    (declares : ∀ {other : Symbol}, later.Declares other ↔ draft.Declares other ∨ other = symbol) :
    later.IsLegible := by
  intro other declared
  rcases declares.1 declared with declared | rfl
  · exact legible other declared
  · exact symbol_legible

theorem IsLegible.mentionTerminal (legible : draft.IsLegible)
    (name_legible : Symbol.IsLegible ⟨name, .terminal⟩) :
    (draft.mentionTerminal name).2.IsLegible :=
  legible.declare name_legible declares_mentionTerminal

theorem IsLegible.mentionNonterminal (legible : draft.IsLegible)
    (name_legible : Symbol.IsLegible ⟨name, .nonterminal⟩) :
    (draft.mentionNonterminal name).2.IsLegible :=
  legible.declare name_legible declares_mentionNonterminal

theorem IsLegible.setRule (legible : draft.IsLegible)
    (name_legible : Symbol.IsLegible ⟨name, .nonterminal⟩) (alternatives : List Alternative) :
    (draft.setRule name alternatives).IsLegible :=
  legible.declare name_legible declares_setRule

theorem IsLegible.openRule (legible : draft.IsLegible)
    (name_legible : Symbol.IsLegible ⟨name, .nonterminal⟩) : (draft.openRule name).IsLegible :=
  (legible.mentionNonterminal name_legible).setRule name_legible []

theorem toList_blockName (number : Nat) :
    ("_new_rule_" ++ toString number).toList =
      '_' :: ("new_rule_".toList ++ (toString number).toList) := by
  have stem : "_new_rule_".toList = '_' :: "new_rule_".toList := by decide
  rw [String.toList_append, stem, List.cons_append]

theorem spelled_blockName (number : Nat) :
    Spelled .identifier ("_new_rule_" ++ toString number).toList := by
  have stem : "new_rule_".toList.all continuesIdentifier := by decide
  rw [toList_blockName]
  refine .identifier (by decide) ?_
  intro char mem
  rcases List.mem_append.1 mem with mem | mem
  · exact List.all_eq_true.1 stem char mem
  · have digit : char.isDigit := by
      apply Nat.isDigit_of_mem_toDigits (b := 10) (n := number) (by decide) (by decide)
      simpa [toString, Nat.repr_eq_ofList_toDigits] using mem
    simp [continuesIdentifier, Char.isAlphanum, digit]

/-- The name of a block is that of a rule. -/
theorem isLegible_openBlock (draft : Draft) (text : String) :
    Symbol.IsLegible ⟨(draft.openBlock text).1, .nonterminal⟩ := by
  refine Writes.isLegible (.ruleName (spelled_blockName (draft.blocks.length + 1)) ?_)
    (List.append_nil _)
  rw [String.ofList_toList, isTokenName, toList_blockName]
  simp

theorem IsLegible.openBlock (legible : draft.IsLegible) (text : String) :
    (draft.openBlock text).2.IsLegible :=
  (legible.mentionNonterminal (isLegible_openBlock draft text)).setRule
    (isLegible_openBlock draft text) []

section Atoms

variable (legible : draft.IsLegible) (spelled : cursor.IsSpelled)

include legible spelled

theorem readName_isLegible (here : cursor.kind? = some .identifier) :
    (draft.readName cursor).2.1.IsLegible := by
  have name_spelled := spelled.text here
  unfold readName
  split
  · next upper =>
      refine legible.mentionTerminal (Writes.isLegible (.tokenName name_spelled ?_) (by simp))
      rwa [String.ofList_toList]
  · next lower =>
      refine legible.mentionNonterminal (Writes.isLegible (.ruleName name_spelled ?_) (by simp))
      rwa [String.ofList_toList]

theorem readComplement_isLegible (here : cursor.kind? = some .tilde)
    (read : draft.readComplement cursor = .ok (symbol, later, rest)) : later.IsLegible := by
  rcases bind_eq_ok.1 read with ⟨length, found, read⟩
  cases read
  apply legible.mentionTerminal
  have name_eq := toList_joinedText cursor.tokens length
  rcases Cursor.complementLength_eq_ok found with
    ⟨closing, opens, closed, rfl⟩ | ⟨kind, set, next, rfl⟩
  · rcases Cursor.exists_of_kindAt? here opens with
      ⟨tilde, paren, others, tokens_eq, tilde_kind, paren_kind⟩
    have tilde_eq := spelled.lexeme_eq tilde (by simp [tokens_eq]) tilde_kind rfl
    have paren_eq := spelled.lexeme_eq paren (by simp [tokens_eq]) paren_kind rfl
    have behind : cursor.advance.tokens = paren :: others := by simp [Cursor.advance, tokens_eq]
    rw [behind, closingParen?_cons_opening _ _ paren_kind, Option.map_eq_some_iff] at closed
    rcases closed with ⟨inner, closed, rfl⟩
    have others_spelled (token : Token) (mem : token ∈ others) :
        Spelled token.kind token.text.toList :=
      spelled token (by simp [tokens_eq, mem])
    have group := closes_of_closingParen? others_spelled closed
    refine Writes.isLegible (.complementOfGroup group) ?_
    rw [name_eq, tokens_eq, ← tilde_eq, ← paren_eq]
    rfl
  · rcases Cursor.exists_of_kindAt? here next with
      ⟨tilde, operand, others, tokens_eq, tilde_kind, rfl⟩
    have tilde_eq := spelled.lexeme_eq tilde (by simp [tokens_eq]) tilde_kind rfl
    have operand_spelled := spelled operand (by simp [tokens_eq])
    refine Writes.isLegible (.complement set operand_spelled) ?_
    rw [name_eq, tokens_eq, ← tilde_eq]
    rfl

theorem readPlainAtom_isLegible (read : draft.readPlainAtom cursor = .ok (symbol, later, rest)) :
    later.IsLegible := by
  unfold readPlainAtom at read
  split at read
  · next here =>
      have literal : Symbol.IsLegible ⟨cursor.text, .terminal⟩ :=
        Writes.isLegible (.literal (spelled.text here)) (by simp)
      simp only [readLiteral] at read
      split at read
      · rcases bind_eq_ok.1 read with ⟨ended, passed, finished⟩
        cases finished
        exact legible.mentionTerminal literal
      · cases read
        exact legible.mentionTerminal literal
  · next here =>
      have named := readName_isLegible legible spelled here
      rw [Except.ok.inj read] at named
      exact named
  · cases read
    exact legible.mentionTerminal (Writes.isLegible .dot rfl)
  · next here => exact readComplement_isLegible legible spelled here read
  · cases read

theorem readAtom_isLegible (read : draft.readAtom cursor = .ok (symbol, later, rest)) :
    later.IsLegible := by
  rcases bind_eq_ok.1 read with ⟨⟨symbol, middle, behind⟩, plain, finished⟩
  rcases bind_eq_ok.1 finished with ⟨ended, skipped, finished⟩
  cases finished
  exact readPlainAtom_isLegible legible spelled plain

end Atoms

end Draft

open Draft in
/-- A reading declares legible names only. -/
theorem Reads.isLegible {part : Part} {draft later : Draft} {cursor rest : Cursor}
    (reads : Reads part draft cursor later rest) (spelled : cursor.IsSpelled)
    (legible : draft.IsLegible) : later.IsLegible := by
  induction reads with
  | lastAlternative skipped _ _ _ inner =>
      exact inner (spelled.of_le (Cursor.skipElementOptions_le skipped)) legible
  | @moreAlternatives _ _ _ _ _ _ _ _ bar _ skipped elements labelled _ _ inner others =>
      have first_spelled := spelled.of_le (Cursor.skipElementOptions_le skipped)
      have bar_le := (Cursor.skipAlternativeLabel_le labelled).trans elements.le
      exact others (first_spelled.of_le ((Cursor.advance_le bar 1).trans bar_le))
        (inner first_spelled legible)
  | noElements _ => exact legible
  | @moreElements _ _ _ _ _ _ behind _ _ _ element _ inner others =>
      have element_spelled := spelled.of_le (Cursor.skipElementLabel_le _)
      exact others (element_spelled.of_le ((Cursor.repetition_le behind).trans element.le))
        (inner element_spelled legible)
  | atom _ read => exact readAtom_isLegible legible spelled read
  | knownBlock _ _ _ => exact legible
  | @newBlock draft _ _ cursor _ _ _ closing _ _ _ _ _ opened skipped _ _ inner =>
      have first_le := (Cursor.skipBlockOptions_le skipped).trans (Cursor.advance_le cursor 1)
      have name_legible := isLegible_openBlock draft (joinedText cursor.tokens (closing + 1))
      have block_legible := legible.openBlock (joinedText cursor.tokens (closing + 1))
      rw [opened] at name_legible block_legible
      exact (inner (spelled.of_le first_le) block_legible).setRule name_legible _

namespace Draft

variable {draft later : Draft} {cursor rest : Cursor}

theorem skipModifiers_le (cursor : Cursor) :
    ["public", "private", "protected"].foldl readItem.skipModifier cursor ≤ cursor := by
  have skipModifier_le (cursor : Cursor) (modifier : String) :
      readItem.skipModifier cursor modifier ≤ cursor := by
    unfold readItem.skipModifier
    split
    · exact Cursor.advance_le cursor 1
    · exact le_refl cursor
  exact (skipModifier_le _ _).trans ((skipModifier_le _ _).trans (skipModifier_le _ _))

section Items

variable (legible : draft.IsLegible) (spelled : cursor.IsSpelled)

include legible spelled

theorem readBody_isLegible {name : String} (name_legible : Symbol.IsLegible ⟨name, .nonterminal⟩)
    (read : draft.readBody name cursor = .ok (later, rest)) :
    later.IsLegible ∧ rest ≤ cursor := by
  rcases readBody_eq_ok read with ⟨alternatives, middle, behind, inner, passed, rfl⟩
  have middle_legible := inner.isLegible spelled (legible.openRule name_legible)
  exact ⟨middle_legible.setRule name_legible alternatives,
    (Cursor.pass_lt passed).le.trans inner.le⟩

theorem readRule_isLegible (here : cursor.kind? = some .identifier)
    (lower : ¬ isTokenName cursor.text) (read : draft.readRule cursor = .ok (later, rest)) :
    later.IsLegible ∧ rest ≤ cursor := by
  have name_legible : Symbol.IsLegible ⟨cursor.text, .nonterminal⟩ := by
    refine Writes.isLegible (.ruleName (spelled.text here) ?_) (by simp)
    rwa [String.ofList_toList]
  rcases bind_eq_ok.1 read with ⟨behind, prelude, read⟩
  have behind_le := (Cursor.passPrelude_le prelude).trans (Cursor.advance_le cursor 1)
  dsimp only at read
  split at read
  · rcases bind_eq_ok.1 read with ⟨⟨middle, ended⟩, passed, read⟩
    rcases bind_eq_ok.1 read with ⟨handled, handlers, finished⟩
    cases passed
    cases finished
    exact ⟨legible, (Cursor.passHandlers_le handlers).trans
      ((Cursor.skipPastSemicolon_le behind).trans behind_le)⟩
  · rcases bind_eq_ok.1 read with ⟨start, colon, read⟩
    rcases bind_eq_ok.1 read with ⟨⟨middle, ended⟩, body, read⟩
    rcases bind_eq_ok.1 read with ⟨handled, handlers, finished⟩
    cases finished
    have start_le := (Cursor.pass_lt colon).le.trans behind_le
    rcases readBody_isLegible legible (spelled.of_le start_le) name_legible body with
      ⟨later_legible, ended_le⟩
    exact ⟨later_legible, (Cursor.passHandlers_le handlers).trans (ended_le.trans start_le)⟩

theorem readItem_isLegible (read : draft.readItem cursor = .ok (later, rest)) :
    later.IsLegible ∧ rest ≤ cursor := by
  rw [readItem] at read
  dsimp only at read
  split at read
  · cases read
    exact ⟨legible, Cursor.advance_le cursor 2⟩
  · split at read
    · cases read
      exact ⟨legible, Cursor.skipPastSemicolon_le cursor⟩
    · split at read
      · rcases bind_eq_ok.1 read with ⟨ended, action, finished⟩
        cases finished
        exact ⟨legible, Cursor.passNamedAction_le action⟩
      · split at read
        · next here =>
            have modifiers_le := skipModifiers_le cursor
            split at read
            · cases read
              exact ⟨legible, (Cursor.skipPastSemicolon_le _).trans modifiers_le⟩
            · next lower =>
                rcases readRule_isLegible legible (spelled.of_le modifiers_le)
                  (of_decide_eq_true here) lower read with ⟨later_legible, rest_le⟩
                exact ⟨later_legible, rest_le.trans modifiers_le⟩
        · cases read

theorem readItems_isLegible {turns : Nat} (read : readItems turns draft cursor = .ok later) :
    later.IsLegible := by
  induction turns generalizing draft cursor with
  | zero =>
      cases read
      exact legible
  | succ turns ih =>
      rw [readItems] at read
      split at read
      · cases read
        exact legible
      · rcases bind_eq_ok.1 read with ⟨⟨middle, behind⟩, item, others⟩
        rcases readItem_isLegible legible spelled item with ⟨middle_legible, behind_le⟩
        exact ih middle_legible (spelled.of_le behind_le) others

end Items

theorem readHeader_isLegible (read : readHeader cursor = .ok (draft, rest)) :
    draft.IsLegible ∧ rest ≤ cursor := by
  have empty (name : Option String) : IsLegible { description.name := name } := by
    rintro ⟨name, _ | _⟩ declared
    · simp [Declares, Description.declares] at declared
    · simp [Declares, Description.declares, Description.declaresNonterminal] at declared
  have named {lexerOnly : Bool} {cursor : Cursor}
      (read : readHeader.named lexerOnly cursor = .ok (draft, rest)) :
      draft.IsLegible ∧ rest ≤ cursor := by
    rcases bind_eq_ok.1 read with ⟨⟨name, behind⟩, expected, read⟩
    rcases bind_eq_ok.1 read with ⟨ended, semicolon, read⟩
    split at read
    · cases read
    · cases read
      exact ⟨empty (some name), (Cursor.pass_lt semicolon).le.trans (Cursor.expect_le expected)⟩
  rw [readHeader] at read
  split at read
  · rcases named read with ⟨legible, rest_le⟩
    exact ⟨legible, rest_le.trans (Cursor.advance_le cursor 2)⟩
  · split at read
    · rcases named read with ⟨legible, rest_le⟩
      exact ⟨legible, rest_le.trans (Cursor.advance_le cursor 1)⟩
    · cases read
      exact ⟨empty none, le_refl _⟩

end Draft

/-- All names of a description that was read from a text without garbage are legible. -/
theorem isLegible_of_parse {source : String} {description : Description}
    (clean : ∀ token ∈ tokens source, token.kind ≠ .garbage)
    (parsed : parse source = .ok description) {symbol : Symbol}
    (declared : description.declares symbol) : symbol.IsLegible := by
  rcases bind_eq_ok.1 parsed with ⟨⟨draft, cursor⟩, header, parsed⟩
  rcases bind_eq_ok.1 parsed with ⟨later, items, parsed⟩
  rcases Draft.readHeader_isLegible header with ⟨legible, cursor_le⟩
  have spelled : Cursor.IsSpelled { tokens := tokens source, lastLine := lastLine source } :=
    fun token mem => spelled_of_mem_tokens mem (clean token mem)
  have later_legible := Draft.readItems_isLegible legible (spelled.of_le cursor_le) items
  split at parsed
  · cases parsed
    exact later_legible symbol declared
  · cases parsed

end Source

end VisiblyPushdown
