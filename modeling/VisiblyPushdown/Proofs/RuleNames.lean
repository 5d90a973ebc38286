import VisiblyPushdown.Proofs.Reading

/-!
# Names of rules and names of blocks

A parser rule is passed over when its name is taken. Rules and blocks share one table, so a name is
taken by an earlier rule, and also by an earlier block that happens to get the name. The rules in
the table are those of the definitions and those of the blocks that were met. A rule that was read
stays what it is until a block gets its name.
-/

namespace VisiblyPushdown.Source

namespace Draft

variable {draft earlier middle later : Draft} {cursor rest : Cursor} {symbol : Symbol}
  {name text : String}

/-- Declares a symbol that is mentioned. -/
def mention (draft : Draft) (symbol : Symbol) : Draft :=
  match symbol.kind with
  | .terminal => (draft.mentionTerminal symbol.name).2
  | .nonterminal => (draft.mentionNonterminal symbol.name).2

@[simp]
theorem mention_blocks (draft : Draft) (symbol : Symbol) :
    (draft.mention symbol).blocks = draft.blocks := by
  unfold mention
  split <;> rfl

@[simp]
theorem mention_rules (draft : Draft) (symbol : Symbol) :
    (draft.mention symbol).description.rules = draft.description.rules := by
  unfold mention
  split <;> rfl

@[simp]
theorem openRule_blocks (draft : Draft) (name : String) :
    (draft.openRule name).blocks = draft.blocks :=
  rfl

/-- What an element that is not a block stands for depends on the tokens alone. -/
theorem readPlainAtom_eq_ok (read : draft.readPlainAtom cursor = .ok (symbol, later, rest))
    (other : Draft) :
    later = draft.mention symbol ∧
      other.readPlainAtom cursor = .ok (symbol, other.mention symbol, rest) := by
  unfold readPlainAtom at read ⊢
  split at read
  · simp only [readLiteral] at read ⊢
    split at read
    · next range =>
        rcases bind_eq_ok.1 read with ⟨ended, passed, finished⟩
        cases finished
        exact ⟨rfl, by rw [if_pos range, passed]; rfl⟩
    · next alone =>
        cases read
        exact ⟨rfl, by rw [if_neg alone]; rfl⟩
  · simp only [readName] at read ⊢
    split at read
    · next upper =>
        cases read
        exact ⟨rfl, by rw [if_pos upper]; rfl⟩
    · next lower =>
        cases read
        exact ⟨rfl, by rw [if_neg lower]; rfl⟩
  · cases read
    exact ⟨rfl, rfl⟩
  · rcases bind_eq_ok.1 read with ⟨length, found, finished⟩
    cases finished
    exact ⟨rfl, bind_eq_ok.2 ⟨length, found, rfl⟩⟩
  · cases read

theorem readAtom_eq_ok (read : draft.readAtom cursor = .ok (symbol, later, rest)) (other : Draft) :
    later = draft.mention symbol ∧
      other.readAtom cursor = .ok (symbol, other.mention symbol, rest) := by
  rcases bind_eq_ok.1 read with ⟨⟨symbol, middle, behind⟩, plain, read⟩
  rcases bind_eq_ok.1 read with ⟨ended, skipped, finished⟩
  cases finished
  rcases readPlainAtom_eq_ok plain other with ⟨later_eq, plain⟩
  exact ⟨later_eq, bind_eq_ok.2 ⟨_, plain, bind_eq_ok.2 ⟨_, skipped, rfl⟩⟩⟩

/-- Whether nothing that was met is forgotten, and blocks are added behind the others. -/
structure Grows (earlier later : Draft) : Prop where
  terminals : earlier.description.terminals ⊆ later.description.terminals
  nonterminals : earlier.description.nonterminals ⊆ later.description.nonterminals
  blocks : earlier.blocks <+: later.blocks

theorem Grows.refl (draft : Draft) : draft.Grows draft :=
  ⟨List.Subset.refl _, List.Subset.refl _, List.prefix_rfl⟩

theorem Grows.trans (first : earlier.Grows middle) (second : middle.Grows later) :
    earlier.Grows later :=
  ⟨List.Subset.trans first.terminals second.terminals,
    List.Subset.trans first.nonterminals second.nonterminals, first.blocks.trans second.blocks⟩

theorem grows_mention (draft : Draft) (symbol : Symbol) : draft.Grows (draft.mention symbol) := by
  unfold mention
  split
  · refine ⟨?_, List.Subset.refl _, List.prefix_rfl⟩
    exact fun name mem => InsertionOrder.mem_insert.2 (.inl mem)
  · refine ⟨List.Subset.refl _, ?_, List.prefix_rfl⟩
    exact fun name mem => InsertionOrder.mem_insert.2 (.inl mem)

theorem grows_setRule (draft : Draft) (name : String) (alternatives : List Alternative) :
    draft.Grows (draft.setRule name alternatives) :=
  ⟨List.Subset.refl _, List.Subset.refl _, List.prefix_rfl⟩

theorem grows_openRule (draft : Draft) (name : String) : draft.Grows (draft.openRule name) := by
  refine ⟨List.Subset.refl _, ?_, List.prefix_rfl⟩
  exact fun name mem => InsertionOrder.mem_insert.2 (.inl mem)

theorem grows_openBlock (opened : draft.openBlock text = (name, later)) : draft.Grows later := by
  cases opened
  refine ⟨List.Subset.refl _, ?_, List.prefix_append _ _⟩
  exact fun name mem => InsertionOrder.mem_insert.2 (.inl mem)

end Draft

/-- Reading forgets nothing. -/
theorem Reads.grows {part : Part} {draft later : Draft} {cursor rest : Cursor}
    (reads : Reads part draft cursor later rest) : draft.Grows later := by
  induction reads with
  | lastAlternative _ _ _ _ inner => exact inner
  | moreAlternatives _ _ _ _ _ inner others => exact inner.trans others
  | noElements _ => exact .refl _
  | moreElements _ _ _ _ inner others => exact inner.trans others
  | atom _ read =>
      rcases Draft.readAtom_eq_ok read {} with ⟨rfl, _⟩
      exact Draft.grows_mention _ _
  | knownBlock _ _ _ => exact .refl _
  | newBlock _ _ _ opened _ _ _ inner =>
      exact (Draft.grows_openBlock opened).trans (inner.trans (Draft.grows_setRule _ _ _))

namespace Draft

variable {draft earlier middle later : Draft} {cursor rest : Cursor} {name other text : String}
  {alternatives : List Alternative}

section Blocks

theorem blocks_openBlock (opened : draft.openBlock text = (name, later)) :
    later.blocks = draft.blocks ++ [(text, name)] := by
  cases opened
  rfl

/-- A block that is met for the first time is known when it has been read. -/
theorem mem_blocks_of_reads {part : Part} (opened : draft.openBlock text = (name, middle))
    (reads : Reads part middle cursor later rest) : (text, name) ∈ later.blocks := by
  apply reads.grows.blocks.subset
  simp [blocks_openBlock opened]

/-- The names of the blocks that were met. -/
def blockNames (draft : Draft) : List String :=
  draft.blocks.map Prod.snd

/-- Whether every block with a name in the one draft is known in the other. -/
def GivesNoBlock (later earlier : Draft) (name : String) : Prop :=
  ∀ block ∈ later.blocks, block.2 = name → block ∈ earlier.blocks

theorem GivesNoBlock.mono (free : later.GivesNoBlock earlier name)
    (first : earlier.blocks <+: middle.blocks) (second : middle.blocks <+: later.blocks) :
    middle.GivesNoBlock earlier name ∧ later.GivesNoBlock middle name :=
  ⟨fun block mem => free block (second.subset mem),
    fun block mem same => first.subset (free block mem same)⟩

end Blocks

section Rules

theorem lookup_setRule_of_ne (draft : Draft) (alternatives : List Alternative)
    (different : other ≠ name) :
    (draft.setRule name alternatives).description.rules.lookup other =
      draft.description.rules.lookup other :=
  InsertionOrder.lookup_put_of_ne draft.description.rules alternatives different

theorem lookup_setRule_self (draft : Draft) (name : String) (alternatives : List Alternative) :
    (draft.setRule name alternatives).description.rules.lookup name = some alternatives :=
  InsertionOrder.lookup_put_self draft.description.rules name alternatives

theorem hasRule_setRule :
    (draft.setRule name alternatives).hasRule other ↔ draft.hasRule other ∨ other = name := by
  by_cases same : other = name
  · subst same
    simp [hasRule, lookup_setRule_self]
  · simp [hasRule, lookup_setRule_of_ne draft alternatives same, same]

theorem hasRule_openRule :
    (draft.openRule name).hasRule other ↔ draft.hasRule other ∨ other = name :=
  hasRule_setRule

theorem hasRule_openBlock (opened : draft.openBlock text = (name, later)) :
    later.hasRule other ↔ draft.hasRule other ∨ other = name := by
  cases opened
  exact hasRule_setRule

theorem lookup_openBlock_of_ne (opened : draft.openBlock text = (name, later))
    (different : other ≠ name) :
    later.description.rules.lookup other = draft.description.rules.lookup other := by
  cases opened
  exact lookup_setRule_of_ne (draft.mentionNonterminal _).2 [] different

/-- Reading inside a rule changes only the rules of the blocks that it meets for the first time. -/
theorem lookup_of_reads {part : Part} (reads : Reads part draft cursor later rest)
    (free : later.GivesNoBlock draft name) :
    later.description.rules.lookup name = draft.description.rules.lookup name := by
  induction reads with
  | lastAlternative _ _ _ _ inner => exact inner free
  | moreAlternatives _ first _ _ second inner others =>
      rcases free.mono first.grows.blocks second.grows.blocks with
        ⟨inner_free, others_free⟩
      exact (others others_free).trans (inner inner_free)
  | noElements _ => rfl
  | moreElements _ _ first second inner others =>
      rcases free.mono first.grows.blocks second.grows.blocks with
        ⟨inner_free, others_free⟩
      exact (others others_free).trans (inner inner_free)
  | atom _ read =>
      rcases readAtom_eq_ok read {} with ⟨rfl, _⟩
      rw [mention_rules]
  | knownBlock _ _ _ => rfl
  | @newBlock _ _ _ _ _ _ _ _ block _ _ _ unknown opened _ reads _ inner =>
      have block_mem := mem_blocks_of_reads opened reads
      -- The new block is not known, as its text is not, so it has another name.
      have inner_free := (free.mono (grows_openBlock opened).blocks reads.grows.blocks).2
      have different : name ≠ block := by
        rintro rfl
        simpa using List.lookup_eq_none_iff.1 unknown _ (free _ block_mem rfl)
      rw [lookup_setRule_of_ne _ _ different, inner inner_free]
      exact lookup_openBlock_of_ne opened different

/-- Whether the rules are those with the given names and those of the blocks. -/
def HoldsRules (draft : Draft) (names : List String) : Prop :=
  ∀ name, draft.hasRule name ↔ name ∈ names ∨ name ∈ draft.blockNames

variable {names : List String}

theorem HoldsRules.openRule (holds : draft.HoldsRules names) (name : String) :
    (draft.openRule name).HoldsRules (names ++ [name]) := by
  intro other
  rw [hasRule_openRule, holds other]
  simp [blockNames, or_right_comm]

theorem HoldsRules.openBlock (holds : draft.HoldsRules names)
    (opened : draft.openBlock text = (name, later)) : later.HoldsRules names := by
  intro other
  rw [hasRule_openBlock opened, holds other]
  simp [blockNames, blocks_openBlock opened, or_assoc]

theorem HoldsRules.setRule (holds : draft.HoldsRules names) (taken : draft.hasRule name)
    (alternatives : List Alternative) : (draft.setRule name alternatives).HoldsRules names := by
  intro other
  rw [hasRule_setRule]
  refine Iff.trans ?_ (holds other)
  constructor
  · rintro (known | rfl)
    · exact known
    · exact taken
  · exact Or.inl

/-- Reading inside a rule adds the rules of blocks only. -/
theorem HoldsRules.of_reads {part : Part} (reads : Reads part draft cursor later rest)
    (holds : draft.HoldsRules names) : later.HoldsRules names := by
  induction reads with
  | lastAlternative _ _ _ _ inner => exact inner holds
  | moreAlternatives _ _ _ _ _ inner others => exact others (inner holds)
  | noElements _ => exact holds
  | moreElements _ _ _ _ inner others => exact others (inner holds)
  | atom _ read =>
      rcases readAtom_eq_ok read {} with ⟨rfl, _⟩
      simpa only [HoldsRules, hasRule, blockNames, mention_rules, mention_blocks] using holds
  | knownBlock _ _ _ => exact holds
  | newBlock _ _ _ opened _ reads _ inner =>
      have inner_holds := inner (holds.openBlock opened)
      apply inner_holds.setRule
      rw [inner_holds]
      exact .inr (List.mem_map_of_mem (mem_blocks_of_reads opened reads))

end Rules

end Draft

namespace Cursor

/-- The cursor behind the modifiers of a rule. -/
def skipModifiers (cursor : Cursor) : Cursor :=
  ["public", "private", "protected"].foldl Draft.readItem.skipModifier cursor

/-- The cursor at the name of a parser rule, if the item that comes next is one. -/
def ruleName? (cursor : Cursor) : Option Cursor :=
  if (cursor.isAtWord "options" || cursor.isAtWord "tokens" || cursor.isAtWord "channels") &&
      cursor.kindAt? 1 = some .actionBlock then none
  else if cursor.isAtWord "import" || cursor.isAtWord "mode" || cursor.isAtWord "fragment" then none
  else if cursor.isAt .at then none
  else if cursor.skipModifiers.isAt .identifier then
    if isTokenName cursor.skipModifiers.text then none else some cursor.skipModifiers
  else none

end Cursor

/-- A place where a parser rule is defined. The name of the rule comes next. -/
structure Definition where
  draft : Draft
  cursor : Cursor
deriving DecidableEq, Repr

namespace Definition

/-- The name of the rule. -/
def name (definition : Definition) : String :=
  definition.cursor.text

/-- Whether the rule is passed over, since its name is taken. -/
def isPassedOver (definition : Definition) : Bool :=
  definition.draft.hasRule definition.name

/-- The cursor behind the colon of the rule. -/
def body (definition : Definition) : Except GrammarError Cursor := do
  let cursor ← Cursor.passPrelude definition.cursor.tokens.length definition.cursor.advance
  cursor.pass .colon "`:`"

/-- The alternatives that are read for the rule. -/
def alternatives (definition : Definition) :
    Except GrammarError (List Alternative × Draft × Cursor) := do
  let body ← definition.body
  Draft.readAlternatives definition.name (3 * body.tokens.length + 1)
    (definition.draft.openRule definition.name) body

end Definition

namespace Draft

/-- The definitions that are met when items are read up to the end of the text, or to a fault. -/
def definitions : (turns : Nat) → Draft → Cursor → List Definition
  | 0, _, _ => []
  | turns + 1, draft, cursor =>
    if cursor.tokens.isEmpty then []
    else
      cursor.ruleName?.toList.map (⟨draft, ·⟩) ++
        match draft.readItem cursor with
        | .ok (later, rest) => definitions turns later rest
        | .error _ => []

variable {draft later last : Draft} {cursor rest : Cursor} {name : String} {names : List String}
  {definition : Definition} {turns : Nat}

theorem readRule_eq_ok (definition : Definition)
    (read : definition.draft.readRule definition.cursor = .ok (later, rest)) :
    definition.isPassedOver ∧ later = definition.draft ∨
      ¬ definition.isPassedOver ∧ ∃ alternatives middle behind,
        definition.alternatives = .ok (alternatives, middle, behind) ∧
          later = middle.setRule definition.name alternatives := by
  rcases bind_eq_ok.1 read with ⟨start, prelude, read⟩
  dsimp only at read
  split at read
  · next taken =>
      rcases bind_eq_ok.1 read with ⟨⟨middle, ended⟩, passed, read⟩
      rcases bind_eq_ok.1 read with ⟨handled, _, finished⟩
      cases passed
      cases finished
      exact .inl ⟨taken, rfl⟩
  · next free =>
      rcases bind_eq_ok.1 read with ⟨body, colon, read⟩
      rcases bind_eq_ok.1 read with ⟨⟨filled, ended⟩, whole, read⟩
      rcases bind_eq_ok.1 read with ⟨handled, _, finished⟩
      rcases bind_eq_ok.1 whole with ⟨⟨alternatives, middle, behind⟩, inner, whole⟩
      rcases bind_eq_ok.1 whole with ⟨semicolon, _, whole⟩
      cases whole
      cases finished
      have body_eq : definition.body = .ok body := bind_eq_ok.2 ⟨start, prelude, colon⟩
      exact .inr ⟨free, alternatives, middle, behind, bind_eq_ok.2 ⟨body, body_eq, inner⟩, rfl⟩

theorem reads_of_alternatives {alternatives : List Alternative} {middle : Draft} {behind : Cursor}
    (read : definition.alternatives = .ok (alternatives, middle, behind)) :
    ∃ body, definition.body = .ok body ∧
      Reads (.alternatives alternatives) (definition.draft.openRule definition.name) body middle
        behind := by
  rcases bind_eq_ok.1 read with ⟨body, body_eq, inner⟩
  exact ⟨body, body_eq, (reads_of_eq_ok _ _).1 _ body _ _ _ (Nat.lt_succ_self _) inner⟩

theorem readItem_eq_ok (read : draft.readItem cursor = .ok (later, rest)) :
    cursor.ruleName? = none ∧ later = draft ∨
      ∃ start, cursor.ruleName? = some start ∧ draft.readRule start = .ok (later, rest) := by
  rw [readItem] at read
  dsimp only at read
  unfold Cursor.ruleName?
  split at read
  · next section_ahead =>
      cases read
      exact .inl ⟨if_pos section_ahead, rfl⟩
  · next no_section =>
      rw [if_neg no_section]
      split at read
      · next skipped =>
          cases read
          exact .inl ⟨if_pos skipped, rfl⟩
      · next not_skipped =>
          rw [if_neg not_skipped]
          split at read
          · next action =>
              rcases bind_eq_ok.1 read with ⟨ended, _, finished⟩
              cases finished
              exact .inl ⟨if_pos action, rfl⟩
          · next no_action =>
              rw [if_neg no_action]
              split at read
              · next named =>
                  split at read
                  · next upper =>
                      cases read
                      exact .inl ⟨(if_pos named).trans (if_pos upper), rfl⟩
                  · next lower =>
                      exact .inr ⟨_, (if_pos named).trans (if_neg lower), read⟩
              · cases read

/-- An item changes nothing, or it is a rule with a new name that is read. -/
theorem readItem_changes (read : draft.readItem cursor = .ok (later, rest)) :
    (∀ start, cursor.ruleName? = some start → draft.hasRule start.text) ∧ later = draft ∨
      ∃ start alternatives middle behind body, cursor.ruleName? = some start ∧
        ¬ draft.hasRule start.text ∧
        Definition.alternatives ⟨draft, start⟩ = .ok (alternatives, middle, behind) ∧
        Definition.body ⟨draft, start⟩ = .ok body ∧
        Reads (.alternatives alternatives) (draft.openRule start.text) body middle behind ∧
        later = middle.setRule start.text alternatives := by
  rcases readItem_eq_ok read with ⟨no_rule, rfl⟩ | ⟨start, rule, rule_read⟩
  · exact .inl ⟨by simp [no_rule], rfl⟩
  · rcases readRule_eq_ok ⟨draft, start⟩ rule_read with
      ⟨taken, later_eq⟩ | ⟨untaken, alternatives, middle, behind, found, later_eq⟩
    · refine .inl ⟨?_, later_eq⟩
      intro other other_rule
      obtain rfl := Option.some.inj (rule.symm.trans other_rule)
      exact taken
    · rcases reads_of_alternatives found with ⟨body, body_eq, reads⟩
      exact .inr ⟨start, alternatives, middle, behind, body, rule, untaken, found, body_eq, reads,
        later_eq⟩

theorem blocks_prefix_of_readItem (read : draft.readItem cursor = .ok (later, rest)) :
    draft.blocks <+: later.blocks := by
  rcases readItem_changes read with
    ⟨_, rfl⟩ | ⟨start, alternatives, middle, behind, body, _, _, _, _, reads, rfl⟩
  · exact List.prefix_rfl
  · exact reads.grows.blocks

/-- An item adds the name that it defines, and the rules of blocks. -/
theorem HoldsRules.of_readItem (holds : draft.HoldsRules names)
    (read : draft.readItem cursor = .ok (later, rest)) :
    later.HoldsRules (names ++ cursor.ruleName?.toList.map Cursor.text) := by
  rcases readItem_changes read with
    ⟨taken, rfl⟩ | ⟨start, alternatives, middle, behind, body, rule, _, _, _, reads, rfl⟩
  · intro name
    cases rule : cursor.ruleName? with
    | none => simpa using holds name
    | some start =>
        have start_taken := taken start rule
        rw [holds] at start_taken
        by_cases same : name = start.text
        · subst same
          simpa [holds _] using start_taken
        · simp [holds name, same]
  · have inner := (holds.openRule start.text).of_reads reads
    simp only [rule, Option.toList_some, List.map_cons, List.map_nil]
    apply inner.setRule
    rw [inner]
    exact .inl (by simp)

/-- An item gives a rule that is there no other alternatives, unless a block gets its name. -/
theorem lookup_of_readItem (read : draft.readItem cursor = .ok (later, rest))
    (taken : draft.hasRule name) (free : later.GivesNoBlock draft name) :
    later.description.rules.lookup name = draft.description.rules.lookup name := by
  rcases readItem_changes read with
    ⟨_, rfl⟩ | ⟨start, alternatives, middle, behind, body, _, untaken, _, _, reads, rfl⟩
  · rfl
  · have different : name ≠ start.text := by
      rintro rfl
      exact untaken taken
    rw [lookup_setRule_of_ne _ _ different, lookup_of_reads reads free]
    exact lookup_setRule_of_ne _ _ different

section Run

variable {before after : List Definition}

theorem definitions_of_ne_nil (turns : Nat) (draft : Draft) (more : ¬ cursor.tokens.isEmpty) :
    definitions (turns + 1) draft cursor =
      cursor.ruleName?.toList.map (⟨draft, ·⟩) ++
        match draft.readItem cursor with
        | .ok (later, rest) => definitions turns later rest
        | .error _ => [] :=
  if_neg more

/-- A definition is that of the item that comes next, or it is met behind that item. -/
theorem definitions_eq_append
    (whole : definitions (turns + 1) draft cursor = before ++ definition :: after) :
    ¬ cursor.tokens.isEmpty ∧
      (before = [] ∧ definition.draft = draft ∧ cursor.ruleName? = some definition.cursor ∨
        ∃ later rest others, draft.readItem cursor = .ok (later, rest) ∧
          before = cursor.ruleName?.toList.map (⟨draft, ·⟩) ++ others ∧
          definitions turns later rest = others ++ definition :: after) := by
  by_cases more : cursor.tokens.isEmpty
  · simp [definitions, more] at whole
  rw [definitions_of_ne_nil turns draft more] at whole
  refine ⟨more, ?_⟩
  cases rule : cursor.ruleName? with
  | none =>
      cases read : draft.readItem cursor with
      | error fault => simp [rule, read] at whole
      | ok reached =>
          rw [rule, read] at whole
          exact .inr ⟨reached.1, reached.2, before, rfl, rfl, whole⟩
  | some start =>
      rw [rule] at whole
      cases before with
      | nil =>
          cases (List.cons.inj whole).1
          exact .inl ⟨rfl, rfl, rfl⟩
      | cons first others =>
          rcases List.cons.inj whole with ⟨rfl, behind⟩
          cases read : draft.readItem cursor with
          | error fault => simp [read] at behind
          | ok reached =>
              rw [read] at behind
              exact .inr ⟨reached.1, reached.2, others, rfl, rfl, behind⟩

/-- In front of a definition there are the rules of the earlier ones and those of blocks. -/
theorem HoldsRules.of_definitions (holds : draft.HoldsRules names)
    (whole : definitions turns draft cursor = before ++ definition :: after) :
    definition.draft.HoldsRules (names ++ before.map Definition.name) := by
  induction turns generalizing draft cursor names before with
  | zero => simp [definitions] at whole
  | succ turns ih =>
      rcases definitions_eq_append whole with
        ⟨_, ⟨rfl, rfl, _⟩ | ⟨later, rest, others, read, rfl, behind⟩⟩
      · simpa using holds
      · have held := ih (holds.of_readItem read) behind
        simpa [Function.comp_def, Definition.name] using held

theorem blocks_prefix_of_readItems (read : readItems turns draft cursor = .ok last) :
    draft.blocks <+: last.blocks := by
  induction turns generalizing draft cursor with
  | zero =>
      cases read
      exact List.prefix_rfl
  | succ turns ih =>
      rw [readItems] at read
      split at read
      · cases read
        exact List.prefix_rfl
      · rcases bind_eq_ok.1 read with ⟨⟨middle, behind⟩, item, others⟩
        exact (blocks_prefix_of_readItem item).trans (ih others)

theorem HoldsRules.of_readItems (holds : draft.HoldsRules names)
    (read : readItems turns draft cursor = .ok last) :
    last.HoldsRules (names ++ (definitions turns draft cursor).map Definition.name) := by
  induction turns generalizing draft cursor names with
  | zero =>
      cases read
      simpa [definitions] using holds
  | succ turns ih =>
      rw [readItems] at read
      split at read
      · next ended =>
          cases read
          simpa [definitions, ended] using holds
      · next more =>
          rcases bind_eq_ok.1 read with ⟨⟨middle, behind⟩, item, others⟩
          have held := ih (holds.of_readItem item) others
          rw [definitions_of_ne_nil turns draft more, item]
          simpa [Function.comp_def, Definition.name] using held

/-- A rule that is there stays what it is while items are read, unless a block gets its name. -/
theorem lookup_of_readItems (read : readItems turns draft cursor = .ok last)
    (taken : draft.hasRule name) (free : last.GivesNoBlock draft name) :
    last.description.rules.lookup name = draft.description.rules.lookup name := by
  induction turns generalizing draft cursor with
  | zero =>
      cases read
      rfl
  | succ turns ih =>
      rw [readItems] at read
      split at read
      · cases read
        rfl
      · rcases bind_eq_ok.1 read with ⟨⟨middle, behind⟩, item, others⟩
        rcases free.mono (blocks_prefix_of_readItem item) (blocks_prefix_of_readItems others) with
          ⟨item_free, others_free⟩
        have kept := lookup_of_readItem item taken item_free
        have still_taken : middle.hasRule name := by
          rwa [hasRule, kept]
        exact (ih others still_taken others_free).trans kept

/-- Items are read from each definition on. -/
theorem exists_readItems_of_definitions (read : readItems turns draft cursor = .ok last)
    (whole : definitions turns draft cursor = before ++ definition :: after) :
    ∃ fewer start middle rest, start.ruleName? = some definition.cursor ∧
      definition.draft.readItem start = .ok (middle, rest) ∧
      readItems fewer middle rest = .ok last := by
  induction turns generalizing draft cursor before with
  | zero => simp [definitions] at whole
  | succ turns ih =>
      rcases definitions_eq_append whole with ⟨more, here⟩
      rw [readItems, if_neg more] at read
      rcases bind_eq_ok.1 read with ⟨⟨middle, behind⟩, item, others⟩
      rcases here with ⟨rfl, rfl, rule⟩ | ⟨later, rest, ahead, item_read, rfl, whole_behind⟩
      · exact ⟨turns, cursor, middle, behind, rule, item, others⟩
      · cases item.symm.trans item_read
        exact ih others whole_behind

/--
A definition that is not passed over gives its rule the alternatives that are read for it. They are
those of the rule in the end, unless a block that is met behind it gets its name.
-/
theorem rule_of_readItems (read : readItems turns draft cursor = .ok last)
    (whole : definitions turns draft cursor = before ++ definition :: after) :
    definition.draft.blocks <+: last.blocks ∧
      (¬ definition.isPassedOver → ∃ alternatives middle behind,
        definition.alternatives = .ok (alternatives, middle, behind) ∧
          (last.GivesNoBlock middle definition.name →
            last.description.rules.lookup definition.name = some alternatives)) := by
  rcases exists_readItems_of_definitions read whole with
    ⟨fewer, start, filled, rest, rule, item, others⟩
  refine ⟨(blocks_prefix_of_readItem item).trans (blocks_prefix_of_readItems others), ?_⟩
  intro untaken
  rcases readItem_changes item with
    ⟨taken, rfl⟩ | ⟨_, alternatives, middle, behind, body, rule_eq, _, found, _, _, rfl⟩
  · exact absurd (taken _ rule) untaken
  · obtain rfl := Option.some.inj (rule.symm.trans rule_eq)
    refine ⟨alternatives, middle, behind, found, ?_⟩
    intro free
    have taken : (middle.setRule definition.name alternatives).hasRule definition.name :=
      hasRule_setRule.2 (.inr rfl)
    exact (lookup_of_readItems others taken free).trans (lookup_setRule_self _ _ _)

/-- Where no rule is there at first, a name is taken by an earlier definition or by a block. -/
theorem isPassedOver_iff (holds : draft.HoldsRules [])
    (whole : definitions turns draft cursor = before ++ definition :: after) :
    definition.isPassedOver ↔ (∃ earlier ∈ before, earlier.name = definition.name) ∨
      definition.name ∈ definition.draft.blockNames := by
  have held := holds.of_definitions whole definition.name
  change definition.draft.hasRule definition.name ↔ _
  simpa using held

/-- The first definition of a name that no block gets gives the rule of that name. -/
theorem rule_of_first_definition (holds : draft.HoldsRules [])
    (read : readItems turns draft cursor = .ok last)
    (whole : definitions turns draft cursor = before ++ definition :: after)
    (no_block : definition.name ∉ last.blockNames) :
    (definition.isPassedOver ↔ ∃ earlier ∈ before, earlier.name = definition.name) ∧
      ((∀ earlier ∈ before, earlier.name ≠ definition.name) → ∃ alternatives middle behind,
        definition.alternatives = .ok (alternatives, middle, behind) ∧
          last.description.rules.lookup definition.name = some alternatives) := by
  rcases rule_of_readItems read whole with ⟨blocks_kept, kept⟩
  have no_earlier_block : definition.name ∉ definition.draft.blockNames := by
    intro mem
    exact no_block (List.map_subset _ blocks_kept.subset mem)
  have passed_over := isPassedOver_iff holds whole
  simp only [no_earlier_block, or_false] at passed_over
  refine ⟨passed_over, ?_⟩
  intro first
  have untaken : ¬ definition.isPassedOver := by
    rw [passed_over]
    rintro ⟨earlier, mem, same⟩
    exact first earlier mem same
  rcases kept untaken with ⟨alternatives, middle, behind, found, rule_eq⟩
  refine ⟨alternatives, middle, behind, found, rule_eq ?_⟩
  intro block mem same
  exact absurd (List.mem_map.2 ⟨block, mem, same⟩) no_block

end Run

/-- A header says at most the name of the grammar. -/
theorem readHeader_eq_ok (read : readHeader cursor = .ok (draft, rest)) :
    ∃ name, draft = { description := { name := name } } := by
  have named {lexerOnly : Bool} {cursor : Cursor}
      (read : readHeader.named lexerOnly cursor = .ok (draft, rest)) :
      ∃ name, draft = { description := { name := name } } := by
    rcases bind_eq_ok.1 read with ⟨⟨name, behind⟩, _, read⟩
    rcases bind_eq_ok.1 read with ⟨ended, _, read⟩
    split at read
    · cases read
    · cases read
      exact ⟨some name, rfl⟩
  rw [readHeader] at read
  split at read
  · exact named read
  · split at read
    · exact named read
    · cases read
      exact ⟨none, rfl⟩

theorem holdsRules_readHeader (read : readHeader cursor = .ok (draft, rest)) :
    draft.HoldsRules [] := by
  rcases readHeader_eq_ok read with ⟨name, rfl⟩
  simp [HoldsRules, hasRule, blockNames]

end Draft

/-- What is read from a source text, with the blocks that were met. -/
def readDraft (source : String) : Except GrammarError Draft := do
  let (draft, cursor) ← Draft.readHeader { tokens := tokens source, lastLine := lastLine source }
  Draft.readItems cursor.tokens.length draft cursor

/-- The definitions of parser rules in a source text, up to a fault if there is one. -/
def definitions (source : String) : List Definition :=
  match Draft.readHeader { tokens := tokens source, lastLine := lastLine source } with
  | .ok (draft, cursor) => Draft.definitions cursor.tokens.length draft cursor
  | .error _ => []

/--
The rules of a grammar are those of its definitions and those of its blocks. A definition is passed
over when an earlier one has its name, or an earlier block. Otherwise its rule has the alternatives
that are read for it, unless a later block gets its name. So the first definition of a name that no
block gets is the one that counts.
-/
theorem rules_of_definitions {source : String} {description : Description}
    (parsed : parse source = .ok description) :
    ∃ draft, readDraft source = .ok draft ∧ draft.description = description ∧
      (∀ name, draft.hasRule name ↔
        (∃ definition ∈ definitions source, definition.name = name) ∨ name ∈ draft.blockNames) ∧
      ∀ before definition after, definitions source = before ++ definition :: after →
        (definition.isPassedOver ↔
          (∃ earlier ∈ before, earlier.name = definition.name) ∨
            definition.name ∈ definition.draft.blockNames) ∧
        (¬ definition.isPassedOver → ∃ alternatives middle behind,
          definition.alternatives = .ok (alternatives, middle, behind) ∧
            (draft.GivesNoBlock middle definition.name →
              description.rules.lookup definition.name = some alternatives)) ∧
        (definition.name ∉ draft.blockNames →
          (definition.isPassedOver ↔ ∃ earlier ∈ before, earlier.name = definition.name) ∧
          ((∀ earlier ∈ before, earlier.name ≠ definition.name) →
            ∃ alternatives middle behind,
              definition.alternatives = .ok (alternatives, middle, behind) ∧
                description.rules.lookup definition.name = some alternatives)) := by
  rcases bind_eq_ok.1 parsed with ⟨⟨draft, cursor⟩, header, parsed⟩
  rcases bind_eq_ok.1 parsed with ⟨last, items, parsed⟩
  have definitions_eq : definitions source =
      Draft.definitions cursor.tokens.length draft cursor := by
    rw [definitions, header]
  have holds := Draft.holdsRules_readHeader header
  split at parsed
  · cases parsed
    refine ⟨last, bind_eq_ok.2 ⟨_, header, items⟩, rfl, ?_, ?_⟩
    · intro name
      have held := holds.of_readItems items name
      simpa [definitions_eq] using held
    · intro before definition after whole
      rw [definitions_eq] at whole
      exact ⟨Draft.isPassedOver_iff holds whole, (Draft.rule_of_readItems items whole).2,
        Draft.rule_of_first_definition holds items whole⟩
  · cases parsed

/-- A rule with a block, and another one that is defined twice. -/
def pairs : Description :=
  { start := some "s"
    terminals := ["A", "B"]
    nonterminals := ["s", "_new_rule_1", "t"]
    rules :=
      [("s", [[.bare ⟨"_new_rule_1", .nonterminal⟩, .bare ⟨"t", .nonterminal⟩]]),
        ("_new_rule_1", [[.bare ⟨"A", .terminal⟩]]),
        ("t", [[.bare ⟨"B", .terminal⟩]])] }

theorem rules_of_definitions_pairs :
    parse "s : (A) t ; t : B ; t : C ;" = .ok pairs ∧
      (definitions "s : (A) t ; t : B ; t : C ;").map Definition.isPassedOver =
        [false, false, true] ∧
      ∃ definition ∈ definitions "s : (A) t ; t : B ; t : C ;",
        ∃ alternatives middle behind,
          definition.alternatives = .ok (alternatives, middle, behind) ∧
            pairs.rules.lookup "t" = some alternatives := by
  have parsed : parse "s : (A) t ; t : B ; t : C ;" = .ok pairs := by rfl
  have whole : ∃ before definition after,
      definitions "s : (A) t ; t : B ; t : C ;" = before ++ definition :: after ∧
        before.map Definition.name = ["s"] ∧ definition.name = "t" :=
    ⟨(definitions "s : (A) t ; t : B ; t : C ;").take 1, _, _, rfl, rfl, rfl⟩
  have blocks : (readDraft "s : (A) t ; t : B ; t : C ;").map Draft.blockNames =
      .ok ["_new_rule_1"] := by rfl
  rcases whole with ⟨before, definition, after, whole, names, name_eq⟩
  rcases rules_of_definitions parsed with ⟨draft, read, _, _, each⟩
  rw [read] at blocks
  have no_block : definition.name ∉ draft.blockNames := by
    rw [Except.ok.inj blocks, name_eq]
    decide
  have first : ∀ earlier ∈ before, earlier.name ≠ definition.name := by
    intro earlier mem same
    have named : earlier.name ∈ before.map Definition.name := List.mem_map_of_mem mem
    rw [names, same, name_eq] at named
    revert named
    decide
  rcases ((each before definition after whole).2.2 no_block).2 first with
    ⟨alternatives, middle, behind, found, rule_eq⟩
  rw [name_eq] at rule_eq
  refine ⟨parsed, rfl, definition, ?_, alternatives, middle, behind, found, rule_eq⟩
  rw [whole]
  exact List.mem_append_right before List.mem_cons_self

/-- A block takes the name of the rule behind it, and of the rule in front of it. -/
theorem rules_lost_to_blocks :
    ((definitions "s : (A) ; _new_rule_1 : B ;").map Definition.name = ["s", "_new_rule_1"] ∧
      (definitions "s : (A) ; _new_rule_1 : B ;").map Definition.isPassedOver = [false, true] ∧
      (parse "s : (A) ; _new_rule_1 : B ;").map (·.rules.lookup "_new_rule_1") =
        .ok (some [[.bare ⟨"A", .terminal⟩]])) ∧
    ((definitions "_new_rule_1 : B ; s : (A) ;").map Definition.name = ["_new_rule_1", "s"] ∧
      (definitions "_new_rule_1 : B ; s : (A) ;").map Definition.isPassedOver = [false, false] ∧
      (definitions "_new_rule_1 : B ; s : (A) ;").map (·.alternatives.map Prod.fst) =
        [.ok [[.bare ⟨"B", .terminal⟩]], .ok [[.bare ⟨"_new_rule_1", .nonterminal⟩]]] ∧
      (parse "_new_rule_1 : B ; s : (A) ;").map (·.rules.lookup "_new_rule_1") =
        .ok (some [[.bare ⟨"A", .terminal⟩]])) :=
  ⟨⟨rfl, rfl, rfl⟩, rfl, rfl, rfl, rfl⟩

end VisiblyPushdown.Source
