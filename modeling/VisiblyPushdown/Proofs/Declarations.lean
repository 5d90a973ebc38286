import VisiblyPushdown.Proofs.Reading
import VisiblyPushdown.Proofs.Resolve

/-!
# Declarations of a parsed grammar

A grammar that was read from source text declares everything that it mentions, so it always
resolves. A draft is closed when this holds of what was read so far. Readers declare each symbol
together with the place where it is mentioned and take no declaration back. The names of blocks are
part of the invariant, since a block that was read before is mentioned again by its name alone.
-/

namespace VisiblyPushdown.Source

/-- Whether a symbol is mentioned by a part of a rule. -/
def Part.Mentions : Part → Symbol → Prop
  | .alternatives found, symbol =>
    ∃ alternative ∈ found, ∃ occurrence ∈ alternative, occurrence.symbol = symbol
  | .elements alternative, symbol => ∃ occurrence ∈ alternative, occurrence.symbol = symbol
  | .element found, symbol => found = symbol

namespace Draft

variable {draft earlier middle later : Draft} {name : String} {symbol : Symbol}
  {cursor rest : Cursor}

/-- Whether a symbol is declared with its kind, so far. -/
def Declares (draft : Draft) (symbol : Symbol) : Prop :=
  draft.description.declares symbol

theorem declares_terminal :
    draft.Declares ⟨name, .terminal⟩ ↔ name ∈ draft.description.terminals :=
  decide_eq_true_iff

theorem declares_nonterminal :
    draft.Declares ⟨name, .nonterminal⟩ ↔
      name ∈ draft.description.nonterminals ∨ (draft.description.rules.lookup name).isSome := by
  simp only [Declares, Description.declares, Description.declaresNonterminal, Bool.or_eq_true,
    decide_eq_true_iff]

theorem declares_mentionTerminal :
    (draft.mentionTerminal name).2.Declares symbol ↔
      draft.Declares symbol ∨ symbol = ⟨name, .terminal⟩ := by
  rcases symbol with ⟨other, kind⟩
  cases kind with
  | terminal => simp [declares_terminal, mentionTerminal]
  | nonterminal => simp [declares_nonterminal, mentionTerminal]

theorem declares_mentionNonterminal :
    (draft.mentionNonterminal name).2.Declares symbol ↔
      draft.Declares symbol ∨ symbol = ⟨name, .nonterminal⟩ := by
  rcases symbol with ⟨other, kind⟩
  cases kind with
  | terminal => simp [declares_terminal, mentionNonterminal]
  | nonterminal => simp [declares_nonterminal, mentionNonterminal, or_right_comm]

theorem declares_setRule {alternatives : List Alternative} :
    (draft.setRule name alternatives).Declares symbol ↔
      draft.Declares symbol ∨ symbol = ⟨name, .nonterminal⟩ := by
  rcases symbol with ⟨other, kind⟩
  cases kind with
  | terminal => simp [declares_terminal, setRule]
  | nonterminal =>
      by_cases same : other = name
      · simp [declares_nonterminal, setRule, same]
      · simp [declares_nonterminal, setRule, same, InsertionOrder.lookup_put_of_ne]

/-- Whether everything that a draft mentions is declared. -/
structure IsClosed (draft : Draft) : Prop where
  start : ∀ name, draft.description.start = some name → draft.Declares ⟨name, .nonterminal⟩
  rules : ∀ rule ∈ draft.description.rules, ∀ alternative ∈ rule.2, ∀ occurrence ∈ alternative,
    draft.Declares occurrence.symbol
  blocks : ∀ block ∈ draft.blocks, draft.Declares ⟨block.2, .nonterminal⟩

/-- Whether a draft is closed and declares what another one declares. -/
structure Extends (later earlier : Draft) : Prop where
  closed : later.IsClosed
  keeps : ∀ symbol, earlier.Declares symbol → later.Declares symbol

theorem IsClosed.extends (closed : draft.IsClosed) : draft.Extends draft :=
  ⟨closed, fun _ declared => declared⟩

theorem Extends.trans (second : later.Extends middle) (first : middle.Extends earlier) :
    later.Extends earlier :=
  ⟨second.closed, fun symbol declared => second.keeps symbol (first.keeps symbol declared)⟩

/-- More declarations alone leave a draft closed. -/
theorem IsClosed.extends_of_eq (closed : draft.IsClosed)
    (keeps : ∀ symbol, draft.Declares symbol → later.Declares symbol)
    (start_eq : later.description.start = draft.description.start)
    (rules_eq : later.description.rules = draft.description.rules)
    (blocks_eq : later.blocks = draft.blocks) : later.Extends draft := by
  refine ⟨⟨?_, ?_, ?_⟩, keeps⟩
  · rw [start_eq]
    exact fun name found => keeps _ (closed.start name found)
  · rw [rules_eq]
    exact fun rule rule_mem alternative mem occurrence occurrence_mem =>
      keeps _ (closed.rules rule rule_mem alternative mem occurrence occurrence_mem)
  · rw [blocks_eq]
    exact fun block mem => keeps _ (closed.blocks block mem)

theorem extends_mentionTerminal (closed : draft.IsClosed) (name : String) :
    (draft.mentionTerminal name).2.Extends draft :=
  closed.extends_of_eq (fun _ declared => declares_mentionTerminal.2 (.inl declared)) rfl rfl rfl

theorem extends_mentionNonterminal (closed : draft.IsClosed) (name : String) :
    (draft.mentionNonterminal name).2.Extends draft :=
  closed.extends_of_eq (fun _ declared => declares_mentionNonterminal.2 (.inl declared)) rfl rfl rfl

theorem extends_setRule (closed : draft.IsClosed) (name : String) {alternatives : List Alternative}
    (declared : ∀ symbol, (Part.alternatives alternatives).Mentions symbol →
      draft.Declares symbol) : (draft.setRule name alternatives).Extends draft := by
  have keeps (symbol : Symbol) (known : draft.Declares symbol) :
      (draft.setRule name alternatives).Declares symbol :=
    declares_setRule.2 (.inl known)
  refine ⟨⟨?_, ?_, ?_⟩, keeps⟩
  · exact fun start found => keeps _ (closed.start start found)
  · intro rule rule_mem alternative mem occurrence occurrence_mem
    apply keeps
    rcases InsertionOrder.mem_of_mem_put rule_mem with rfl | rule_mem
    · exact declared occurrence.symbol ⟨alternative, mem, occurrence, occurrence_mem, rfl⟩
    · exact closed.rules rule rule_mem alternative mem occurrence occurrence_mem
  · exact fun block mem => keeps _ (closed.blocks block mem)

/-- A name with an empty rule. -/
theorem extends_setRule_mentionNonterminal (closed : draft.IsClosed) (name : String) :
    ((draft.mentionNonterminal name).2.setRule name []).Extends draft :=
  (extends_setRule (extends_mentionNonterminal closed name).closed name
    (by simp [Part.Mentions])).trans
    (extends_mentionNonterminal closed name)

theorem extends_openRule (closed : draft.IsClosed) (name : String) :
    (draft.openRule name).Extends draft ∧ (draft.openRule name).Declares ⟨name, .nonterminal⟩ := by
  have opened := extends_setRule_mentionNonterminal closed name
  have named : ((draft.mentionNonterminal name).2.setRule name []).Declares ⟨name, .nonterminal⟩ :=
    declares_setRule.2 (.inr rfl)
  refine ⟨⟨⟨?_, opened.closed.rules, opened.closed.blocks⟩, opened.keeps⟩, named⟩
  intro start found
  have start_eq : draft.description.start.getD name = start := Option.some.inj found
  cases known : draft.description.start with
  | none =>
      rw [known, Option.getD_none] at start_eq
      exact start_eq ▸ named
  | some first =>
      rw [known, Option.getD_some] at start_eq
      exact opened.closed.start start (start_eq ▸ known)

theorem extends_openBlock (closed : draft.IsClosed) (text : String) :
    (draft.openBlock text).2.Extends draft ∧
      (draft.openBlock text).2.Declares ⟨(draft.openBlock text).1, .nonterminal⟩ := by
  have opened := extends_setRule_mentionNonterminal closed (draft.openBlock text).1
  have named : (draft.openBlock text).2.Declares ⟨(draft.openBlock text).1, .nonterminal⟩ :=
    declares_setRule.2 (.inr rfl)
  refine ⟨⟨⟨opened.closed.start, opened.closed.rules, ?_⟩, opened.keeps⟩, named⟩
  intro block mem
  rcases List.mem_append.1 mem with mem | mem
  · exact opened.closed.blocks block mem
  · rw [List.mem_singleton.1 mem]
    exact named

section Readers

variable (closed : draft.IsClosed)

include closed

theorem readName_spec (cursor : Cursor) :
    (draft.readName cursor).2.1.Extends draft ∧
      (draft.readName cursor).2.1.Declares (draft.readName cursor).1 := by
  unfold readName
  split
  · exact ⟨extends_mentionTerminal closed _, declares_mentionTerminal.2 (.inr rfl)⟩
  · exact ⟨extends_mentionNonterminal closed _, declares_mentionNonterminal.2 (.inr rfl)⟩

theorem readPlainAtom_spec (read : draft.readPlainAtom cursor = .ok (symbol, later, rest)) :
    later.Extends draft ∧ later.Declares symbol := by
  have terminal (name : String) : (draft.mentionTerminal name).2.Extends draft ∧
      (draft.mentionTerminal name).2.Declares (draft.mentionTerminal name).1 :=
    ⟨extends_mentionTerminal closed name, declares_mentionTerminal.2 (.inr rfl)⟩
  unfold readPlainAtom at read
  split at read
  · simp only [readLiteral] at read
    split at read
    · rcases bind_eq_ok.1 read with ⟨ended, passed, finished⟩
      cases finished
      exact terminal _
    · cases read
      exact terminal _
  · have spec := readName_spec closed cursor
    rw [Except.ok.inj read] at spec
    exact spec
  · cases read
    exact terminal "."
  · rcases bind_eq_ok.1 read with ⟨length, found, finished⟩
    cases finished
    exact terminal _
  · cases read

theorem readAtom_spec (read : draft.readAtom cursor = .ok (symbol, later, rest)) :
    later.Extends draft ∧ later.Declares symbol := by
  rcases bind_eq_ok.1 read with ⟨⟨symbol, middle, behind⟩, plain, finished⟩
  rcases bind_eq_ok.1 finished with ⟨ended, skipped, finished⟩
  cases finished
  exact readPlainAtom_spec closed plain

end Readers

end Draft

open Draft in
/-- A reading keeps a draft closed and declares what it read. -/
theorem Reads.extends {part : Part} {draft later : Draft} {cursor rest : Cursor}
    (reads : Reads part draft cursor later rest) (closed : draft.IsClosed) :
    later.Extends draft ∧ ∀ symbol, part.Mentions symbol → later.Declares symbol := by
  induction reads with
  | lastAlternative _ _ _ _ inner =>
      rcases inner closed with ⟨first, declared⟩
      refine ⟨first, ?_⟩
      rintro symbol ⟨alternative, mem, mentioned⟩
      rw [List.mem_singleton] at mem
      subst mem
      exact declared symbol mentioned
  | moreAlternatives _ _ _ _ _ inner others =>
      rcases inner closed with ⟨first, declared⟩
      rcases others first.closed with ⟨second, others_declared⟩
      refine ⟨second.trans first, ?_⟩
      rintro symbol ⟨alternative, mem, mentioned⟩
      rcases List.mem_cons.1 mem with rfl | mem
      · exact second.keeps symbol (declared symbol mentioned)
      · exact others_declared symbol ⟨alternative, mem, mentioned⟩
  | noElements _ =>
      refine ⟨closed.extends, ?_⟩
      rintro symbol ⟨occurrence, mem, _⟩
      cases mem
  | moreElements _ _ _ _ inner others =>
      rcases inner closed with ⟨first, declared⟩
      rcases others first.closed with ⟨second, others_declared⟩
      refine ⟨second.trans first, ?_⟩
      rintro symbol ⟨occurrence, mem, mentioned⟩
      rcases List.mem_cons.1 mem with rfl | mem
      · exact second.keeps symbol (declared symbol mentioned)
      · exact others_declared symbol ⟨occurrence, mem, mentioned⟩
  | atom _ read =>
      rcases readAtom_spec closed read with ⟨atom, declared⟩
      refine ⟨atom, ?_⟩
      rintro symbol rfl
      exact declared
  | knownBlock _ _ known =>
      refine ⟨closed.extends, ?_⟩
      rintro symbol rfl
      -- Nothing is read here, so the declaration is the one from when the block was opened.
      exact closed.blocks _ (InsertionOrder.mem_of_lookup_eq_some known)
  | @newBlock draft _ _ cursor _ _ _ closing name _ _ _ _ opened _ _ _ inner =>
      rcases extends_openBlock closed (joinedText cursor.tokens (closing + 1)) with ⟨start, named⟩
      rw [opened] at start named
      rcases inner start.closed with ⟨second, declared⟩
      have filled := extends_setRule second.closed name declared
      refine ⟨filled.trans (second.trans start), ?_⟩
      rintro symbol rfl
      exact filled.keeps _ (second.keeps _ named)

namespace Draft

variable {draft later : Draft} {cursor rest : Cursor}

section Items

variable (closed : draft.IsClosed)

include closed

theorem readBody_extends {name : String} (read : draft.readBody name cursor = .ok (later, rest)) :
    later.Extends draft := by
  rcases readBody_eq_ok read with ⟨alternatives, middle, behind, inner, _, rfl⟩
  have opened := (extends_openRule closed name).1
  rcases inner.extends opened.closed with ⟨second, declared⟩
  have filled := extends_setRule second.closed name declared
  exact filled.trans (second.trans opened)

theorem readRule_extends (read : draft.readRule cursor = .ok (later, rest)) :
    later.Extends draft := by
  rcases bind_eq_ok.1 read with ⟨behind, _, read⟩
  dsimp only at read
  split at read
  · rcases bind_eq_ok.1 read with ⟨⟨middle, ended⟩, passed, read⟩
    rcases bind_eq_ok.1 read with ⟨handled, _, finished⟩
    cases passed
    cases finished
    exact closed.extends
  · rcases bind_eq_ok.1 read with ⟨start, _, read⟩
    rcases bind_eq_ok.1 read with ⟨⟨middle, ended⟩, body, read⟩
    rcases bind_eq_ok.1 read with ⟨handled, _, finished⟩
    cases finished
    exact readBody_extends closed body

theorem readItem_extends (read : draft.readItem cursor = .ok (later, rest)) :
    later.Extends draft := by
  rw [readItem] at read
  dsimp only at read
  split at read
  · cases read
    exact closed.extends
  · split at read
    · cases read
      exact closed.extends
    · split at read
      · rcases bind_eq_ok.1 read with ⟨ended, _, finished⟩
        cases finished
        exact closed.extends
      · split at read
        · split at read
          · cases read
            exact closed.extends
          · exact readRule_extends closed read
        · cases read

theorem readItems_extends {turns : Nat} (read : readItems turns draft cursor = .ok later) :
    later.Extends draft := by
  induction turns generalizing draft cursor with
  | zero =>
      cases read
      exact closed.extends
  | succ turns ih =>
      rw [readItems] at read
      split at read
      · cases read
        exact closed.extends
      · rcases bind_eq_ok.1 read with ⟨⟨middle, behind⟩, item, others⟩
        have first := readItem_extends closed item
        exact (ih first.closed others).trans first

end Items

theorem isClosed_readHeader (read : readHeader cursor = .ok (draft, rest)) : draft.IsClosed := by
  have named {lexerOnly : Bool} {cursor : Cursor}
      (read : readHeader.named lexerOnly cursor = .ok (draft, rest)) : draft.IsClosed := by
    rcases bind_eq_ok.1 read with ⟨⟨name, behind⟩, _, read⟩
    rcases bind_eq_ok.1 read with ⟨ended, _, read⟩
    split at read
    · cases read
    · cases read
      constructor <;> simp
  rw [readHeader] at read
  split at read
  · exact named read
  · split at read
    · exact named read
    · cases read
      constructor <;> simp

end Draft

/--
A description that was read from source text declares its start and all that its rules mention, so
it stands for a grammar.
-/
theorem resolve_parse {source : String} {description : Description}
    (parsed : parse source = .ok description) :
    (∃ start, description.start = some start ∧ description.declaresNonterminal start) ∧
      (∀ rule ∈ description.rules, ∀ alternative ∈ rule.2, ∀ occurrence ∈ alternative,
        description.declares occurrence.symbol) ∧
      ∃ grammar, description.resolve = .ok grammar := by
  rcases bind_eq_ok.1 parsed with ⟨⟨draft, cursor⟩, header, parsed⟩
  rcases bind_eq_ok.1 parsed with ⟨later, items, parsed⟩
  have closed := (Draft.readItems_extends (Draft.isClosed_readHeader header) items).closed
  split at parsed
  · next started =>
      cases parsed
      rcases Option.isSome_iff_exists.1 started with ⟨start, start_eq⟩
      have start_declared := closed.start start start_eq
      have declared := closed.rules
      refine ⟨⟨start, start_eq, start_declared⟩, declared, later.description.toGrammar start, ?_⟩
      rw [Description.resolve_eq_ok_iff]
      refine ⟨start, start_eq, start_declared, ?_, rfl⟩
      apply List.find?_eq_none.2
      intro symbol mentioned
      simp only [List.mem_flatMap, List.mem_map] at mentioned
      rcases mentioned with ⟨rule, rule_mem, alternative, mem, occurrence, occurrence_mem, rfl⟩
      have known : later.description.declares occurrence.symbol :=
        declared rule rule_mem alternative mem occurrence occurrence_mem
      simpa using known
  · cases parsed

/-- Lists with a block that stands in two places and has one rule. -/
def lists : Description :=
  { start := some "list"
    terminals := ["'('", "WORD", "')'"]
    nonterminals := ["list", "_new_rule_1"]
    rules :=
      [("list",
          [[.bare ⟨"'('", .terminal⟩, ⟨⟨"_new_rule_1", .nonterminal⟩, .optional⟩,
              .bare ⟨"')'", .terminal⟩],
            [.bare ⟨"_new_rule_1", .nonterminal⟩]]),
        ("_new_rule_1", [[.bare ⟨"WORD", .terminal⟩, .bare ⟨"list", .nonterminal⟩]])] }

theorem resolve_parse_lists :
    parse "list : '(' (WORD list)? ')' | (WORD list) ;" = .ok lists ∧
      lists.declaresNonterminal "list" ∧ lists.declares ⟨"_new_rule_1", .nonterminal⟩ ∧
      ∃ grammar, lists.resolve = .ok grammar := by
  have parsed : parse "list : '(' (WORD list)? ')' | (WORD list) ;" = .ok lists := by rfl
  rcases resolve_parse parsed with ⟨⟨start, start_eq, start_declared⟩, declared, resolved⟩
  cases start_eq
  refine ⟨parsed, start_declared, ?_, resolved⟩
  exact declared _ List.mem_cons_self _ List.mem_cons_self
    ⟨⟨"_new_rule_1", .nonterminal⟩, .optional⟩ (by simp)

end VisiblyPushdown.Source
