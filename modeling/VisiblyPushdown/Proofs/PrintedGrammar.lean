import VisiblyPushdown.Proofs.Correspondence
import VisiblyPushdown.Proofs.PrintedReading

/-!
# Printing and parsing agree

A grammar that was read from source text can be printed and read again. Each printed rule is read as
one rule of the description, under the name and with the alternatives that it was printed with. The
new grammar has these rules alone, and as it starts with the same one, it is explored in the same
order.
-/

namespace VisiblyPushdown

open Source

theorem Grammar.nodup_names_reachable {grammar : Grammar}
    (nonterminal : ∀ symbol ∈ grammar.reachable, symbol.isNonterminal) :
    (grammar.reachable.map Symbol.name).Nodup := by
  apply List.Nodup.map_on _ grammar.nodup_reachable
  rintro ⟨name, kind⟩ reached ⟨other, other_kind⟩ other_reached rfl
  have kind_eq : kind = .nonterminal := of_decide_eq_true (nonterminal _ reached)
  have other_eq : other_kind = .nonterminal := of_decide_eq_true (nonterminal _ other_reached)
  rw [kind_eq, other_eq]

/-- A nonterminal is written as one identifier, which is not the name of a token. -/
theorem Symbol.IsLegible.lexemes_eq {symbol : Symbol} (legible : symbol.IsLegible)
    (nonterminal : symbol.isNonterminal) :
    symbol.lexemes = [⟨.identifier, symbol.name.toList⟩] ∧ ¬ Source.isTokenName symbol.name := by
  have writes := legible.writes
  have joined_eq := symbol.joined_lexemes
  rw [of_decide_eq_true nonterminal] at writes
  generalize symbol.lexemes = found at writes joined_eq ⊢
  cases writes with
  | @ruleName text spelled lower =>
      have text_eq : text = symbol.name.toList := by simpa using joined_eq
      subst text_eq
      exact ⟨rfl, by simpa using lower⟩

/-- The names under which a rule is not read as a rule, or not as one of its own. -/
def reservedNames : List String :=
  ["catch", "finally", "import", "mode", "fragment"]

/-- Whether the rule of a nonterminal can be printed and read again. -/
structure Grammar.IsReadable (grammar : Grammar) (symbol : Symbol) : Prop where
  isNonterminal : symbol.isNonterminal
  legible : grammar.IsLegibleRule symbol
  filled : grammar.alternatives symbol ≠ []
  unreserved : symbol.name ∉ reservedNames

/-- A printed rule consists of its name, a colon, its alternatives and a semicolon. -/
theorem Grammar.IsReadable.exists_alternatives {grammar : Grammar} {symbol : Symbol}
    (readable : grammar.IsReadable symbol) :
    ∃ first others, grammar.alternatives symbol = first :: others ∧
      grammar.ruleLexemes symbol =
        ⟨.identifier, symbol.name.toList⟩ :: ⟨.colon, [':']⟩ ::
          (first.lexemes ++ (furtherLexemes others ++ [⟨.semicolon, [';']⟩])) := by
  rcases alternatives_eq : grammar.alternatives symbol with _ | ⟨first, others⟩
  · exact absurd alternatives_eq readable.filled
  · refine ⟨first, others, rfl, ?_⟩
    rw [Grammar.ruleLexemes, (readable.legible.1.lexemes_eq readable.isNonterminal).1,
      alternatives_eq]
    simp [alternativesLexemes]

namespace Source

namespace Cursor.Faces

variable {cursor : Cursor} {lexeme : Lexeme} {rest : List Lexeme}

theorem isAtWord_eq_false (faces : cursor.Faces (lexeme :: rest)) {word : String}
    (different : lexeme.kind ≠ .identifier ∨ String.ofList lexeme.text ≠ word) :
    cursor.isAtWord word = false := by
  rw [isAtWord, faces.isAt, faces.text]
  rcases different with different | different <;> simp [different]

/-- Nothing stands between the name of a printed rule and its colon. -/
theorem passPrelude_eq (faces : cursor.Faces (lexeme :: rest)) (colon : lexeme.kind = .colon)
    (turns : Nat) : passPrelude turns cursor = .ok cursor := by
  have no_word (word : String) : cursor.isAtWord word = false :=
    faces.isAtWord_eq_false (.inl (by simp [colon]))
  have no_block : cursor.isAt .bracketBlock = false := by simp [faces.isAt, colon]
  have no_action : cursor.isAt .at = false := by simp [faces.isAt, colon]
  cases turns with
  | zero => rfl
  | succ turns =>
      rw [passPrelude]
      simp only [no_word, no_block, no_action, isAtOptions, Bool.or_self, Bool.false_and,
        Bool.false_eq_true, if_false]
      rfl

/-- Nothing stands behind the semicolon of a printed rule. -/
theorem passHandlers_eq (faces : cursor.Faces rest)
    (plain : ∀ lexeme ∈ rest.head?, String.ofList lexeme.text ∉ ["catch", "finally"])
    (turns : Nat) : passHandlers turns cursor = .ok cursor := by
  have no_word (word : String) (handler : word ∈ ["catch", "finally"]) :
      cursor.isAtWord word = false := by
    rcases rest with _ | ⟨lexeme, rest⟩
    · simp [isAtWord, Cursor.isAt, Cursor.kind?, faces.kindAt?]
    · apply faces.isAtWord_eq_false
      right
      rintro rfl
      exact plain lexeme rfl handler
  cases turns with
  | zero => rfl
  | succ turns =>
      rw [passHandlers, no_word "catch" (by simp), no_word "finally" (by simp)]
      rfl

end Cursor.Faces

namespace Draft

variable {grammar : Grammar} {symbol : Symbol} {cursor : Cursor} {rest : List Lexeme}

/-- The alternatives of a printed rule are read from its colon to its semicolon. -/
theorem readBody_of_faces (draft : Draft) {name : String} {first : Alternative}
    {others : List Alternative}
    (legible : ∀ alternative ∈ first :: others, ∀ occurrence ∈ alternative,
      occurrence.symbol.IsLegible)
    (fresh : name ∉ draft.description.rules.map Prod.fst)
    (faces : cursor.Faces
      (first.lexemes ++ (furtherLexemes others ++ ⟨.semicolon, [';']⟩ :: rest))) :
    ∃ later behind, draft.readBody name cursor = .ok (later, behind) ∧
      later.description.rules = draft.description.rules ++ [(name, first :: others)] ∧
      later.description.start = some (draft.description.start.getD name) ∧ behind.Faces rest := by
  have enough : cursor.tokens.length < 3 * cursor.tokens.length + 1 := by omega
  rcases readAlternatives_of_faces name (draft.openRule name) legible faces enough with
    ⟨middle, ended, read, ⟨rules_eq, start_eq⟩, ended_faces⟩
  refine ⟨middle.setRule name (first :: others), ended.advance, ?_, ?_, start_eq,
    ended_faces.advance⟩
  · refine bind_eq_ok.2 ⟨_, read, bind_eq_ok.2 ⟨ended.advance, ?_, rfl⟩⟩
    exact ended_faces.pass "`;`" rfl
  · have opened : (draft.openRule name).description.rules =
        InsertionOrder.put draft.description.rules name [] := rfl
    change InsertionOrder.put middle.description.rules name (first :: others) = _
    rw [rules_eq, opened, InsertionOrder.put_put_self, InsertionOrder.put_of_absent fresh]

/-- A printed rule is read as the rule. -/
theorem readRule_of_faces (draft : Draft) (readable : grammar.IsReadable symbol)
    (fresh : symbol.name ∉ draft.description.rules.map Prod.fst)
    (plain : ∀ lexeme ∈ rest.head?, String.ofList lexeme.text ∉ ["catch", "finally"])
    (faces : cursor.Faces (grammar.ruleLexemes symbol ++ rest)) :
    ∃ later behind, draft.readRule cursor = .ok (later, behind) ∧
      later.description.rules =
        draft.description.rules ++ [(symbol.name, grammar.alternatives symbol)] ∧
      later.description.start = some (draft.description.start.getD symbol.name) ∧
      behind.Faces rest := by
  rcases readable.exists_alternatives with ⟨first, others, alternatives_eq, lexemes_eq⟩
  rw [lexemes_eq] at faces
  have text_eq : cursor.text = symbol.name := by
    rw [Cursor.Faces.text faces, String.ofList_toList]
  have colon_faces := Cursor.Faces.advance faces
  have body_faces : cursor.advance.advance.Faces
      (first.lexemes ++ (furtherLexemes others ++ ⟨.semicolon, [';']⟩ :: rest)) := by
    have behind := Cursor.Faces.advance colon_faces
    simpa using behind
  have legible := readable.legible.2
  rw [alternatives_eq] at legible ⊢
  rcases readBody_of_faces draft legible fresh body_faces with
    ⟨later, behind, body, rules_eq, start_eq, behind_faces⟩
  refine ⟨later, behind, ?_, rules_eq, start_eq, behind_faces⟩
  have unknown : draft.hasRule symbol.name = false := by
    rw [hasRule, InsertionOrder.lookup_eq_none.2 fresh]
    rfl
  rw [readRule, Cursor.Faces.passPrelude_eq colon_faces rfl, ok_bind, text_eq, unknown]
  dsimp only
  rw [if_neg Bool.false_ne_true, Cursor.Faces.pass colon_faces "`:`" rfl, ok_bind, body, ok_bind]
  dsimp only
  rw [behind_faces.passHandlers_eq plain]
  rfl

/-- A printed rule is taken for a rule. -/
theorem readItem_eq (draft : Draft) (readable : grammar.IsReadable symbol)
    (faces : cursor.Faces (grammar.ruleLexemes symbol ++ rest)) :
    draft.readItem cursor = draft.readRule cursor := by
  rcases readable.exists_alternatives with ⟨first, others, alternatives_eq, lexemes_eq⟩
  rw [lexemes_eq] at faces
  have text_eq : cursor.text = symbol.name := by
    rw [Cursor.Faces.text faces, String.ofList_toList]
  have colon : cursor.kindAt? 1 = some .colon := Cursor.Faces.kindAt? faces 1
  have here : cursor.isAt .identifier = true := by rw [Cursor.Faces.isAt faces]; rfl
  have no_action : cursor.isAt .at = false := by rw [Cursor.Faces.isAt faces]; rfl
  have no_word (word : String) (reserved : word ∈ reservedNames) :
      cursor.isAtWord word = false := by
    apply Cursor.Faces.isAtWord_eq_false faces
    right
    rw [String.ofList_toList]
    rintro rfl
    exact readable.unreserved reserved
  have no_modifier (modifier : String) : readItem.skipModifier cursor modifier = cursor := by
    rw [readItem.skipModifier, colon]
    simp
  have lower := (readable.legible.1.lexemes_eq readable.isNonterminal).2
  rw [readItem]
  simp only [List.foldl_cons, List.foldl_nil, no_modifier, colon, here, no_action, text_eq, lower,
    no_word "import" (by decide), no_word "mode" (by decide), no_word "fragment" (by decide)]
  simp

theorem plain_of_isReadable {symbols : List Symbol}
    (readable : ∀ symbol ∈ symbols, grammar.IsReadable symbol) :
    ∀ lexeme ∈ (symbols.flatMap grammar.ruleLexemes).head?,
      String.ofList lexeme.text ∉ ["catch", "finally"] := by
  rcases symbols with _ | ⟨symbol, symbols⟩
  · simp
  · have symbol_readable := readable symbol List.mem_cons_self
    rcases symbol_readable.exists_alternatives with ⟨first, others, _, lexemes_eq⟩
    rw [List.flatMap_cons, lexemes_eq]
    rintro _ ⟨⟩ handler
    apply symbol_readable.unreserved
    rw [String.ofList_toList] at handler
    exact List.mem_append_left ["import", "mode", "fragment"] handler

/-- The printed rules of some nonterminals are read as their rules. -/
theorem readItems_of_faces (draft : Draft) {symbols : List Symbol}
    (readable : ∀ symbol ∈ symbols, grammar.IsReadable symbol)
    (fresh : (draft.description.rules.map Prod.fst ++ symbols.map Symbol.name).Nodup)
    (faces : cursor.Faces (symbols.flatMap grammar.ruleLexemes)) {turns : Nat}
    (enough : symbols.length ≤ turns) :
    ∃ later, readItems turns draft cursor = .ok later ∧
      later.description.rules = draft.description.rules ++
        symbols.map (fun symbol => (symbol.name, grammar.alternatives symbol)) ∧
      later.description.start = draft.description.start.or (symbols.head?.map Symbol.name) := by
  induction symbols generalizing draft cursor turns with
  | nil =>
      have spent : cursor.tokens = [] := List.map_eq_nil_iff.1 faces
      refine ⟨draft, ?_, by simp, by simp⟩
      cases turns with
      | zero => rfl
      | succ turns =>
          rw [readItems, spent]
          rfl
  | cons symbol symbols ih =>
      rcases turns with _ | turns
      · cases enough
      have symbol_readable := readable symbol List.mem_cons_self
      have others_readable (other : Symbol) (mem : other ∈ symbols) :=
        readable other (List.mem_cons_of_mem _ mem)
      have fresh_symbol : symbol.name ∉ draft.description.rules.map Prod.fst := by
        intro known
        exact (List.nodup_append.1 fresh).2.2 _ known _ List.mem_cons_self rfl
      rw [List.flatMap_cons] at faces
      rcases readRule_of_faces draft symbol_readable fresh_symbol
        (plain_of_isReadable others_readable) faces with
        ⟨middle, behind, rule, rules_eq, start_eq, behind_faces⟩
      have others_fresh :
          (middle.description.rules.map Prod.fst ++ symbols.map Symbol.name).Nodup := by
        rw [rules_eq]
        simpa using fresh
      rcases ih middle others_readable others_fresh behind_faces
        (Nat.le_of_succ_le_succ enough) with ⟨later, items, later_rules, later_start⟩
      refine ⟨later, ?_, ?_, ?_⟩
      · have more : cursor.tokens.isEmpty = false := by
          rcases symbol_readable.exists_alternatives with ⟨first, others, _, lexemes_eq⟩
          rw [lexemes_eq] at faces
          rcases List.map_eq_cons_iff.1 faces with ⟨token, tokens, tokens_eq, _⟩
          rw [tokens_eq]
          rfl
        rw [readItems, more, if_neg Bool.false_ne_true, readItem_eq draft symbol_readable faces,
          rule]
        exact items
      · rw [later_rules, rules_eq]
        simp
      · rw [later_start, start_eq]
        cases draft.description.start <;> rfl

/-- A printed grammar has no header. -/
theorem readHeader_of_faces (readable : grammar.IsReadable symbol)
    (faces : cursor.Faces (grammar.ruleLexemes symbol ++ rest)) :
    readHeader cursor = .ok ({}, cursor) := by
  rcases readable.exists_alternatives with ⟨first, others, _, lexemes_eq⟩
  rw [lexemes_eq] at faces
  have colon : cursor.kindAt? 1 = some .colon := Cursor.Faces.kindAt? faces 1
  have colon_text : cursor.textAt 1 = ":" := Cursor.Faces.textAt faces 1
  rw [readHeader, colon, colon_text]
  simp
  rfl

end Draft

/-- The description of a printed grammar has the reachable rules and no others. -/
theorem parse_print_of_isReadable {grammar : Grammar}
    (readable : ∀ symbol ∈ grammar.reachable, grammar.IsReadable symbol) :
    ∃ description, parse (grammar.print { marked := false }) = .ok description ∧
      description.start = some grammar.start.name ∧
      description.rules =
        grammar.reachable.map (fun symbol => (symbol.name, grammar.alternatives symbol)) := by
  have faces : Cursor.Faces
      { tokens := tokens (grammar.print { marked := false })
        lastLine := lastLine (grammar.print { marked := false }) } grammar.lexemes :=
    grammar.map_lexeme_tokens_print fun symbol reached => (readable symbol reached).legible
  have named := Grammar.nodup_names_reachable fun symbol reached =>
    (readable symbol reached).isNonterminal
  have enough : grammar.reachable.length ≤ grammar.lexemes.length := by
    apply length_le_flatMap
    intro symbol reached
    rcases (readable symbol reached).exists_alternatives with ⟨first, others, _, lexemes_eq⟩
    rw [lexemes_eq]
    exact List.cons_ne_nil _ _
  rw [← faces.length_eq] at enough
  have start_readable := readable grammar.start
    (List.mem_of_mem_head? (Option.mem_def.2 grammar.head?_reachable))
  have header := Draft.readHeader_of_faces start_readable faces
  rcases Draft.readItems_of_faces {} readable named faces enough with
    ⟨later, items, rules_eq, start_eq⟩
  rw [grammar.head?_reachable] at start_eq
  refine ⟨later.description, ?_, start_eq, rules_eq⟩
  refine bind_eq_ok.2 ⟨_, header, bind_eq_ok.2 ⟨later, items, ?_⟩⟩
  rw [start_eq]
  rfl

/-- Everything that is printed of a parsed grammar can be read again. -/
theorem isReadable_of_parse {source : String} {description : Description} {grammar : Grammar}
    (clean : ∀ token ∈ tokens source, token.kind ≠ .garbage)
    (parsed : parse source = .ok description) (resolved : description.resolve = .ok grammar)
    {symbol : Symbol} (reached : symbol ∈ grammar.reachable)
    (filled : grammar.alternatives symbol ≠ []) (unreserved : symbol.name ∉ reservedNames) :
    grammar.IsReadable symbol := by
  have wellFormed := Description.wellFormed_resolve resolved
  have legible {symbol : Symbol} (known : symbol ∈ grammar.symbols) : symbol.IsLegible :=
    isLegible_of_parse clean parsed (Description.declares_of_mem_symbols resolved known)
  rcases wellFormed.reaches_mem (Grammar.mem_reachable.1 reached) with ⟨known, nonterminal⟩
  refine ⟨nonterminal, ⟨legible known, ?_⟩, filled, unreserved⟩
  exact fun alternative mem occurrence occurrence_mem =>
    legible (wellFormed.mentioned_mem mem occurrence_mem)

/-- Among rules with different names there is one of each name. -/
theorem flatMap_filter_rules {symbols : List Symbol} (named : (symbols.map Symbol.name).Nodup)
    (rule : Symbol → List Alternative) {symbol : Symbol} (mem : symbol ∈ symbols) :
    ((symbols.map fun symbol => (symbol.name, rule symbol)).filter (·.1 = symbol.name)).flatMap
      Prod.snd = rule symbol := by
  induction symbols with
  | nil => cases mem
  | cons first symbols ih =>
      rw [List.map_cons, List.nodup_cons] at named
      rcases List.mem_cons.1 mem with rfl | mem
      · have others : (symbols.map fun other => (other.name, rule other)).filter
            (·.1 = symbol.name) = [] := by
          rw [List.filter_map, List.map_eq_nil_iff, List.filter_eq_nil_iff]
          intro other other_mem same
          exact named.1 (List.mem_map.2 ⟨other, other_mem, of_decide_eq_true same⟩)
        rw [List.map_cons, List.filter_cons_of_pos (by simp), others]
        simp
      · have different : first.name ≠ symbol.name := fun same =>
          named.1 (same ▸ List.mem_map_of_mem mem)
        rw [List.map_cons, List.filter_cons_of_neg (by simpa using different)]
        exact ih named.2 mem

/-- A description that consists of the reachable rules of a grammar has their alternatives. -/
theorem alternatives_toGrammar_of_rules_eq {description : Description} {grammar : Grammar}
    (wellFormed : grammar.WellFormed)
    (rules_eq : description.rules =
      grammar.reachable.map fun symbol => (symbol.name, grammar.alternatives symbol))
    (start : String) {symbol : Symbol} (reached : symbol ∈ grammar.reachable) :
    (description.toGrammar start).alternatives symbol = grammar.alternatives symbol := by
  have nonterminal (symbol : Symbol) (reached : symbol ∈ grammar.reachable) :
      symbol.isNonterminal :=
    (wellFormed.reaches_mem (Grammar.mem_reachable.1 reached)).2
  have symbol_eq : (⟨symbol.name, .nonterminal⟩ : Symbol) = symbol := by
    rw [← of_decide_eq_true (nonterminal symbol reached)]
  have named := Grammar.nodup_names_reachable nonterminal
  rw [← symbol_eq, Description.alternatives_toGrammar, rules_eq,
    flatMap_filter_rules named grammar.alternatives reached, symbol_eq,
    InsertionOrder.distinct_of_nodup (wellFormed.alternatives_nodup symbol)]

/-- Grammars with the same start and the same reachable rules are explored in the same order. -/
theorem reachable_eq {grammar other : Grammar} (wellFormed : grammar.WellFormed)
    (other_wellFormed : other.WellFormed) (start_eq : other.start = grammar.start)
    (alternatives_eq : ∀ symbol ∈ grammar.reachable,
      other.alternatives symbol = grammar.alternatives symbol) :
    other.reachable = grammar.reachable := by
  let related (symbol image : Symbol) : Prop :=
    symbol = image ∧ (symbol.isTerminal ∨ symbol ∈ grammar.reachable)
  have correspond : Grammar.Correspond related grammar other := by
    refine ⟨⟨?_, ?_⟩, ?_, ?_, ?_, ?_⟩
    · exact fun _ _ _ first second => first.1.trans second.1.symm
    · exact fun _ _ _ first second => first.1.symm.trans second.1
    · exact fun _ _ pair => congrArg Symbol.kind pair.1
    · exact fun _ _ pair _ => pair.1
    · exact ⟨start_eq.symm, .inr (Grammar.mem_reachable.2 .refl)⟩
    · rintro symbol _ ⟨rfl, terminal | reached⟩
      · rw [wellFormed.alternatives_of_isTerminal terminal,
          other_wellFormed.alternatives_of_isTerminal terminal]
        exact .nil
      · rw [alternatives_eq symbol reached]
        apply List.forall₂_same.2
        intro alternative mem
        rw [Alternative.corresponds_self]
        intro occurrence occurrence_mem
        refine ⟨rfl, ?_⟩
        by_cases terminal : occurrence.symbol.isTerminal
        · exact .inl terminal
        · right
          have nonterminal : occurrence.symbol.isNonterminal := by
            rw [← Symbol.not_isTerminal, Bool.eq_false_iff.2 terminal]
            rfl
          exact Grammar.mem_reachable.2 ((Grammar.mem_reachable.1 reached).tail
            ⟨nonterminal, alternative, mem, occurrence, occurrence_mem, rfl⟩)
  have pairs := correspond.reachable.imp fun _ _ pair => pair.1
  rw [List.forall₂_eq_eq_eq] at pairs
  exact pairs.symm

/--
Printing and parsing agree: a grammar that was read from a text without garbage is printed so that
it is read again, with the same rules in the same order.
-/
theorem parse_print {source : String} {description : Description} {grammar : Grammar}
    (clean : ∀ token ∈ tokens source, token.kind ≠ .garbage)
    (parsed : parse source = .ok description) (resolved : description.resolve = .ok grammar)
    (filled : ∀ symbol ∈ grammar.reachable, grammar.alternatives symbol ≠ [])
    (unreserved : ∀ symbol ∈ grammar.reachable, symbol.name ∉ reservedNames) :
    ∃ printed again, parse (grammar.print { marked := false }) = .ok printed ∧
      printed.resolve = .ok again ∧ again.start = grammar.start ∧
      again.reachable = grammar.reachable ∧
      ∀ symbol ∈ grammar.reachable, again.alternatives symbol = grammar.alternatives symbol := by
  have wellFormed := Description.wellFormed_resolve resolved
  rcases parse_print_of_isReadable fun symbol reached => isReadable_of_parse clean parsed resolved
    reached (filled symbol reached) (unreserved symbol reached) with
    ⟨printed, printed_parsed, start_eq, rules_eq⟩
  rcases (resolve_parse printed_parsed).2.2 with ⟨again, again_resolved⟩
  rcases Description.resolve_eq_ok_iff.1 again_resolved with ⟨start, printed_start, _, _, rfl⟩
  obtain rfl : grammar.start.name = start := Option.some.inj (start_eq.symm.trans printed_start)
  have alternatives_eq (symbol : Symbol) (reached : symbol ∈ grammar.reachable) :=
    alternatives_toGrammar_of_rules_eq wellFormed rules_eq grammar.start.name reached
  have start_nonterminal := of_decide_eq_true wellFormed.start_isNonterminal
  have again_start : (printed.toGrammar grammar.start.name).start = grammar.start := by
    rw [Description.start_toGrammar, ← start_nonterminal]
  refine ⟨printed, _, printed_parsed, again_resolved, again_start, ?_, alternatives_eq⟩
  exact reachable_eq wellFormed (printed.wellFormed_toGrammar _) again_start alternatives_eq

/-- Source text with a set whose tokens unite where nothing stands between them. -/
def unionsText : String :=
  "s : ('(' s ')')+ ~(a b | : :)? | . | ;"

/-- The description of that text. -/
def unions : Description :=
  { start := some "s"
    terminals := ["'('", "')'", "~(ab|::)", "."]
    nonterminals := ["s", "_new_rule_1"]
    rules :=
      [("s",
          [[⟨⟨"_new_rule_1", .nonterminal⟩, .plus⟩, ⟨⟨"~(ab|::)", .terminal⟩, .optional⟩],
            [.bare ⟨".", .terminal⟩], []]),
        ("_new_rule_1",
          [[.bare ⟨"'('", .terminal⟩, .bare ⟨"s", .nonterminal⟩, .bare ⟨"')'", .terminal⟩]])] }

theorem parse_print_unions :
    parse unionsText = .ok unions ∧
      (unions.toGrammar "s").print { marked := false } =
        "s\t: _new_rule_1+ ~(ab|::)?\n\t| .\n\t|\n\t;\n\n_new_rule_1\t: '(' s ')'\n\t;" ∧
      ∃ printed again, parse ((unions.toGrammar "s").print { marked := false }) = .ok printed ∧
        printed.resolve = .ok again ∧ again.start = (unions.toGrammar "s").start ∧
        again.reachable = (unions.toGrammar "s").reachable ∧
        ∀ symbol ∈ (unions.toGrammar "s").reachable,
          again.alternatives symbol = (unions.toGrammar "s").alternatives symbol := by
  have parsed : parse unionsText = .ok unions := by decide +kernel
  refine ⟨parsed, by decide +kernel, ?_⟩
  exact parse_print (by decide +kernel) parsed (by rfl) (by decide +kernel) (by decide +kernel)

end Source

end VisiblyPushdown
