import VisiblyPushdown.Proofs.WellFormed

/-!
# Resolved descriptions

What the grammar of a description holds: the alternatives of a nonterminal are those of all rules
with its name, without repetition, and the table has the start symbol, the declared symbols, the
names of the rules and what the rules mention. A description that resolves declares all of them.
-/

namespace VisiblyPushdown

namespace Grammar

variable {grammar : Grammar}

theorem alternatives_foldl_intern (symbols : List Symbol) (symbol : Symbol) :
    (symbols.foldl intern grammar).alternatives symbol = grammar.alternatives symbol := by
  induction symbols generalizing grammar with
  | nil => rfl
  | cons first symbols ih => exact ih

theorem start_foldl_intern (symbols : List Symbol) :
    (symbols.foldl intern grammar).start = grammar.start := by
  induction symbols generalizing grammar with
  | nil => rfl
  | cons first symbols ih => exact ih

theorem WellFormed.alternatives_of_isTerminal (wellFormed : grammar.WellFormed) {symbol : Symbol}
    (terminal : symbol.isTerminal) : grammar.alternatives symbol = [] := by
  apply List.eq_nil_iff_forall_not_mem.2
  intro alternative mem
  have nonterminal := wellFormed.isNonterminal mem
  rw [← Symbol.not_isTerminal, terminal] at nonterminal
  cases nonterminal

end Grammar

namespace Description

variable {grammar : Grammar} {description : Description} {name start : String}

theorem alternatives_addAlternative_self (grammar : Grammar) (name : String)
    (alternative : Alternative) :
    (addAlternative ⟨name, .nonterminal⟩ grammar alternative).alternatives ⟨name, .nonterminal⟩ =
      InsertionOrder.insert (grammar.alternatives ⟨name, .nonterminal⟩) alternative := by
  rw [addAlternative, Grammar.addAlternative, Grammar.alternatives_setAlternatives_self _ rfl,
    Grammar.alternatives_foldl_intern]

theorem alternatives_addAlternative_of_ne (grammar : Grammar) {symbol other : Symbol}
    (different : other ≠ symbol) (alternative : Alternative) :
    (addAlternative symbol grammar alternative).alternatives other =
      grammar.alternatives other := by
  rw [addAlternative, Grammar.addAlternative,
    Grammar.alternatives_setAlternatives_of_ne _ different, Grammar.alternatives_foldl_intern]

theorem alternatives_addRule_self (grammar : Grammar) (alternatives : List Alternative) :
    (addRule grammar (name, alternatives)).alternatives ⟨name, .nonterminal⟩ =
      InsertionOrder.insertAll (grammar.alternatives ⟨name, .nonterminal⟩) alternatives := by
  have added (grammar : Grammar) :
      (alternatives.foldl (addAlternative ⟨name, .nonterminal⟩) grammar).alternatives
        ⟨name, .nonterminal⟩ =
          InsertionOrder.insertAll (grammar.alternatives ⟨name, .nonterminal⟩) alternatives := by
    induction alternatives generalizing grammar with
    | nil => rfl
    | cons alternative alternatives ih =>
        rw [List.foldl_cons, ih, alternatives_addAlternative_self]
        rfl
  exact added _

theorem alternatives_addRule_of_ne (grammar : Grammar) {rule : String × List Alternative}
    (different : rule.1 ≠ name) :
    (addRule grammar rule).alternatives ⟨name, .nonterminal⟩ =
      grammar.alternatives ⟨name, .nonterminal⟩ := by
  have apart : (⟨name, .nonterminal⟩ : Symbol) ≠ ⟨rule.1, .nonterminal⟩ := by
    intro same
    exact different (congrArg Symbol.name same).symm
  have kept (alternatives : List Alternative) (grammar : Grammar) :
      (alternatives.foldl (addAlternative ⟨rule.1, .nonterminal⟩) grammar).alternatives
        ⟨name, .nonterminal⟩ = grammar.alternatives ⟨name, .nonterminal⟩ := by
    induction alternatives generalizing grammar with
    | nil => rfl
    | cons alternative alternatives ih =>
        rw [List.foldl_cons, ih, alternatives_addAlternative_of_ne _ apart]
  exact kept rule.2 _

theorem alternatives_foldl_addRule (rules : List (String × List Alternative)) (grammar : Grammar)
    (name : String) : (rules.foldl addRule grammar).alternatives ⟨name, .nonterminal⟩ =
      InsertionOrder.insertAll (grammar.alternatives ⟨name, .nonterminal⟩)
        ((rules.filter (·.1 = name)).flatMap Prod.snd) := by
  induction rules generalizing grammar with
  | nil => rfl
  | cons rule rules ih =>
      rw [List.foldl_cons, ih, List.filter_cons]
      by_cases same : rule.1 = name
      · subst same
        rw [if_pos (by simp), List.flatMap_cons, alternatives_addRule_self]
        exact List.foldl_append.symm
      · rw [if_neg (by simpa using same), alternatives_addRule_of_ne grammar same]

/-- The alternatives of a nonterminal are those of all rules with its name. -/
theorem alternatives_toGrammar (description : Description) (start name : String) :
    (description.toGrammar start).alternatives ⟨name, .nonterminal⟩ =
      InsertionOrder.distinct ((description.rules.filter (·.1 = name)).flatMap Prod.snd) := by
  change (description.rules.foldl addRule (List.foldl Grammar.intern _ _)).alternatives _ = _
  rw [alternatives_foldl_addRule, Grammar.alternatives_foldl_intern]
  rfl

theorem start_toGrammar (description : Description) (start : String) :
    (description.toGrammar start).start = ⟨start, .nonterminal⟩ := by
  have added (symbol : Symbol) (alternatives : List Alternative) (grammar : Grammar) :
      (alternatives.foldl (addAlternative symbol) grammar).start = grammar.start := by
    induction alternatives generalizing grammar with
    | nil => rfl
    | cons alternative alternatives ih =>
        rw [List.foldl_cons, ih, addAlternative, Grammar.addAlternative,
          Grammar.start_setAlternatives, Grammar.start_foldl_intern]
  have kept (rules : List (String × List Alternative)) (grammar : Grammar) :
      (rules.foldl addRule grammar).start = grammar.start := by
    induction rules generalizing grammar with
    | nil => rfl
    | cons rule rules ih =>
        rw [List.foldl_cons, ih, addRule, added]
        rfl
  change (description.rules.foldl addRule (List.foldl Grammar.intern _ _)).start = _
  rw [kept, Grammar.start_foldl_intern]
  rfl

/-- Whether a rule has a symbol as its name or mentions it. -/
def RuleHolds (rule : String × List Alternative) (symbol : Symbol) : Prop :=
  symbol = ⟨rule.1, .nonterminal⟩ ∨
    ∃ alternative ∈ rule.2, ∃ occurrence ∈ alternative, occurrence.symbol = symbol

theorem mem_symbols_addRule {rule : String × List Alternative} {symbol : Symbol} :
    symbol ∈ (addRule grammar rule).symbols ↔ symbol ∈ grammar.symbols ∨ RuleHolds rule symbol := by
  have added (named : Symbol) (alternatives : List Alternative) (grammar : Grammar) :
      symbol ∈ (alternatives.foldl (addAlternative named) grammar).symbols ↔
        symbol ∈ grammar.symbols ∨
          ∃ alternative ∈ alternatives, ∃ occurrence ∈ alternative, occurrence.symbol = symbol := by
    induction alternatives generalizing grammar with
    | nil => simp
    | cons alternative alternatives ih =>
        rw [List.foldl_cons, ih, addAlternative, Grammar.addAlternative,
          Grammar.symbols_setAlternatives, Grammar.mem_symbols_foldl_intern]
        simp [or_assoc]
  rw [addRule, added]
  simp [Grammar.intern, RuleHolds, or_assoc]

/-- The symbols of the table. -/
theorem mem_symbols_toGrammar {symbol : Symbol} :
    symbol ∈ (description.toGrammar start).symbols ↔
      symbol = ⟨start, .nonterminal⟩ ∨
      (∃ name ∈ description.nonterminals, ⟨name, .nonterminal⟩ = symbol) ∨
      (∃ name ∈ description.terminals, ⟨name, .terminal⟩ = symbol) ∨
      ∃ rule ∈ description.rules, RuleHolds rule symbol := by
  have collected (rules : List (String × List Alternative)) (grammar : Grammar) :
      symbol ∈ (rules.foldl addRule grammar).symbols ↔
        symbol ∈ grammar.symbols ∨ ∃ rule ∈ rules, RuleHolds rule symbol := by
    induction rules generalizing grammar with
    | nil => simp
    | cons rule rules ih =>
        rw [List.foldl_cons, ih, mem_symbols_addRule]
        simp [or_assoc]
  change symbol ∈ (description.rules.foldl addRule (List.foldl Grammar.intern _ _)).symbols ↔ _
  rw [collected, Grammar.mem_symbols_foldl_intern]
  simp [or_assoc, Grammar.ofStart]

theorem resolve_eq_ok_iff :
    description.resolve = .ok grammar ↔
      ∃ start, description.start = some start ∧ description.declaresNonterminal start ∧
        description.undeclared? = none ∧ description.toGrammar start = grammar := by
  unfold resolve
  cases description.start with
  | none => simp
  | some start =>
      cases declared : description.declaresNonterminal start with
      | false => simp [declared]
      | true => cases description.undeclared? <;> simp [declared]

theorem declaresNonterminal_of_mem_rules {rule : String × List Alternative}
    (rule_mem : rule ∈ description.rules) : description.declaresNonterminal rule.1 := by
  have listed : (description.rules.lookup rule.1).isSome := by
    apply Option.isSome_iff_ne_none.2
    intro missing
    exact InsertionOrder.lookup_eq_none.1 missing (List.mem_map_of_mem rule_mem)
  simp [declaresNonterminal, listed]

/-- A description that resolves declares every symbol of its grammar. -/
theorem declares_of_mem_symbols (resolved : description.resolve = .ok grammar) {symbol : Symbol}
    (known : symbol ∈ grammar.symbols) : description.declares symbol := by
  rcases resolve_eq_ok_iff.1 resolved with ⟨start, _, start_declared, declared, rfl⟩
  rw [undeclared?, List.find?_eq_none] at declared
  rcases mem_symbols_toGrammar.1 known with rfl | ⟨name, name_mem, rfl⟩ | ⟨name, name_mem, rfl⟩ |
    ⟨rule, rule_mem, rfl | ⟨alternative, mem, occurrence, occurrence_mem, rfl⟩⟩
  · exact start_declared
  · simp [declares, declaresNonterminal, name_mem]
  · simp [declares, name_mem]
  · exact declaresNonterminal_of_mem_rules rule_mem
  · have mentioned : occurrence.symbol ∈ description.rules.flatMap fun rule =>
        rule.2.flatMap (·.map Occurrence.symbol) := by
      simp only [List.mem_flatMap, List.mem_map]
      exact ⟨rule, rule_mem, alternative, mem, occurrence, occurrence_mem, rfl⟩
    simpa using declared _ mentioned

theorem mem_symbols_of_declaresNonterminal (resolved : description.resolve = .ok grammar)
    {name : String} (declared : description.declaresNonterminal name) :
    (⟨name, .nonterminal⟩ : Symbol) ∈ grammar.symbols := by
  rcases resolve_eq_ok_iff.1 resolved with ⟨start, _, _, _, rfl⟩
  rw [declaresNonterminal, Bool.or_eq_true] at declared
  rw [mem_symbols_toGrammar]
  rcases declared with listed | ruled
  · exact .inr (.inl ⟨name, of_decide_eq_true listed, rfl⟩)
  · rcases Option.isSome_iff_exists.1 ruled with ⟨alternatives, found⟩
    exact .inr (.inr (.inr ⟨_, InsertionOrder.mem_of_lookup_eq_some found, .inl rfl⟩))

end Description

end VisiblyPushdown
