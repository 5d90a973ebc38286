import VisiblyPushdown.Grammar.Description

/-!
# Well-formed grammars

In a well-formed grammar the table lists each symbol once, the start symbol is a nonterminal of the
table, only nonterminals of the table have rules, every occurrence in a rule is of a symbol of the
table, and no nonterminal has the same alternative twice. Grammars that come from a description are
well formed, and the elementary operations keep them so.
-/

namespace VisiblyPushdown

namespace InsertionOrder

universe u v

theorem mem_of_mem_put {κ : Type u} {β : Type v} [DecidableEq κ] {entries : List (κ × β)} {key : κ}
    {value : β} {entry : κ × β} (entry_mem : entry ∈ put entries key value) :
    entry = (key, value) ∨ entry ∈ entries := by
  induction entries with
  | nil => simpa [put] using entry_mem
  | cons first entries ih =>
      rcases first with ⟨known, old⟩
      rw [put] at entry_mem
      split at entry_mem
      · next same =>
          subst same
          exact (List.mem_cons.1 entry_mem).imp_right (List.mem_cons_of_mem _)
      · rcases List.mem_cons.1 entry_mem with rfl | entry_mem
        · exact .inr List.mem_cons_self
        · exact (ih entry_mem).imp_right (List.mem_cons_of_mem _)

theorem lookup_map_value {κ : Type u} {β γ : Type v} [DecidableEq κ] (entries : List (κ × β))
    (value : κ → β → γ) (key : κ) :
    (entries.map fun entry => (entry.1, value entry.1 entry.2)).lookup key =
      (entries.lookup key).map (value key) := by
  induction entries with
  | nil => rfl
  | cons entry entries ih =>
      rw [List.map_cons, List.lookup_cons, List.lookup_cons]
      by_cases same : key = entry.1
      · simp [same]
      · simp [beq_false_of_ne same, ih]

theorem lookup_eq_none {κ : Type u} {β : Type v} [DecidableEq κ] {entries : List (κ × β)}
    {key : κ} : entries.lookup key = none ↔ key ∉ entries.map Prod.fst := by
  rw [List.lookup_eq_none_iff, List.mem_map]
  constructor
  · rintro unlisted ⟨entry, entry_mem, rfl⟩
    simpa using unlisted entry entry_mem
  · intro unlisted entry entry_mem
    exact bne_iff_ne.2 fun same => unlisted ⟨entry, entry_mem, same.symm⟩

theorem lookup_of_mem {κ : Type u} {β : Type v} [DecidableEq κ] {entries : List (κ × β)}
    (nodup : (entries.map Prod.fst).Nodup) {entry : κ × β} (entry_mem : entry ∈ entries) :
    entries.lookup entry.1 = some entry.2 := by
  induction entries with
  | nil => cases entry_mem
  | cons first entries ih =>
      rw [List.map_cons, List.nodup_cons] at nodup
      rw [List.lookup_cons]
      rcases List.mem_cons.1 entry_mem with rfl | later
      · simp
      · have different : entry.1 ≠ first.1 := fun same =>
          nodup.1 (same ▸ List.mem_map_of_mem later)
        rw [beq_false_of_ne different]
        exact ih nodup.2 later

end InsertionOrder

namespace Grammar

/-- Whether rules speak only of symbols of the table, and table and rules repeat nothing. -/
structure WellFormed (grammar : Grammar) : Prop where
  symbols_nodup : grammar.symbols.Nodup
  start_mem : grammar.start ∈ grammar.symbols
  start_isNonterminal : grammar.start.isNonterminal
  rule_mem : ∀ rule ∈ grammar.rules, rule.1 ∈ grammar.symbols
  rule_isNonterminal : ∀ rule ∈ grammar.rules, rule.1.isNonterminal
  rule_nodup : ∀ rule ∈ grammar.rules, rule.2.Nodup
  occurrence_mem : ∀ rule ∈ grammar.rules, ∀ alternative ∈ rule.2, ∀ occurrence ∈ alternative,
    occurrence.symbol ∈ grammar.symbols

instance (grammar : Grammar) : Decidable grammar.WellFormed :=
  decidable_of_iff
    (grammar.symbols.Nodup ∧ grammar.start ∈ grammar.symbols ∧ grammar.start.isNonterminal ∧
      (∀ rule ∈ grammar.rules, rule.1 ∈ grammar.symbols) ∧
      (∀ rule ∈ grammar.rules, rule.1.isNonterminal) ∧ (∀ rule ∈ grammar.rules, rule.2.Nodup) ∧
      ∀ rule ∈ grammar.rules, ∀ alternative ∈ rule.2, ∀ occurrence ∈ alternative,
        occurrence.symbol ∈ grammar.symbols)
    ⟨fun ⟨nodup, mem, nonterminal, rule_mem, rule_kind, rule_nodup, occurrence_mem⟩ =>
      ⟨nodup, mem, nonterminal, rule_mem, rule_kind, rule_nodup, occurrence_mem⟩,
    fun ⟨nodup, mem, nonterminal, rule_mem, rule_kind, rule_nodup, occurrence_mem⟩ =>
      ⟨nodup, mem, nonterminal, rule_mem, rule_kind, rule_nodup, occurrence_mem⟩⟩

variable {grammar : Grammar}

theorem exists_rule_of_mem_alternatives {symbol : Symbol} {alternative : Alternative}
    (mem : alternative ∈ grammar.alternatives symbol) :
    ∃ rule ∈ grammar.rules, rule.1 = symbol ∧ alternative ∈ rule.2 := by
  cases found : grammar.rules.lookup symbol with
  | none => simp [alternatives, found] at mem
  | some alternatives =>
      obtain ⟨before, _, split, _⟩ := List.lookup_eq_some_iff.1 found
      simp only [Grammar.alternatives, found, Option.getD_some] at mem
      exact ⟨(symbol, alternatives), by simp [split], rfl, mem⟩

namespace WellFormed

theorem symbol_mem (wellFormed : grammar.WellFormed) {symbol : Symbol} {alternative : Alternative}
    (mem : alternative ∈ grammar.alternatives symbol) : symbol ∈ grammar.symbols := by
  obtain ⟨rule, rule_mem, rfl, _⟩ := exists_rule_of_mem_alternatives mem
  exact wellFormed.rule_mem rule rule_mem

theorem isNonterminal (wellFormed : grammar.WellFormed) {symbol : Symbol}
    {alternative : Alternative} (mem : alternative ∈ grammar.alternatives symbol) :
    symbol.isNonterminal := by
  obtain ⟨rule, rule_mem, rfl, _⟩ := exists_rule_of_mem_alternatives mem
  exact wellFormed.rule_isNonterminal rule rule_mem

theorem mentioned_mem (wellFormed : grammar.WellFormed) {symbol : Symbol}
    {alternative : Alternative} (mem : alternative ∈ grammar.alternatives symbol)
    {occurrence : Occurrence} (occurrence_mem : occurrence ∈ alternative) :
    occurrence.symbol ∈ grammar.symbols := by
  obtain ⟨rule, rule_mem, rfl, alternative_mem⟩ := exists_rule_of_mem_alternatives mem
  exact wellFormed.occurrence_mem rule rule_mem alternative alternative_mem occurrence
    occurrence_mem

theorem alternatives_nodup (wellFormed : grammar.WellFormed) (symbol : Symbol) :
    (grammar.alternatives symbol).Nodup := by
  cases found : grammar.rules.lookup symbol with
  | none => simp [alternatives, found]
  | some alternatives =>
      obtain ⟨before, _, split, _⟩ := List.lookup_eq_some_iff.1 found
      simp only [Grammar.alternatives, found, Option.getD_some]
      exact wellFormed.rule_nodup (symbol, alternatives) (by simp [split])

/-- A symbol that is not in the table has no entry in the rules, not even an empty one. -/
theorem lookup_eq_none (wellFormed : grammar.WellFormed) {symbol : Symbol}
    (unknown : symbol ∉ grammar.symbols) : grammar.rules.lookup symbol = none := by
  rw [InsertionOrder.lookup_eq_none]
  intro symbol_mem
  obtain ⟨rule, rule_mem, rfl⟩ := List.mem_map.1 symbol_mem
  exact unknown (wellFormed.rule_mem rule rule_mem)

/-- Well-formedness is about table, start symbol and rules alone. -/
theorem of_eq (wellFormed : grammar.WellFormed) {other : Grammar}
    (start_eq : other.start = grammar.start) (symbols_eq : other.symbols = grammar.symbols)
    (rules_eq : other.rules = grammar.rules) : other.WellFormed := by
  obtain ⟨nodup, mem, nonterminal, rule_mem, rule_kind, rule_nodup, occurrence_mem⟩ := wellFormed
  constructor <;> simpa only [start_eq, symbols_eq, rules_eq]

theorem intern (wellFormed : grammar.WellFormed) (symbol : Symbol) :
    (grammar.intern symbol).WellFormed where
  symbols_nodup := InsertionOrder.nodup_insert wellFormed.symbols_nodup symbol
  start_mem := InsertionOrder.mem_insert.2 (.inl wellFormed.start_mem)
  start_isNonterminal := wellFormed.start_isNonterminal
  rule_mem rule rule_mem := InsertionOrder.mem_insert.2 (.inl (wellFormed.rule_mem rule rule_mem))
  rule_isNonterminal := wellFormed.rule_isNonterminal
  rule_nodup := wellFormed.rule_nodup
  occurrence_mem rule rule_mem alternative mem occurrence occurrence_mem :=
    InsertionOrder.mem_insert.2
      (.inl (wellFormed.occurrence_mem rule rule_mem alternative mem occurrence occurrence_mem))

theorem foldl_intern (wellFormed : grammar.WellFormed) (symbols : List Symbol) :
    (symbols.foldl Grammar.intern grammar).WellFormed := by
  induction symbols generalizing grammar with
  | nil => exact wellFormed
  | cons symbol symbols ih => exact ih (wellFormed.intern symbol)

theorem setAlternatives (wellFormed : grammar.WellFormed) {symbol : Symbol}
    (known : symbol ∈ grammar.symbols) {alternatives : List Alternative}
    (nodup : alternatives.Nodup)
    (mentioned : ∀ alternative ∈ alternatives, ∀ occurrence ∈ alternative,
      occurrence.symbol ∈ grammar.symbols) :
    (grammar.setAlternatives symbol alternatives).WellFormed := by
  unfold Grammar.setAlternatives
  split
  · exact wellFormed
  · next nonterminal =>
      have nonterminal : symbol.isNonterminal := by
        rw [← Symbol.not_isTerminal, Bool.not_eq_true' , ← Bool.not_eq_true]
        exact nonterminal
      obtain ⟨symbols_nodup, start_mem, start_kind, rule_mem, rule_kind, rule_nodup,
        occurrence_mem⟩ := wellFormed
      constructor <;> try assumption
      · intro rule mem
        rcases InsertionOrder.mem_of_mem_put mem with rfl | mem
        · exact known
        · exact rule_mem rule mem
      · intro rule mem
        rcases InsertionOrder.mem_of_mem_put mem with rfl | mem
        · exact nonterminal
        · exact rule_kind rule mem
      · intro rule mem
        rcases InsertionOrder.mem_of_mem_put mem with rfl | mem
        · exact nodup
        · exact rule_nodup rule mem
      · intro rule mem
        rcases InsertionOrder.mem_of_mem_put mem with rfl | mem
        · exact mentioned
        · exact occurrence_mem rule mem

theorem addAlternative (wellFormed : grammar.WellFormed) {symbol : Symbol}
    (known : symbol ∈ grammar.symbols) {alternative : Alternative}
    (mentioned : ∀ occurrence ∈ alternative, occurrence.symbol ∈ grammar.symbols) :
    (grammar.addAlternative symbol alternative).WellFormed := by
  refine wellFormed.setAlternatives known
    (InsertionOrder.nodup_insert (wellFormed.alternatives_nodup symbol) alternative) ?_
  intro other other_mem
  rcases InsertionOrder.mem_insert.1 other_mem with other_mem | rfl
  · exact fun occurrence => wellFormed.mentioned_mem other_mem
  · exact mentioned

end WellFormed

theorem wellFormed_ofStart (name : String) : (ofStart name).WellFormed := by
  constructor <;> simp [ofStart, Symbol.isNonterminal]

theorem mem_symbols_foldl_intern {symbols : List Symbol} {symbol : Symbol} :
    symbol ∈ (symbols.foldl intern grammar).symbols ↔
      symbol ∈ grammar.symbols ∨ symbol ∈ symbols := by
  induction symbols generalizing grammar with
  | nil => simp
  | cons first symbols ih => simp [ih, intern, or_assoc]

theorem symbols_setAlternatives (symbol : Symbol) (alternatives : List Alternative) :
    (grammar.setAlternatives symbol alternatives).symbols = grammar.symbols := by
  unfold setAlternatives
  split <;> rfl

theorem start_setAlternatives (symbol : Symbol) (alternatives : List Alternative) :
    (grammar.setAlternatives symbol alternatives).start = grammar.start := by
  unfold setAlternatives
  split <;> rfl

end Grammar

namespace Description

variable {grammar : Grammar}

theorem wellFormed_addAlternative (wellFormed : grammar.WellFormed) {symbol : Symbol}
    (known : symbol ∈ grammar.symbols) (alternative : Alternative) :
    (addAlternative symbol grammar alternative).WellFormed := by
  refine (wellFormed.foldl_intern _).addAlternative
    (Grammar.mem_symbols_foldl_intern.2 (.inl known)) fun occurrence occurrence_mem => ?_
  exact Grammar.mem_symbols_foldl_intern.2 (.inr (List.mem_map_of_mem occurrence_mem))

theorem mem_symbols_addAlternative {symbol other : Symbol} (known : other ∈ grammar.symbols)
    (alternative : Alternative) : other ∈ (addAlternative symbol grammar alternative).symbols := by
  rw [addAlternative, Grammar.addAlternative, Grammar.symbols_setAlternatives]
  exact Grammar.mem_symbols_foldl_intern.2 (.inl known)

theorem wellFormed_addRule (wellFormed : grammar.WellFormed) (rule : String × List Alternative) :
    (addRule grammar rule).WellFormed := by
  have added {grammar : Grammar} (wellFormed : grammar.WellFormed) {symbol : Symbol}
      (known : symbol ∈ grammar.symbols) (alternatives : List Alternative) :
      (alternatives.foldl (addAlternative symbol) grammar).WellFormed := by
    induction alternatives generalizing grammar with
    | nil => exact wellFormed
    | cons alternative alternatives ih =>
        exact ih (wellFormed_addAlternative wellFormed known alternative)
          (mem_symbols_addAlternative known alternative)
  exact added (wellFormed.intern _) (InsertionOrder.mem_insert.2 (.inr rfl)) rule.2

theorem wellFormed_toGrammar (description : Description) (start : String) :
    (description.toGrammar start).WellFormed := by
  have added {grammar : Grammar} (wellFormed : grammar.WellFormed)
      (rules : List (String × List Alternative)) : (rules.foldl addRule grammar).WellFormed := by
    induction rules generalizing grammar with
    | nil => exact wellFormed
    | cons rule rules ih => exact ih (wellFormed_addRule wellFormed rule)
  have started : ({ Grammar.ofStart start with name := description.name } : Grammar).WellFormed :=
    (Grammar.wellFormed_ofStart start).of_eq rfl rfl rfl
  exact (added (started.foldl_intern _) description.rules).of_eq rfl rfl rfl

theorem wellFormed_resolve {description : Description}
    (resolved : description.resolve = .ok grammar) : grammar.WellFormed := by
  unfold resolve at resolved
  split at resolved
  · cases resolved
  · next start _ =>
      split at resolved
      · split at resolved
        · cases resolved
        · cases resolved
          exact description.wellFormed_toGrammar start
      · cases resolved

end Description

end VisiblyPushdown
