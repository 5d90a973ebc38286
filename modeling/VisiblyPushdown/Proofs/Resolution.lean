import VisiblyPushdown.Proofs.Discovery
import VisiblyPushdown.Proofs.SymbolTable

/-!
# How a description resolves

A description resolves in one go: symbols are put into the table when they are met, and alternatives
are added to rules while other rules are still to come. The first occurrence that is not declared
stops it. `resolve_eq_enter` says that this comes to the same as looking for such an occurrence in
advance, so nothing depends on how far the table had grown.

What the grammar holds in the end is then read off the description: `resolve_outcome` gives the
exact reason of every failure and the alternatives of every symbol.
-/

namespace VisiblyPushdown

namespace InsertionOrder

variable {α : Type} [DecidableEq α]

theorem distinct_cons (member : α) (members : List α) :
    distinct (member :: members) = member :: distinct (members.filter (· ≠ member)) := by
  have grown := insertAll_eq_append [member] members
  simpa [distinct, insertAll, insert] using grown

/-- Distinct members are what is left when later duplicates are removed. -/
theorem distinct_eq_eraseDups [BEq α] [LawfulBEq α] (members : List α) :
    distinct members = members.eraseDups := by
  induction count : members.length using Nat.strongRecOn generalizing members
  next count ih =>
  subst count
  cases members with
  | nil => rfl
  | cons member members =>
      have fewer := List.length_filter_le (· ≠ member) members
      rw [distinct_cons, List.eraseDups_cons, ih _ (by simp only [List.length_cons]; omega) _ rfl]
      congr 2
      apply List.filter_congr
      intro other _
      simp [beq_eq_decide]

/-- No two entries of a map have the same key. -/
theorem filter_key {κ β : Type} [DecidableEq κ] {entries : List (κ × β)}
    (unique : (entries.map Prod.fst).Nodup) {entry : κ × β} (mem : entry ∈ entries) :
    entries.filter (·.1 = entry.1) = [entry] := by
  induction entries with
  | nil => cases mem
  | cons first entries ih =>
      simp only [List.map_cons, List.nodup_cons, List.mem_map, not_exists, not_and] at unique
      rcases List.mem_cons.1 mem with rfl | mem
      · have others : entries.filter (·.1 = entry.1) = [] := by
          apply List.filter_eq_nil_iff.2
          intro other other_mem same
          exact unique.1 other other_mem (of_decide_eq_true same)
        rw [List.filter_cons_of_pos (by simp), others]
      · have different : first.1 ≠ entry.1 := fun same => unique.1 entry mem same.symm
        rw [List.filter_cons_of_neg (by simpa using different)]
        exact ih unique.2 mem

end InsertionOrder

section Checking

variable {ε σ τ α β : Type}

/-- The result, unless something was found that is at fault. -/
def barring (fault : α → ε) (result : σ) : Option α → Except ε σ
  | some item => .error (fault item)
  | none => .ok result

theorem barring_bind (fault : α → ε) (result : σ) (next : σ → τ) (found : Option α) :
    (do return next (← barring fault result found)) = barring fault (next result) found := by
  cases found <;> rfl

/-- A run over parts stops at the first item of all parts that does not pass. -/
theorem foldlM_barring {fault : α → ε} {fails : α → Bool} {items : β → List α} {take : σ → β → σ}
    {step : σ → β → Except ε σ}
    (step_eq : ∀ state part, step state part =
      barring fault (take state part) ((items part).find? fails))
    (parts : List β) (state : σ) :
    parts.foldlM step state =
      barring fault (parts.foldl take state) ((parts.flatMap items).find? fails) := by
  induction parts generalizing state with
  | nil => rfl
  | cons part parts ih =>
      rw [List.foldlM_cons, step_eq, List.flatMap_cons, List.find?_append]
      cases (items part).find? fails with
      | some item => rfl
      | none => exact ih (take state part)

end Checking

/-- A symbol is read back from its place in the table. -/
theorem Grammar.WellFormed.getElem?_symbols_iff {grammar : Grammar}
    (wellFormed : grammar.WellFormed) {place : Nat} {symbol : Symbol} :
    grammar.symbols[place]? = some symbol ↔ grammar.index? symbol = some place := by
  refine ⟨wellFormed.index?_of_getElem?, ?_⟩
  intro found
  rcases List.idxOf?_eq_some_iff.1 found with ⟨bound, symbol_eq, _⟩
  rw [List.getElem?_eq_getElem bound, symbol_eq]

namespace Description

variable {description : Description} {grammar : Grammar} {name : String} {symbol : Symbol}

/-- Puts the symbol of an occurrence into the table, if it is declared. -/
def enterOccurrence (description : Description) (grammar : Grammar) (occurrence : Occurrence) :
    Except GrammarError Grammar :=
  if description.declares occurrence.symbol then .ok (grammar.intern occurrence.symbol)
  else .error (.unknownSymbol occurrence.symbol.name)

/-- Enters the occurrences of an alternative, one by one, and adds it to a nonterminal. -/
def enterAlternative (description : Description) (symbol : Symbol) (grammar : Grammar)
    (alternative : Alternative) : Except GrammarError Grammar := do
  let grammar ← alternative.foldlM description.enterOccurrence grammar
  return grammar.addAlternative symbol alternative

/-- Enters a rule, its name first. -/
def enterRule (description : Description) (grammar : Grammar) (rule : String × List Alternative) :
    Except GrammarError Grammar :=
  let symbol : Symbol := ⟨rule.1, .nonterminal⟩
  rule.2.foldlM (description.enterAlternative symbol) (grammar.intern symbol)

/-- Enters the start name, the declared nonterminals, the declared terminals and then the rules. -/
def enter (description : Description) (start : String) : Except GrammarError Grammar := do
  let internAs (kind : Kind) (grammar : Grammar) (name : String) := grammar.intern ⟨name, kind⟩
  let grammar : Grammar := { Grammar.ofStart start with name := description.name }
  let grammar := description.nonterminals.foldl (internAs .nonterminal) grammar
  let grammar := description.terminals.foldl (internAs .terminal) grammar
  let grammar ← description.rules.foldlM description.enterRule grammar
  return grammar.refresh

/-- The occurrences of all rules, in the order of rules, alternatives and places. -/
def occurrences (description : Description) : List Occurrence :=
  description.rules.flatMap fun rule => rule.2.flatten

/-- Whether a symbol is declared: each name with its kind, and rules declare their names. -/
inductive IsDeclared (description : Description) : Symbol → Prop
  | terminal {name : String} : name ∈ description.terminals →
      IsDeclared description ⟨name, .terminal⟩
  | nonterminal {name : String} : name ∈ description.nonterminals →
      IsDeclared description ⟨name, .nonterminal⟩
  | rule {name : String} : name ∈ description.rules.map Prod.fst →
      IsDeclared description ⟨name, .nonterminal⟩

/-- Whether there is a start name and it is declared. -/
def HasStart (description : Description) : Prop :=
  ∃ start, description.start = some start ∧ description.IsDeclared ⟨start, .nonterminal⟩

/-- Whether an occurrence is the first one of all that is not declared. -/
def IsFirstUndeclared (description : Description) (occurrence : Occurrence) : Prop :=
  ∃ before after, description.occurrences = before ++ occurrence :: after ∧
    (∀ earlier ∈ before, description.IsDeclared earlier.symbol) ∧
    ¬ description.IsDeclared occurrence.symbol

theorem declaresNonterminal_iff :
    description.declaresNonterminal name ↔ description.IsDeclared ⟨name, .nonterminal⟩ := by
  simp only [declaresNonterminal, Bool.or_eq_true, decide_eq_true_iff]
  constructor
  · rintro (listed | ruled)
    · exact .nonterminal listed
    · apply IsDeclared.rule
      by_contra missing
      simp [InsertionOrder.lookup_eq_none.2 missing] at ruled
  · rintro (_ | listed | ruled)
    · exact .inl listed
    · right
      apply Option.isSome_iff_ne_none.2
      intro missing
      exact InsertionOrder.lookup_eq_none.1 missing ruled

theorem declares_iff : description.declares symbol ↔ description.IsDeclared symbol := by
  rcases symbol with ⟨name, _ | _⟩
  · simp only [declares, decide_eq_true_iff]
    constructor
    · exact .terminal
    · rintro (listed | _)
      exact listed
  · exact declaresNonterminal_iff

/-- The first one of some occurrences that is not declared. -/
def firstUndeclared? (description : Description) (found : List Occurrence) : Option Occurrence :=
  found.find? fun occurrence => !description.declares occurrence.symbol

theorem undeclared?_eq (description : Description) :
    description.undeclared? =
      (description.firstUndeclared? description.occurrences).map Occurrence.symbol := by
  have listed : (description.rules.flatMap fun rule => rule.2.flatMap (·.map Occurrence.symbol)) =
      description.occurrences.map Occurrence.symbol := by
    simp [occurrences, List.flatMap_def, List.map_flatten, Function.comp_def]
  rw [undeclared?, listed, List.find?_map]
  rfl

section Entering

variable (description) (grammar)

/-- The result of a run that stops at an occurrence that is not declared. -/
abbrev unlessUndeclared (result : Grammar) (found : List Occurrence) :
    Except GrammarError Grammar :=
  barring (fun occurrence => .unknownSymbol occurrence.symbol.name) result
    (description.firstUndeclared? found)

theorem enterOccurrence_eq (occurrence : Occurrence) :
    description.enterOccurrence grammar occurrence =
      description.unlessUndeclared (grammar.intern occurrence.symbol) [occurrence] := by
  unfold enterOccurrence unlessUndeclared firstUndeclared?
  cases known : description.declares occurrence.symbol <;> simp [known, barring]

theorem enterAlternative_eq (symbol : Symbol) (alternative : Alternative) :
    description.enterAlternative symbol grammar alternative =
      description.unlessUndeclared (addAlternative symbol grammar alternative) alternative := by
  have entered := foldlM_barring description.enterOccurrence_eq alternative grammar
  rw [List.flatMap_singleton'] at entered
  rw [enterAlternative, entered, barring_bind, addAlternative, List.foldl_map]
  rfl

theorem enterRule_eq (rule : String × List Alternative) :
    description.enterRule grammar rule =
      description.unlessUndeclared (addRule grammar rule) rule.2.flatten := by
  have entered := foldlM_barring
    (fun grammar => description.enterAlternative_eq grammar ⟨rule.1, .nonterminal⟩) rule.2
    (grammar.intern ⟨rule.1, .nonterminal⟩)
  rw [List.flatMap_id'] at entered
  exact entered

theorem enter_eq (start : String) :
    description.enter start =
      description.unlessUndeclared (description.toGrammar start) description.occurrences := by
  have entered := foldlM_barring description.enterRule_eq description.rules
  simp only [enter, entered, barring_bind, toGrammar, List.foldl_append, List.foldl_map]
  rfl

end Entering

/-- Checking each occurrence when it is met is as good as checking all of them in advance. -/
theorem resolve_eq_enter (description : Description) :
    description.resolve =
      match description.start with
      | none => .error (.noRules description.displayName)
      | some start =>
        if description.declaresNonterminal start then description.enter start
        else .error (.noRules description.displayName) := by
  unfold resolve
  cases description.start with
  | none => rfl
  | some start =>
      simp only [enter_eq, unlessUndeclared, undeclared?_eq]
      cases description.firstUndeclared? description.occurrences <;> rfl

theorem isFirstUndeclared_iff {occurrence : Occurrence} :
    description.IsFirstUndeclared occurrence ↔
      description.firstUndeclared? description.occurrences = some occurrence := by
  simp only [IsFirstUndeclared, firstUndeclared?, List.find?_eq_some_iff_append, ← declares_iff]
  simp
  tauto

/-- With a start, only occurrences can fail. -/
theorem resolve_of_hasStart (started : description.HasStart) :
    ∃ start, description.start = some start ∧ description.resolve =
      description.unlessUndeclared (description.toGrammar start) description.occurrences := by
  rcases started with ⟨start, start_eq, declared⟩
  refine ⟨start, start_eq, ?_⟩
  rw [resolve_eq_enter, start_eq]
  simp only [declaresNonterminal_iff.2 declared, if_true, enter_eq]

theorem resolve_of_not_hasStart (missing : ¬ description.HasStart) :
    description.resolve = .error (.noRules description.displayName) := by
  unfold resolve
  cases start_eq : description.start with
  | none => rfl
  | some start =>
      have undeclared : ¬ description.declaresNonterminal start := by
        intro declared
        exact missing ⟨start, start_eq, declaresNonterminal_iff.1 declared⟩
      simp only [undeclared]
      rfl

theorem resolve_eq_noRules_iff :
    description.resolve = .error (.noRules description.displayName) ↔ ¬ description.HasStart := by
  refine ⟨?_, resolve_of_not_hasStart⟩
  intro failed started
  rcases resolve_of_hasStart started with ⟨start, _, resolve_eq⟩
  rw [resolve_eq, unlessUndeclared] at failed
  cases found : description.firstUndeclared? description.occurrences <;>
    simp [found, barring] at failed

theorem resolve_eq_unknownSymbol_iff :
    description.resolve = .error (.unknownSymbol name) ↔
      description.HasStart ∧ ∃ occurrence, description.IsFirstUndeclared occurrence ∧
        occurrence.symbol.name = name := by
  by_cases started : description.HasStart
  · rcases resolve_of_hasStart started with ⟨start, _, resolve_eq⟩
    rw [resolve_eq, unlessUndeclared]
    simp only [started, true_and, isFirstUndeclared_iff]
    cases description.firstUndeclared? description.occurrences <;> simp [barring]
  · simp [resolve_of_not_hasStart started, started]

theorem exists_resolve_eq_ok_iff :
    (∃ grammar, description.resolve = .ok grammar) ↔
      description.HasStart ∧
        ∀ occurrence ∈ description.occurrences, description.IsDeclared occurrence.symbol := by
  have all_declared : (∀ occurrence ∈ description.occurrences,
      description.IsDeclared occurrence.symbol) ↔
        description.firstUndeclared? description.occurrences = none := by
    simp [firstUndeclared?, ← declares_iff]
  by_cases started : description.HasStart
  · rcases resolve_of_hasStart started with ⟨start, _, resolve_eq⟩
    rw [resolve_eq, unlessUndeclared, all_declared]
    simp only [started, true_and]
    cases description.firstUndeclared? description.occurrences <;> simp [barring]
  · simp [resolve_of_not_hasStart started, started]

theorem name_toGrammar (description : Description) (start : String) :
    (description.toGrammar start).name = description.name := by
  have kept {ι : Type} {step : Grammar → ι → Grammar}
      (keeps : ∀ grammar item, (step grammar item).name = grammar.name) (items : List ι)
      (grammar : Grammar) : (items.foldl step grammar).name = grammar.name := by
    induction items generalizing grammar with
    | nil => rfl
    | cons item items ih => rw [List.foldl_cons, ih, keeps]
  have keeps_intern (grammar : Grammar) (symbol : Symbol) :
      (grammar.intern symbol).name = grammar.name := rfl
  have keeps_alternative (symbol : Symbol) (grammar : Grammar) (alternative : Alternative) :
      (addAlternative symbol grammar alternative).name = grammar.name := by
    rw [addAlternative, Grammar.addAlternative, Grammar.setAlternatives]
    split <;> exact kept keeps_intern _ grammar
  have keeps_rule (grammar : Grammar) (rule : String × List Alternative) :
      (addRule grammar rule).name = grammar.name :=
    kept (keeps_alternative _) rule.2 _
  exact (kept keeps_rule description.rules _).trans (kept keeps_intern _ _)

theorem alternatives_toGrammar_of_rule (unique : (description.rules.map Prod.fst).Nodup)
    {rule : String × List Alternative} (rule_mem : rule ∈ description.rules) (start : String) :
    (description.toGrammar start).alternatives ⟨rule.1, .nonterminal⟩ = rule.2.eraseDups := by
  rw [alternatives_toGrammar, InsertionOrder.filter_key unique rule_mem, List.flatMap_singleton,
    InsertionOrder.distinct_eq_eraseDups]

theorem alternatives_toGrammar_of_no_rule (start : String)
    (absent : symbol.kind = .nonterminal → symbol.name ∉ description.rules.map Prod.fst) :
    (description.toGrammar start).alternatives symbol = [] := by
  rcases symbol with ⟨name, _ | _⟩
  · exact (description.wellFormed_toGrammar start).alternatives_of_isTerminal rfl
  · have none_left : description.rules.filter (·.1 = name) = [] := by
      apply List.filter_eq_nil_iff.2
      intro rule rule_mem named
      exact absent rfl (of_decide_eq_true named ▸ List.mem_map_of_mem rule_mem)
    rw [alternatives_toGrammar, none_left]
    rfl

/-- The table of a grammar that resolved has the declared symbols. -/
theorem mem_symbols_iff_isDeclared (resolved : description.resolve = .ok grammar) :
    symbol ∈ grammar.symbols ↔ description.IsDeclared symbol := by
  constructor
  · intro known
    exact declares_iff.1 (declares_of_mem_symbols resolved known)
  · rcases resolve_eq_ok_iff.1 resolved with ⟨start, _, _, _, rfl⟩
    rw [mem_symbols_toGrammar]
    rintro (listed | listed | ruled)
    · exact .inr (.inr (.inl ⟨_, listed, rfl⟩))
    · exact .inr (.inl ⟨_, listed, rfl⟩)
    · rcases List.mem_map.1 ruled with ⟨rule, rule_mem, rfl⟩
      exact .inr (.inr (.inr ⟨rule, rule_mem, .inl rfl⟩))

/--
A description resolves unless its start is missing or an occurrence is not declared with its kind,
and then the first such occurrence is named. If it resolves, the alternatives of a rule are those
that were written, in their order and without later duplicates, and no other symbol has any. The
table has exactly the declared symbols, each with a place of its own.
-/
theorem resolve_outcome (description : Description)
    (unique : (description.rules.map Prod.fst).Nodup) :
    (description.resolve = .error (.noRules description.displayName) ↔ ¬ description.HasStart) ∧
    (∀ name, description.resolve = .error (.unknownSymbol name) ↔
      description.HasStart ∧ ∃ occurrence, description.IsFirstUndeclared occurrence ∧
        occurrence.symbol.name = name) ∧
    ((∃ grammar, description.resolve = .ok grammar) ↔
      description.HasStart ∧
        ∀ occurrence ∈ description.occurrences, description.IsDeclared occurrence.symbol) ∧
    ∀ grammar, description.resolve = .ok grammar →
      grammar.name = description.name ∧
      description.start = some grammar.start.name ∧ grammar.start.kind = .nonterminal ∧
      (∀ rule ∈ description.rules,
        grammar.alternatives ⟨rule.1, .nonterminal⟩ = rule.2.eraseDups) ∧
      (∀ symbol : Symbol,
        (symbol.kind = .nonterminal → symbol.name ∉ description.rules.map Prod.fst) →
          grammar.alternatives symbol = []) ∧
      (∀ symbol, (∃ place, grammar.index? symbol = some place) ↔ description.IsDeclared symbol) ∧
      (∀ place symbol, grammar.symbols[place]? = some symbol ↔
        grammar.index? symbol = some place) ∧
      ∀ name place, grammar.index? ⟨name, .terminal⟩ = some place →
        grammar.index? ⟨name, .nonterminal⟩ ≠ some place := by
  refine ⟨resolve_eq_noRules_iff, fun name => resolve_eq_unknownSymbol_iff,
    exists_resolve_eq_ok_iff, ?_⟩
  intro grammar resolved
  have table (symbol : Symbol) : symbol ∈ grammar.symbols ↔ description.IsDeclared symbol :=
    mem_symbols_iff_isDeclared resolved
  rcases resolve_eq_ok_iff.1 resolved with ⟨start, start_eq, _, _, rfl⟩
  have wellFormed := description.wellFormed_toGrammar start
  refine ⟨name_toGrammar description start, ?_, ?_, ?_, ?_, ?_, ?_, ?_⟩
  · rw [start_toGrammar, start_eq]
  · rw [start_toGrammar]
  · exact fun rule rule_mem => alternatives_toGrammar_of_rule unique rule_mem start
  · exact fun symbol absent => alternatives_toGrammar_of_no_rule start absent
  · intro symbol
    simp only [← table symbol, List.mem_iff_getElem?, wellFormed.getElem?_symbols_iff]
  · exact fun place symbol => wellFormed.getElem?_symbols_iff
  · intro name place terminal nonterminal
    rw [← wellFormed.getElem?_symbols_iff] at terminal nonterminal
    rw [terminal] at nonterminal
    cases nonterminal

/-- Cells and rows, with a rule that mentions a later one and a name that is used twice. -/
def table : Description :=
  { name := some "table"
    start := some "row"
    terminals := ["row", ","]
    nonterminals := ["cell", "spare"]
    rules :=
      [("row",
          [[.bare ⟨"cell", .nonterminal⟩, .bare ⟨",", .terminal⟩, .bare ⟨"row", .nonterminal⟩], [],
            [.bare ⟨"cell", .nonterminal⟩, .bare ⟨",", .terminal⟩, .bare ⟨"row", .nonterminal⟩]]),
        ("cell", [[⟨⟨"row", .terminal⟩, .star⟩], [.bare ⟨"row", .terminal⟩]])] }

/-- The table with two places in one alternative that mention nothing that is declared. -/
def tableWithGaps : Description :=
  { table with rules := table.rules ++
      [("last", [[], [.bare ⟨"row", .terminal⟩, .bare ⟨"cell", .terminal⟩,
        .bare ⟨"none", .nonterminal⟩]])] }

theorem resolve_outcome_table :
    (table.rules.map Prod.fst).Nodup ∧ (tableWithGaps.rules.map Prod.fst).Nodup ∧
      (∃ grammar, table.resolve = .ok grammar ∧
        grammar.alternatives ⟨"row", .nonterminal⟩ =
          [[.bare ⟨"cell", .nonterminal⟩, .bare ⟨",", .terminal⟩, .bare ⟨"row", .nonterminal⟩],
            []] ∧
        grammar.alternatives ⟨"spare", .nonterminal⟩ = [] ∧
        grammar.index? ⟨"row", .terminal⟩ ≠ grammar.index? ⟨"row", .nonterminal⟩) ∧
      tableWithGaps.resolve = .error (.unknownSymbol "cell") := by
  have unique : (table.rules.map Prod.fst).Nodup := by decide
  have unique_gaps : (tableWithGaps.rules.map Prod.fst).Nodup := by decide
  have started : HasStart table := ⟨"row", rfl, .rule (by decide)⟩
  have started_gaps : HasStart tableWithGaps := ⟨"row", rfl, .rule (by decide)⟩
  rcases resolve_outcome table unique with ⟨_, _, succeeds, holds⟩
  rcases succeeds.2 ⟨started, fun occurrence mem => declares_iff.1 (by revert occurrence; decide)⟩
    with ⟨grammar, resolved⟩
  rcases holds grammar resolved with ⟨_, _, _, ruled, unruled, listed, _, apart⟩
  refine ⟨unique, unique_gaps, ⟨grammar, resolved, ?_, ?_, ?_⟩, ?_⟩
  · exact ruled _ List.mem_cons_self
  · exact unruled _ (by decide)
  · rcases (listed ⟨"row", .terminal⟩).2 (.terminal (by decide)) with ⟨place, place_eq⟩
    rw [place_eq]
    exact (apart "row" place place_eq).symm
  · apply ((resolve_outcome tableWithGaps unique_gaps).2.1 "cell").2
    refine ⟨started_gaps, .bare ⟨"cell", .terminal⟩, isFirstUndeclared_iff.2 ?_, rfl⟩
    decide

end Description

end VisiblyPushdown
