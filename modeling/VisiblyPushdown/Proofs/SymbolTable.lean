import VisiblyPushdown.Proofs.Built
import VisiblyPushdown.Proofs.NumberedSymbols
import VisiblyPushdown.Proofs.Resolve
import VisiblyPushdown.Proofs.TerminalRoles

/-!
# The symbol table over time

A grammar is put together, tagged and rewritten by operations that may come in any order, also in
orders that an analysis never uses. None of them moves a symbol of the table: new symbols go behind
the old ones. So a position in the table names one symbol for good.

`Consistent` is the invariant of all operations. The two passes that rewrite rules keep the table
and leave the tagging alone (`KeepsTable`), and the passes that tag take terminals from the rules.

The table stands for two, a table of names and a table of numbered symbols. As symbols are only ever
interned, one after the other, these two stay in step with each other (`NumberedSymbols`).
-/

namespace VisiblyPushdown

open Relation (ReflTransGen)

theorem InsertionOrder.prefix_insert {α : Type} [DecidableEq α] (members : List α) (member : α) :
    members <+: insert members member := by
  unfold insert
  split
  · exact List.prefix_rfl
  · exact List.prefix_append _ _

namespace Grammar

variable {grammar earlier middle later : Grammar}

/-- Whether a grammar has the table of an earlier one, with new symbols at its end, and its tags. -/
structure KeepsTable (earlier later : Grammar) : Prop where
  keeps_symbols : earlier.symbols <+: later.symbols
  pairs_eq : later.pairs = earlier.pairs
  plain_eq : later.plain = earlier.plain
  calls_eq : later.calls = earlier.calls
  returns_eq : later.returns = earlier.returns

namespace KeepsTable

theorem refl (grammar : Grammar) : grammar.KeepsTable grammar :=
  ⟨List.prefix_rfl, rfl, rfl, rfl, rfl⟩

theorem trans (first : earlier.KeepsTable middle) (second : middle.KeepsTable later) :
    earlier.KeepsTable later where
  keeps_symbols := first.keeps_symbols.trans second.keeps_symbols
  pairs_eq := second.pairs_eq.trans first.pairs_eq
  plain_eq := second.plain_eq.trans first.plain_eq
  calls_eq := second.calls_eq.trans first.calls_eq
  returns_eq := second.returns_eq.trans first.returns_eq

end KeepsTable

theorem keepsTable_intern (grammar : Grammar) (symbol : Symbol) :
    grammar.KeepsTable (grammar.intern symbol) :=
  ⟨InsertionOrder.prefix_insert _ _, rfl, rfl, rfl, rfl⟩

theorem keepsTable_setAlternatives (grammar : Grammar) (symbol : Symbol)
    (alternatives : List Alternative) :
    grammar.KeepsTable (grammar.setAlternatives symbol alternatives) := by
  unfold setAlternatives
  split
  · exact .refl grammar
  · exact ⟨List.prefix_rfl, rfl, rfl, rfl, rfl⟩

theorem keepsTable_addAlternative (grammar : Grammar) (symbol : Symbol)
    (alternative : Alternative) :
    grammar.KeepsTable (grammar.addAlternative symbol alternative) :=
  keepsTable_setAlternatives grammar symbol _

theorem keepsTable_refresh (grammar : Grammar) : grammar.KeepsTable grammar.refresh :=
  ⟨List.prefix_rfl, rfl, rfl, rfl, rfl⟩

theorem keepsTable_foldl_intern (grammar : Grammar) (symbols : List Symbol) :
    grammar.KeepsTable (symbols.foldl intern grammar) := by
  induction symbols generalizing grammar with
  | nil => exact .refl grammar
  | cons symbol symbols ih => exact (keepsTable_intern grammar symbol).trans (ih _)

theorem keepsTable_unwind (grammar : Grammar) (symbol : Symbol) :
    grammar.KeepsTable (grammar.unwind symbol).1 := by
  by_cases recursive : grammar.isImmediatelyLeftRecursive symbol
  · rw [unwind_of_recursive recursive]
    dsimp only
    apply (keepsTable_intern grammar _).trans
    apply (keepsTable_setAlternatives _ _ _).trans
    exact keepsTable_setAlternatives _ _ _
  · rw [unwind, if_neg recursive]
    exact .refl grammar

theorem keepsTable_removeLeftRecursion (grammar : Grammar) :
    grammar.KeepsTable grammar.removeLeftRecursion.1 := by
  have unwound (symbols : List Symbol) (state : Grammar × List Symbol)
      (kept : grammar.KeepsTable state.1) :
      grammar.KeepsTable (symbols.foldl (fun state symbol =>
        ((state.1.unwind symbol).1, state.2 ++ (state.1.unwind symbol).2)) state).1 := by
    induction symbols generalizing state with
    | nil => exact kept
    | cons symbol symbols ih => exact ih _ (kept.trans (keepsTable_unwind state.1 symbol))
  exact (unwound _ (grammar, []) (.refl grammar)).trans (keepsTable_refresh _)

end Grammar

namespace Description

open Grammar

theorem keepsTable_addAlternative (symbol : Symbol) (grammar : Grammar)
    (alternative : Alternative) :
    grammar.KeepsTable (addAlternative symbol grammar alternative) :=
  (keepsTable_foldl_intern grammar _).trans (Grammar.keepsTable_addAlternative _ _ _)

theorem keepsTable_addRule (grammar : Grammar) (rule : String × List Alternative) :
    grammar.KeepsTable (addRule grammar rule) := by
  have added (symbol : Symbol) (alternatives : List Alternative) (grammar : Grammar) :
      grammar.KeepsTable (alternatives.foldl (addAlternative symbol) grammar) := by
    induction alternatives generalizing grammar with
    | nil => exact .refl grammar
    | cons alternative alternatives ih =>
        exact (keepsTable_addAlternative symbol grammar alternative).trans (ih _)
  exact (keepsTable_intern grammar _).trans (added _ rule.2 _)

theorem keepsTable_toGrammar (description : Description) (start : String) :
    (Grammar.ofStart start).KeepsTable (description.toGrammar start) := by
  have added (rules : List (String × List Alternative)) (grammar : Grammar) :
      grammar.KeepsTable (rules.foldl addRule grammar) := by
    induction rules generalizing grammar with
    | nil => exact .refl grammar
    | cons rule rules ih => exact (keepsTable_addRule grammar rule).trans (ih _)
  let named : Grammar := { Grammar.ofStart start with name := description.name }
  have kept : (Grammar.ofStart start).KeepsTable named := ⟨List.prefix_rfl, rfl, rfl, rfl, rfl⟩
  apply kept.trans
  apply (keepsTable_foldl_intern named _).trans
  exact (added description.rules _).trans (keepsTable_refresh _)

end Description

namespace SpanExtraction

open Grammar

variable (brackets : List TerminalPair) (extraction : SpanExtraction)

theorem keepsTable_extract (span : Alternative) :
    extraction.grammar.KeepsTable (extraction.extract span).2.grammar := by
  unfold extract
  dsimp only
  split
  · exact .refl _
  · dsimp only
    exact (keepsTable_intern _ _).trans (keepsTable_addAlternative _ _ _)

theorem keepsTable_shorten (skip : Nat) (alternative : Alternative) :
    extraction.grammar.KeepsTable (extraction.shorten brackets skip alternative).2.grammar := by
  induction alternative generalizing extraction skip with
  | nil => exact .refl _
  | cons occurrence rest ih =>
      cases skip with
      | succ skip => exact ih extraction skip
      | zero =>
          rw [shorten]
          split
          · exact (keepsTable_extract extraction _).trans (ih _ _)
          · exact ih extraction 0

theorem keepsTable_shortenEach (finished alternatives : List Alternative) :
    extraction.grammar.KeepsTable
      (shortenEach brackets finished extraction alternatives).2.grammar := by
  induction alternatives generalizing extraction finished with
  | nil => exact .refl _
  | cons alternative rest ih =>
      rw [shortenEach_cons]
      exact (keepsTable_shorten brackets extraction 0 alternative).trans (ih _ _)

theorem keepsTable_shortenRule (symbol : Symbol) :
    extraction.grammar.KeepsTable (extraction.shortenRule brackets symbol).grammar := by
  rw [shortenRule_eq]
  apply (keepsTable_setAlternatives extraction.grammar symbol []).trans
  apply (keepsTable_shortenEach brackets (extraction.withAlternatives symbol []) [] _).trans
  exact keepsTable_setAlternatives _ _ _

theorem keepsTable_shortenAll (rules : Nat) (queue : List Symbol) :
    extraction.grammar.KeepsTable (extraction.shortenAll brackets rules queue).grammar := by
  induction rules generalizing extraction queue with
  | zero => exact .refl _
  | succ rules ih =>
      cases queue with
      | nil => exact .refl _
      | cons symbol queue =>
          exact (keepsTable_shortenRule brackets extraction symbol).trans (ih _ _)

end SpanExtraction

namespace Grammar

variable {grammar earlier later : Grammar}

theorem keepsTable_toSimpleForm (grammar : Grammar) :
    grammar.KeepsTable grammar.toSimpleForm.1 := by
  unfold toSimpleForm
  split
  · exact .refl grammar
  · have extracted := SpanExtraction.keepsTable_shortenAll grammar.brackets { grammar }
      (grammar.reachable.length + grammar.callOccurrenceCount) grammar.reachable
    exact extracted.trans (keepsTable_refresh _)

/-- Whether a symbol is a terminal of the table. -/
def HasTerminal (grammar : Grammar) (symbol : Symbol) : Prop :=
  symbol ∈ grammar.symbols ∧ symbol.isTerminal

/--
Whether a grammar is well formed, its tagging speaks of terminals of the table only, and no terminal
is both call and return.
-/
structure Consistent (grammar : Grammar) : Prop where
  wellFormed : grammar.WellFormed
  pairs : ∀ pair ∈ grammar.pairs, grammar.HasTerminal pair.1 ∧ grammar.HasTerminal pair.2
  plain : ∀ terminal ∈ grammar.plain, grammar.HasTerminal terminal
  calls : ∀ call ∈ grammar.calls, grammar.HasTerminal call
  returns : ∀ ret ∈ grammar.returns, grammar.HasTerminal ret
  calls_returns : ∀ call ∈ grammar.calls, call ∉ grammar.returns

theorem WellFormed.hasTerminal_of_mem_reachableAlternatives (wellFormed : grammar.WellFormed)
    {alternative : Alternative} (mem : alternative ∈ grammar.reachableAlternatives)
    {occurrence : Occurrence} (occurrence_mem : occurrence ∈ alternative)
    (terminal : occurrence.symbol.isTerminal) : grammar.HasTerminal occurrence.symbol := by
  rcases List.mem_flatMap.1 mem with ⟨symbol, _, alternative_mem⟩
  exact ⟨wellFormed.mentioned_mem alternative_mem occurrence_mem, terminal⟩

namespace Consistent

theorem of_keepsTable (consistent : earlier.Consistent) (kept : earlier.KeepsTable later)
    (wellFormed : later.WellFormed) : later.Consistent := by
  have still {symbol : Symbol} (listed : earlier.HasTerminal symbol) : later.HasTerminal symbol :=
    ⟨kept.keeps_symbols.subset listed.1, listed.2⟩
  refine ⟨wellFormed, ?_, ?_, ?_, ?_, ?_⟩
  · intro pair mem
    rw [kept.pairs_eq] at mem
    exact (consistent.pairs pair mem).imp still still
  · intro terminal mem
    rw [kept.plain_eq] at mem
    exact still (consistent.plain terminal mem)
  · intro call mem
    rw [kept.calls_eq] at mem
    exact still (consistent.calls call mem)
  · intro ret mem
    rw [kept.returns_eq] at mem
    exact still (consistent.returns ret mem)
  · rw [kept.calls_eq, kept.returns_eq]
    exact consistent.calls_returns

theorem harvest (consistent : grammar.Consistent) : grammar.harvest.Consistent := by
  have wellFormed := consistent.wellFormed
  refine ⟨wellFormed.of_eq rfl rfl rfl, ?_, ?_, consistent.calls, consistent.returns,
    consistent.calls_returns⟩
  · intro pair mem
    rcases List.mem_flatMap.1 mem with ⟨alternative, alternative_mem, pair_mem⟩
    have listed {terminal : Symbol} (bare_mem : terminal ∈ alternative.bareTerminals) :
        grammar.HasTerminal terminal := by
      rcases Alternative.mem_bareTerminals.1 bare_mem with ⟨occurrence_mem, kind⟩
      exact wellFormed.hasTerminal_of_mem_reachableAlternatives alternative_mem occurrence_mem kind
    exact (TerminalPair.mem_of_mem_ofTerminals pair_mem).imp listed listed
  · intro terminal mem
    rcases mem_plain_harvest.1 mem with ⟨alternative, alternative_mem, barred⟩
    rcases Alternative.mem_untaggable.1 barred with ⟨kind, occurrence, occurrence_mem, rfl, _⟩
    exact wellFormed.hasTerminal_of_mem_reachableAlternatives alternative_mem occurrence_mem kind

theorem assignRoles (consistent : grammar.Consistent) (dropRejected : Bool) :
    (grammar.assignRoles dropRejected).Consistent := by
  rcases RoleAssignment.exists_pair_of_mem_ofPairs (.ofList compare grammar.plain) grammar.pairs
    with ⟨calls, returns⟩
  refine ⟨consistent.wellFormed.of_eq rfl rfl rfl, ?_, consistent.plain, ?_, ?_,
    (keepsRolesApart_assignRoles grammar dropRejected).calls_returns⟩
  · intro pair mem
    exact consistent.pairs pair (pairs_assignRoles_subset grammar dropRejected mem)
  · intro call call_mem
    rcases calls call call_mem with ⟨pair, mem, rfl⟩
    exact (consistent.pairs pair mem).1
  · intro ret ret_mem
    rcases returns ret ret_mem with ⟨pair, mem, rfl⟩
    exact (consistent.pairs pair mem).2

theorem demoteUnmatched (consistent : grammar.Consistent) : grammar.demoteUnmatched.Consistent := by
  refine ⟨consistent.wellFormed.of_eq rfl rfl rfl, consistent.pairs, ?_, ?_, ?_, ?_⟩
  · intro terminal mem
    rcases InsertionOrder.mem_insertAll.1 mem with old | demoted
    · exact consistent.plain terminal old
    · rw [unmatched_eq, InsertionOrder.mem_distinct, List.mem_flatMap] at demoted
      rcases demoted with ⟨alternative, alternative_mem, unmatched⟩
      have bare_mem := (List.mem_filter.1 unmatched).1
      rw [OrderedSet.toList_ofList, InsertionOrder.mem_distinct] at bare_mem
      rcases Alternative.mem_bareTerminals.1 bare_mem with ⟨occurrence_mem, kind⟩
      exact consistent.wellFormed.hasTerminal_of_mem_reachableAlternatives alternative_mem
        occurrence_mem kind
  · exact fun call mem => consistent.calls call (List.mem_of_mem_filter mem)
  · exact fun ret mem => consistent.returns ret (List.mem_of_mem_filter mem)
  · intro call call_mem ret_mem
    exact consistent.calls_returns call (List.mem_of_mem_filter call_mem)
      (List.mem_of_mem_filter ret_mem)

end Consistent

/-- One operation on a grammar. Alternatives are put together from symbols of the table. -/
inductive Step : Grammar → Grammar → Prop where
  | intern (grammar : Grammar) (symbol : Symbol) : Step grammar (grammar.intern symbol)
  | addAlternative {grammar : Grammar} {symbol : Symbol} (known : symbol ∈ grammar.symbols)
      {alternative : Alternative}
      (mentioned : ∀ occurrence ∈ alternative, occurrence.symbol ∈ grammar.symbols) :
      Step grammar (grammar.addAlternative symbol alternative)
  | removeLeftRecursion (grammar : Grammar) : Step grammar grammar.removeLeftRecursion.1
  | harvest (grammar : Grammar) : Step grammar grammar.harvest
  | assignRoles (grammar : Grammar) (dropRejected : Bool) :
      Step grammar (grammar.assignRoles dropRejected)
  | demoteUnmatched (grammar : Grammar) : Step grammar grammar.demoteUnmatched
  | tag (grammar : Grammar) (dropRejected : Bool) : Step grammar (grammar.tag dropRejected)
  | toSimpleForm (grammar : Grammar) : Step grammar grammar.toSimpleForm.1

/-- Whether a grammar holds its start symbol alone or comes from a description. -/
inductive IsInitial : Grammar → Prop where
  | ofStart (name : String) : IsInitial (.ofStart name)
  | resolve {description : Description} {grammar : Grammar}
      (resolved : description.resolve = .ok grammar) : IsInitial grammar

/-- No operation moves a symbol of the table. -/
theorem Step.keeps_symbols (step : Step earlier later) : earlier.symbols <+: later.symbols := by
  cases step with
  | intern symbol => exact (keepsTable_intern earlier symbol).keeps_symbols
  | addAlternative => exact (keepsTable_addAlternative earlier _ _).keeps_symbols
  | removeLeftRecursion => exact earlier.keepsTable_removeLeftRecursion.keeps_symbols
  | toSimpleForm => exact earlier.keepsTable_toSimpleForm.keeps_symbols
  | _ => exact List.prefix_rfl

theorem Step.consistent (step : Step earlier later) (consistent : earlier.Consistent) :
    later.Consistent := by
  have wellFormed := consistent.wellFormed
  cases step with
  | intern symbol =>
      exact consistent.of_keepsTable (keepsTable_intern earlier symbol) (wellFormed.intern symbol)
  | addAlternative known mentioned =>
      exact consistent.of_keepsTable (keepsTable_addAlternative earlier _ _)
        (wellFormed.addAlternative known mentioned)
  | removeLeftRecursion =>
      exact consistent.of_keepsTable earlier.keepsTable_removeLeftRecursion
        wellFormed.removeLeftRecursion
  | harvest => exact consistent.harvest
  | assignRoles dropRejected => exact consistent.assignRoles dropRejected
  | demoteUnmatched => exact consistent.demoteUnmatched
  | tag dropRejected =>
      exact ((consistent.harvest.assignRoles dropRejected).demoteUnmatched).assignRoles dropRejected
  | toSimpleForm =>
      exact consistent.of_keepsTable earlier.keepsTable_toSimpleForm wellFormed.toSimpleForm

theorem keeps_symbols_of_steps (steps : ReflTransGen Step earlier later) :
    earlier.symbols <+: later.symbols := by
  induction steps with
  | refl => exact List.prefix_rfl
  | tail _ step ih => exact ih.trans step.keeps_symbols

theorem Consistent.of_isInitial (initial : grammar.IsInitial) : grammar.Consistent := by
  have started (name : String) : (ofStart name).Consistent := by
    refine ⟨wellFormed_ofStart name, ?_, ?_, ?_, ?_, ?_⟩ <;> simp [ofStart]
  cases initial with
  | ofStart name => exact started name
  | resolve resolved =>
      have wellFormed := Description.wellFormed_resolve resolved
      rcases Description.resolve_eq_ok_iff.1 resolved with ⟨start, _, _, _, rfl⟩
      exact (started start).of_keepsTable (Description.keepsTable_toGrammar _ start) wellFormed

theorem Consistent.of_steps (initial : earlier.IsInitial)
    (steps : ReflTransGen Step earlier later) : later.Consistent := by
  induction steps with
  | refl => exact .of_isInitial initial
  | tail _ step ih => exact step.consistent ih

theorem WellFormed.index?_of_getElem? (wellFormed : grammar.WellFormed) {position : Nat}
    {symbol : Symbol} (found : grammar.symbols[position]? = some symbol) :
    grammar.index? symbol = some position := by
  rcases List.getElem?_eq_some_iff.1 found with ⟨bound, rfl⟩
  rw [index?, List.idxOf?_eq_some_iff]
  refine ⟨bound, rfl, fun other before same => ?_⟩
  exact before.ne ((List.Nodup.getElem_inj_iff wellFormed.symbols_nodup).1 same)

theorem WellFormed.represents_symbols (wellFormed : grammar.WellFormed) :
    (NumberedSymbols.ofSymbols grammar.symbols).Represents grammar.symbols :=
  NumberedSymbols.represents_ofSymbols wellFormed.symbols_nodup

/-- Interning a symbol in the table is interning it in the two tables behind it. -/
theorem WellFormed.intern_ofSymbols (wellFormed : grammar.WellFormed) (symbol : Symbol) :
    let tables := NumberedSymbols.ofSymbols grammar.symbols
    (tables.intern symbol).2 = .ofSymbols (grammar.intern symbol).symbols ∧
      (grammar.intern symbol).index? symbol = some (tables.intern symbol).1 :=
  ⟨NumberedSymbols.intern_ofSymbols wellFormed.symbols_nodup symbol,
    (wellFormed.represents_symbols.intern symbol).2⟩

/--
After any operations in any order: no two positions of the table have the same symbol, a symbol is
found at its position, and it stays there whatever operations follow. The start symbol is a
nonterminal, rules mention symbols of the table and repeat no alternative. The tagging speaks of
terminals of the table, and no call is a return. The table of names and the table of numbered
symbols agree on where a symbol is and on what stands at a position.
-/
theorem table_of_steps {initial grammar : Grammar} (from_initial : initial.IsInitial)
    (steps : ReflTransGen Step initial grammar) :
    (∀ (position other : Nat) (symbol : Symbol), grammar.symbols[position]? = some symbol →
      grammar.symbols[other]? = some symbol → position = other) ∧
    (∀ (position : Nat) (symbol : Symbol), grammar.symbols[position]? = some symbol →
      grammar.index? symbol = some position) ∧
    (∀ later, ReflTransGen Step grammar later → ∀ (position : Nat) (symbol : Symbol),
      grammar.symbols[position]? = some symbol → later.symbols[position]? = some symbol) ∧
    (grammar.start ∈ grammar.symbols ∧ grammar.start.isNonterminal) ∧
    (∀ symbol, ∀ alternative ∈ grammar.alternatives symbol, ∀ occurrence ∈ alternative,
      occurrence.symbol ∈ grammar.symbols) ∧
    (∀ symbol, (grammar.alternatives symbol).Nodup) ∧
    (∀ pair ∈ grammar.pairs, grammar.HasTerminal pair.1 ∧ grammar.HasTerminal pair.2) ∧
    (∀ terminal, terminal ∈ grammar.plain ∨ terminal ∈ grammar.calls ∨ terminal ∈ grammar.returns →
      grammar.HasTerminal terminal) ∧
    (∀ call ∈ grammar.calls, call ∉ grammar.returns) ∧
    (∀ symbol, (NumberedSymbols.ofSymbols grammar.symbols).find? symbol = grammar.index? symbol) ∧
    ∀ position, (NumberedSymbols.ofSymbols grammar.symbols).symbol? position =
      grammar.symbols[position]? := by
  have consistent := Consistent.of_steps from_initial steps
  have wellFormed := consistent.wellFormed
  refine ⟨?_, ?_, ?_, ?_, ?_, ?_, consistent.pairs, ?_, consistent.calls_returns,
    wellFormed.represents_symbols.find?_eq, wellFormed.represents_symbols.symbol?_eq⟩
  · intro position other symbol found found_other
    have same := wellFormed.index?_of_getElem? found
    rw [wellFormed.index?_of_getElem? found_other] at same
    exact (Option.some.inj same).symm
  · exact fun position symbol => wellFormed.index?_of_getElem?
  · intro later more position symbol found
    rcases List.getElem?_eq_some_iff.1 found with ⟨bound, rfl⟩
    exact List.prefix_iff_getElem?.1 (keeps_symbols_of_steps more) position bound
  · exact ⟨wellFormed.start_mem, wellFormed.start_isNonterminal⟩
  · exact fun symbol alternative mem occurrence => wellFormed.mentioned_mem mem
  · exact wellFormed.alternatives_nodup
  · rintro terminal (plain | call | ret)
    · exact consistent.plain terminal plain
    · exact consistent.calls terminal call
    · exact consistent.returns terminal ret

/-- The grammar `s : '(' 'x' ')' ;`, put together by hand. -/
def enclosure : Grammar :=
  [⟨"(", .terminal⟩, ⟨"x", .terminal⟩, ⟨")", .terminal⟩].foldl intern (ofStart "s")
    |>.addAlternative ⟨"s", .nonterminal⟩
      [.bare ⟨"(", .terminal⟩, .bare ⟨"x", .terminal⟩, .bare ⟨")", .terminal⟩]

/-- The enclosure after tagging, with a left recursive alternative added since. -/
def lateEnclosure : Grammar :=
  (enclosure.tag false).addAlternative ⟨"s", .nonterminal⟩
    [.bare ⟨"s", .nonterminal⟩, .bare ⟨"(", .terminal⟩, .bare ⟨"x", .terminal⟩,
      .bare ⟨"s", .nonterminal⟩, .bare ⟨")", .terminal⟩]

/-- Rewritten and tagged again, the grammar keeps the places of the first symbols. -/
theorem table_of_steps_lateEnclosure :
    let final := (lateEnclosure.removeLeftRecursion.1.tag false).toSimpleForm.1
    IsInitial (ofStart "s") ∧ ReflTransGen Step (ofStart "s") final ∧
      final.symbols = [⟨"s", .nonterminal⟩, ⟨"(", .terminal⟩, ⟨"x", .terminal⟩, ⟨")", .terminal⟩,
        ⟨"s'", .nonterminal⟩, ⟨"_L_x_s", .nonterminal⟩] ∧
      final.index? ⟨"_L_x_s", .nonterminal⟩ = some 5 := by
  intro final
  have initial : IsInitial (ofStart "s") := .ofStart "s"
  have interned : ReflTransGen Step (ofStart "s")
      ([⟨"(", .terminal⟩, ⟨"x", .terminal⟩, ⟨")", .terminal⟩].foldl intern (ofStart "s")) :=
    ((ReflTransGen.refl.tail (.intern _ _)).tail (.intern _ _)).tail (.intern _ _)
  have built : ReflTransGen Step (ofStart "s") enclosure :=
    interned.tail (.addAlternative (by decide) (by decide))
  have changed : ReflTransGen Step (ofStart "s") lateEnclosure :=
    (built.tail (.tag _ _)).tail (.addAlternative (by decide) (by decide))
  have steps : ReflTransGen Step (ofStart "s") final :=
    ((changed.tail (.removeLeftRecursion _)).tail (.tag _ _)).tail (.toSimpleForm _)
  have table : final.symbols = [⟨"s", .nonterminal⟩, ⟨"(", .terminal⟩, ⟨"x", .terminal⟩,
      ⟨")", .terminal⟩, ⟨"s'", .nonterminal⟩, ⟨"_L_x_s", .nonterminal⟩] := by decide
  exact ⟨initial, steps, table, (table_of_steps initial steps).2.1 5 _ (by rw [table]; rfl)⟩

end Grammar

end VisiblyPushdown
