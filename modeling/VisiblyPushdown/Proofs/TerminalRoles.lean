import VisiblyPushdown.Proofs.Refresh
import VisiblyPushdown.Proofs.TerminalOccurrences

/-!
# Roles of terminals

No terminal is both call and return, and none that was found untaggable is either. A pair is
committed only if its sides have no role that speaks against it, so the first fact holds at every
stage of an assignment. Harvest finds every marked terminal untaggable, repairs only add to those,
and the second round of assignment respects them.

The passes that rewrite rules keep the used occurrences of terminals. So calls, returns and plain
terminals of an analyzed grammar are a partition of its terminals, which are those of the grammar
that was given, and no call or return carries a mark in any alternative within reach.
-/

namespace VisiblyPushdown

namespace Alternative

variable {alternative : Alternative} {symbol : Symbol}

theorem mem_bareTerminals :
    symbol ∈ alternative.bareTerminals ↔ .bare symbol ∈ alternative ∧ symbol.isTerminal := by
  simp only [bareTerminals, List.mem_map, List.mem_filter, Occurrence.isBareTerminal,
    Bool.and_eq_true, decide_eq_true_eq]
  constructor
  · rintro ⟨⟨symbol, repetition⟩, ⟨mem, terminal, rfl⟩, rfl⟩
    exact ⟨mem, terminal⟩
  · rintro ⟨mem, terminal⟩
    exact ⟨.bare symbol, ⟨mem, terminal, rfl⟩, rfl⟩

/-- A terminal is untaggable where it has a mark or where no other terminal is without one. -/
theorem mem_untaggable :
    symbol ∈ alternative.untaggable ↔ symbol.isTerminal ∧
      ∃ occurrence ∈ alternative, occurrence.symbol = symbol ∧
        (occurrence.repetition ≠ .once ∨ ∀ other ∈ alternative.bareTerminals, other = symbol) := by
  simp only [untaggable_eq, List.mem_map, List.mem_filter, isBarred_empty_iff]
  constructor
  · rintro ⟨occurrence, ⟨mem, terminal, barred⟩, rfl⟩
    exact ⟨terminal, occurrence, mem, rfl, barred⟩
  · rintro ⟨terminal, occurrence, mem, rfl, barred⟩
    exact ⟨occurrence, ⟨mem, terminal, barred⟩, rfl⟩

end Alternative

namespace RoleAssignment

/-- Whether calls, returns and plain terminals are different terminals. -/
structure IsApart (plain : SymbolSet) (assigned : RoleAssignment) : Prop where
  calls_returns : ∀ call ∈ assigned.calls.toList, call ∉ assigned.returns.toList
  calls_plain : ∀ call ∈ assigned.calls.toList, call ∉ plain.toList
  returns_plain : ∀ ret ∈ assigned.returns.toList, ret ∉ plain.toList

variable {plain : SymbolSet} {assigned : RoleAssignment} {pair : TerminalPair}

theorem IsApart.commit (apart : assigned.IsApart plain) (pair : TerminalPair) :
    (commit plain assigned pair).IsApart plain := by
  rcases commit_cases plain assigned pair with ⟨_, unchanged⟩ | ⟨compatible, calls_eq, returns_eq⟩
  · rw [unchanged]
    exact apart
  · rcases contradicts_eq_false_iff.1 compatible with
      ⟨different, call_taggable, ret_taggable, call_free, ret_free⟩
    constructor
    · intro call call_mem ret_mem
      rw [calls_eq, InsertionOrder.mem_insert] at call_mem
      rw [returns_eq, InsertionOrder.mem_insert] at ret_mem
      rcases call_mem with call_mem | rfl <;> rcases ret_mem with ret_mem | same
      · exact apart.calls_returns call call_mem ret_mem
      · exact ret_free (same ▸ call_mem)
      · exact call_free ret_mem
      · exact different same
    · intro call call_mem
      rw [calls_eq, InsertionOrder.mem_insert] at call_mem
      rcases call_mem with call_mem | rfl
      · exact apart.calls_plain call call_mem
      · exact call_taggable
    · intro ret ret_mem
      rw [returns_eq, InsertionOrder.mem_insert] at ret_mem
      rcases ret_mem with ret_mem | rfl
      · exact apart.returns_plain ret ret_mem
      · exact ret_taggable

theorem IsApart.foldl_commit (apart : assigned.IsApart plain) (pairs : List TerminalPair) :
    (pairs.foldl (RoleAssignment.commit plain) assigned).IsApart plain := by
  induction pairs generalizing assigned with
  | nil => exact apart
  | cons pair pairs ih => exact ih (apart.commit pair)

theorem isApart_ofPairs (plain : SymbolSet) (pairs : List TerminalPair) :
    (ofPairs plain pairs).IsApart plain := by
  apply IsApart.foldl_commit
  constructor <;> simp

end RoleAssignment

namespace Grammar

variable {grammar : Grammar} {symbol : Symbol}

/-- Whether calls, returns and the terminals that can never be tagged are different terminals. -/
structure KeepsRolesApart (grammar : Grammar) : Prop where
  calls_returns : ∀ call ∈ grammar.calls, call ∉ grammar.returns
  calls_plain : ∀ call ∈ grammar.calls, call ∉ grammar.plain
  returns_plain : ∀ ret ∈ grammar.returns, ret ∉ grammar.plain

theorem keepsRolesApart_assignRoles (grammar : Grammar) (dropRejected : Bool) :
    (grammar.assignRoles dropRejected).KeepsRolesApart := by
  have apart := RoleAssignment.isApart_ofPairs (.ofList compare grammar.plain) grammar.pairs
  constructor
  · exact apart.calls_returns
  · intro call call_mem
    have taggable := apart.calls_plain call call_mem
    rwa [OrderedSet.toList_ofList, InsertionOrder.mem_distinct] at taggable
  · intro ret ret_mem
    have taggable := apart.returns_plain ret ret_mem
    rwa [OrderedSet.toList_ofList, InsertionOrder.mem_distinct] at taggable

theorem keepsRolesApart_tag (grammar : Grammar) (dropRejected : Bool) :
    (grammar.tag dropRejected).KeepsRolesApart :=
  keepsRolesApart_assignRoles _ _

theorem mem_plain_harvest :
    symbol ∈ grammar.harvest.plain ↔
      ∃ alternative ∈ grammar.reachableAlternatives, symbol ∈ alternative.untaggable := by
  have plain_eq : grammar.harvest.plain = InsertionOrder.distinct
      (grammar.reachableAlternatives.flatMap Alternative.untaggable) :=
    OrderedSet.toList_ofList _
  rw [plain_eq, InsertionOrder.mem_distinct, List.mem_flatMap]

theorem plain_harvest_subset_tag (grammar : Grammar) (dropRejected : Bool) :
    grammar.harvest.plain ⊆ (grammar.tag dropRejected).plain :=
  fun _ mem => InsertionOrder.mem_insertAll.2 (.inl mem)

/-- A terminal with a mark is never tagged, not even where it stands without the mark. -/
theorem mem_plain_tag_of_uses {occurrence : Occurrence} (uses : grammar.Uses occurrence)
    (terminal : occurrence.symbol.isTerminal) (marked : occurrence.repetition ≠ .once)
    (dropRejected : Bool) : occurrence.symbol ∈ (grammar.tag dropRejected).plain := by
  rcases uses_iff_exists_mem_reachableAlternatives.1 uses with ⟨alternative, mem, occurrence_mem⟩
  apply plain_harvest_subset_tag
  rw [mem_plain_harvest]
  refine ⟨alternative, mem, ?_⟩
  rw [Alternative.mem_untaggable]
  exact ⟨terminal, occurrence, occurrence_mem, rfl, .inl marked⟩

/-- The sides of a harvested pair are used, each without a mark. -/
theorem uses_of_mem_pairs_harvest {pair : TerminalPair} (mem : pair ∈ grammar.harvest.pairs) :
    grammar.Uses (.bare pair.1) ∧ grammar.Uses (.bare pair.2) := by
  rcases List.mem_flatMap.1 mem with ⟨alternative, alternative_mem, pair_mem⟩
  rcases TerminalPair.mem_of_mem_ofTerminals pair_mem with ⟨call_mem, ret_mem⟩
  have used {terminal : Symbol} (bare_mem : terminal ∈ alternative.bareTerminals) :
      grammar.Uses (.bare terminal) := by
    rw [uses_iff_exists_mem_reachableAlternatives]
    exact ⟨alternative, alternative_mem, (Alternative.mem_bareTerminals.1 bare_mem).1⟩
  exact ⟨used call_mem, used ret_mem⟩

theorem pairs_assignRoles_subset (grammar : Grammar) (dropRejected : Bool) :
    (grammar.assignRoles dropRejected).pairs ⊆ grammar.pairs := by
  cases dropRejected with
  | true => exact fun _ mem => (List.mem_filter.1 mem).1
  | false => exact List.Subset.refl _

/-- The tagged terminals are sides of harvested pairs. -/
theorem exists_pair_of_mem_tag (grammar : Grammar) (dropRejected : Bool) :
    (∀ call ∈ (grammar.tag dropRejected).calls, ∃ pair ∈ grammar.harvest.pairs, pair.1 = call) ∧
      ∀ ret ∈ (grammar.tag dropRejected).returns, ∃ pair ∈ grammar.harvest.pairs, pair.2 = ret := by
  have subset := pairs_assignRoles_subset grammar.harvest dropRejected
  rcases RoleAssignment.exists_pair_of_mem_ofPairs
    (.ofList compare (grammar.harvest.assignRoles dropRejected).demoteUnmatched.plain)
    (grammar.harvest.assignRoles dropRejected).pairs with ⟨calls, returns⟩
  constructor
  · intro call call_mem
    rcases calls call call_mem with ⟨pair, pair_mem, same⟩
    exact ⟨pair, subset pair_mem, same⟩
  · intro ret ret_mem
    rcases returns ret ret_mem with ⟨pair, pair_mem, same⟩
    exact ⟨pair, subset pair_mem, same⟩

theorem uses_of_mem_tag (dropRejected : Bool)
    (tagged : symbol ∈ (grammar.tag dropRejected).calls ∨
      symbol ∈ (grammar.tag dropRejected).returns) : grammar.Uses (.bare symbol) := by
  rcases exists_pair_of_mem_tag grammar dropRejected with ⟨calls, returns⟩
  rcases tagged with call_mem | ret_mem
  · rcases calls symbol call_mem with ⟨pair, pair_mem, rfl⟩
    exact (uses_of_mem_pairs_harvest pair_mem).1
  · rcases returns symbol ret_mem with ⟨pair, pair_mem, rfl⟩
    exact (uses_of_mem_pairs_harvest pair_mem).2

end Grammar

namespace Settings

open Grammar

variable {grammar : Grammar}

/--
In an analyzed grammar no terminal is both call and return, and a terminal that has a mark in some
alternative within reach is neither.
-/
theorem roles_analyze (settings : Settings) (wellFormed : grammar.WellFormed) :
    let final := (settings.analyze grammar).grammar
    (∀ call ∈ final.calls, call ∉ final.returns) ∧
      ∀ symbol, final.Reaches final.start symbol → ∀ alternative ∈ final.alternatives symbol,
        ∀ occurrence ∈ alternative, occurrence.symbol.isTerminal → occurrence.repetition ≠ .once →
          occurrence.symbol ∉ final.calls ∧ occurrence.symbol ∉ final.returns := by
  intro final
  have apart := keepsRolesApart_tag grammar.withoutLeftRecursion settings.removeContradictions
  rcases settings.calls_analyze wellFormed with ⟨calls_eq, returns_eq⟩
  rw [calls_eq, returns_eq]
  refine ⟨apart.calls_returns, ?_⟩
  intro symbol reached alternative mem occurrence occurrence_mem terminal marked
  have uses : final.Uses occurrence := ⟨symbol, reached, alternative, mem, occurrence_mem⟩
  have uses_before : grammar.withoutLeftRecursion.Uses occurrence := by
    rw [uses_withoutLeftRecursion wellFormed terminal]
    exact (settings.uses_analyze wellFormed terminal).1 uses
  have plain := mem_plain_tag_of_uses uses_before terminal marked settings.removeContradictions
  constructor
  · exact fun call_mem => apart.calls_plain _ call_mem plain
  · exact fun ret_mem => apart.returns_plain _ ret_mem plain

/--
Rows of items in brackets, with commas behind each item, and a nonterminal that nothing reaches,
with name and rule of the span between the brackets.
-/
def rows : Grammar :=
  { start := ⟨"rows", .nonterminal⟩
    symbols :=
      [⟨"rows", .nonterminal⟩, ⟨"row", .nonterminal⟩, ⟨"item", .nonterminal⟩,
        ⟨"_L_item_,^STAR", .nonterminal⟩, ⟨"[", .terminal⟩, ⟨"]", .terminal⟩, ⟨",", .terminal⟩,
        ⟨"x", .terminal⟩]
    rules :=
      [(⟨"rows", .nonterminal⟩,
          [[.bare ⟨"rows", .nonterminal⟩, .bare ⟨"row", .nonterminal⟩],
            [.bare ⟨"row", .nonterminal⟩]]),
        (⟨"row", .nonterminal⟩,
          [[.bare ⟨"[", .terminal⟩, .bare ⟨"item", .nonterminal⟩, ⟨⟨",", .terminal⟩, .star⟩,
            .bare ⟨"]", .terminal⟩]]),
        (⟨"item", .nonterminal⟩, [[.bare ⟨"x", .terminal⟩]]),
        (⟨"_L_item_,^STAR", .nonterminal⟩,
          [[.bare ⟨"item", .nonterminal⟩, ⟨⟨",", .terminal⟩, .star⟩]])] }

/-- The nonterminal that nothing reached comes within reach, and its comma stays without a tag. -/
theorem roles_analyze_rows :
    let final := (analyze {} rows).grammar
    ⟨"_L_item_,^STAR", .nonterminal⟩ ∉ rows.reachable ∧
      ⟨"_L_item_,^STAR", .nonterminal⟩ ∈ final.reachable ∧
      (∀ call ∈ final.calls, call ∉ final.returns) ∧
      ⟨",", .terminal⟩ ∉ final.calls ∧ ⟨",", .terminal⟩ ∉ final.returns := by
  intro final
  have wellFormed : rows.WellFormed := by decide
  have reached : ⟨"_L_item_,^STAR", .nonterminal⟩ ∈ final.reachable := by decide
  have rule : [.bare ⟨"item", .nonterminal⟩, ⟨⟨",", .terminal⟩, .star⟩] ∈
      final.alternatives ⟨"_L_item_,^STAR", .nonterminal⟩ := by
    decide
  rcases roles_analyze {} wellFormed with ⟨apart, bare⟩
  refine ⟨by decide, reached, apart, ?_⟩
  exact bare _ (mem_reachable.1 reached) _ rule ⟨⟨",", .terminal⟩, .star⟩ (by simp) rfl (by simp)

theorem usesTerminal_of_tagged (settings : Settings) (wellFormed : grammar.WellFormed)
    {terminal : Symbol} (tagged : terminal ∈ (settings.analyze grammar).grammar.calls ∨
      terminal ∈ (settings.analyze grammar).grammar.returns) :
    (settings.analyze grammar).grammar.UsesTerminal terminal := by
  rcases settings.calls_analyze wellFormed with ⟨calls_eq, returns_eq⟩
  rw [calls_eq, returns_eq] at tagged
  have terminals :=
    grammar.withoutLeftRecursion.tagsTerminals_tag settings.removeContradictions
  have kind : terminal.isTerminal := tagged.elim (terminals.calls _) (terminals.returns _)
  have uses := uses_of_mem_tag settings.removeContradictions tagged
  have bare_kind : (Occurrence.bare terminal).symbol.isTerminal := kind
  rw [uses_withoutLeftRecursion wellFormed bare_kind,
    ← settings.uses_analyze wellFormed bare_kind] at uses
  exact ⟨kind, _, uses, rfl⟩

/--
The reachable symbols that an analyzed grammar stores are up to date, and calls, returns and plain
terminals share out the terminals within reach, which are the same as before the analysis.
-/
theorem partition_analyze (settings : Settings) (wellFormed : grammar.WellFormed) :
    let final := (settings.analyze grammar).grammar
    (final.nonterminals = final.reachable ∧ final.terminals = final.reachableTerminals) ∧
      (∀ symbol, symbol ∈ final.nonterminals ↔ final.Reaches final.start symbol) ∧
      (∀ terminal, terminal ∈ final.terminals ↔ final.UsesTerminal terminal) ∧
      (final.calls.Disjoint final.returns ∧ final.calls.Disjoint final.plainTerminals ∧
        final.returns.Disjoint final.plainTerminals) ∧
      (∀ terminal, terminal ∈ final.calls ∨ terminal ∈ final.returns ∨
        terminal ∈ final.plainTerminals ↔ final.UsesTerminal terminal) ∧
      ∀ terminal, final.UsesTerminal terminal ↔ grammar.UsesTerminal terminal := by
  intro final
  have refreshed : final.IsRefreshed := settings.isRefreshed_tag grammar
  have stored (terminal : Symbol) :
      terminal ∈ final.terminals ↔ final.UsesTerminal terminal := by
    rw [refreshed.terminals_eq, mem_reachableTerminals_iff_usesTerminal]
  have plain (terminal : Symbol) : terminal ∈ final.plainTerminals ↔
      final.UsesTerminal terminal ∧ terminal ∉ final.calls ∧ terminal ∉ final.returns := by
    simp [plainTerminals, stored]
  have apart : final.calls.Disjoint final.returns := by
    rcases settings.calls_analyze wellFormed with ⟨calls_eq, returns_eq⟩
    intro terminal called returned
    rw [calls_eq] at called
    rw [returns_eq] at returned
    exact (keepsRolesApart_tag _ _).calls_returns terminal called returned
  refine ⟨⟨refreshed.nonterminals_eq, refreshed.terminals_eq⟩, ?_, stored, ⟨apart, ?_, ?_⟩, ?_,
    settings.usesTerminal_analyze wellFormed⟩
  · intro symbol
    rw [refreshed.nonterminals_eq, mem_reachable]
  · exact fun terminal called unplayed => ((plain terminal).1 unplayed).2.1 called
  · exact fun terminal returned unplayed => ((plain terminal).1 unplayed).2.2 returned
  · intro terminal
    rw [plain]
    constructor
    · rintro (called | returned | ⟨uses, _⟩)
      · exact settings.usesTerminal_of_tagged wellFormed (.inl called)
      · exact settings.usesTerminal_of_tagged wellFormed (.inr returned)
      · exact uses
    · intro uses
      by_cases called : terminal ∈ final.calls
      · exact .inl called
      · by_cases returned : terminal ∈ final.returns
        · exact .inr (.inl returned)
        · exact .inr (.inr ⟨uses, called, returned⟩)

theorem partition_analyze_rows :
    let final := (analyze {} rows).grammar
    rows.terminals = [] ∧ final.calls = [⟨"[", .terminal⟩] ∧ final.returns = [⟨"]", .terminal⟩] ∧
      final.plainTerminals = [⟨",", .terminal⟩, ⟨"x", .terminal⟩] ∧
      (∀ symbol, symbol ∈ final.nonterminals ↔ final.Reaches final.start symbol) ∧
      ∀ terminal, terminal ∈ final.calls ∨ terminal ∈ final.returns ∨
        terminal ∈ final.plainTerminals ↔ rows.UsesTerminal terminal := by
  intro final
  have wellFormed : rows.WellFormed := by decide
  rcases partition_analyze {} wellFormed with ⟨_, nonterminals, _, _, shared, kept⟩
  refine ⟨rfl, by decide, by decide, by decide, nonterminals, ?_⟩
  intro terminal
  rw [← kept]
  exact shared terminal

end Settings

end VisiblyPushdown
