import Mathlib.Data.List.Basic
import VisiblyPushdown.Proofs.TerminalRoles

/-!
# What a harvest collects

A harvest goes through the alternatives within reach, and through each from left to right.
`ofTerminals_bareTerminals` describes the pairs of an alternative by places: every two places with
different terminals, both without a mark, give a pair, by the first place upwards and the second one
downwards.

A terminal is plain if some alternative bars it, and whether one does depends on the occurrences in
it and not on their order (`mem_untaggable_of_perm`). So the plain terminals stay the same when the
alternatives of a grammar are read in any other order (`IsReordering`).
-/

namespace VisiblyPushdown

namespace Alternative

variable {alternative other : Alternative} {occurrence : Occurrence} {symbol : Symbol}

/--
The pair of the terminals at two places. The first place stands in front of the second one, neither
terminal has a mark, and they are different.
-/
def pairAt? (alternative : Alternative) (first second : Nat) : Option TerminalPair :=
  match alternative[first]?, alternative[second]? with
  | some call, some ret =>
    if first < second ∧ call.isBareTerminal ∧ ret.isBareTerminal ∧ ret.symbol ≠ call.symbol then
      some (call.symbol, ret.symbol)
    else none
  | _, _ => none

/-- The pairs of the terminal at a place, those with the last partners first. -/
def pairsFrom (alternative : Alternative) (first : Nat) : List TerminalPair :=
  (List.range alternative.length).reverse.filterMap (alternative.pairAt? first)

theorem pairAt?_succ_succ (occurrence : Occurrence) (rest : Alternative) (first second : Nat) :
    pairAt? (occurrence :: rest) (first + 1) (second + 1) = pairAt? rest first second := by
  simp [pairAt?]

theorem pairAt?_zero_right (alternative : Alternative) (first : Nat) :
    alternative.pairAt? first 0 = none := by
  unfold pairAt?
  split
  · simp
  · rfl

theorem pairsFrom_succ (occurrence : Occurrence) (rest : Alternative) (first : Nat) :
    pairsFrom (occurrence :: rest) (first + 1) = pairsFrom rest first := by
  simp [pairsFrom, List.range_succ_eq_map, List.filterMap_append, pairAt?_zero_right,
    ← List.map_reverse, List.filterMap_map, pairAt?_succ_succ]

/-- Going through all places of a list is going through the list. -/
theorem filterMap_range_length {α β : Type} (items : List α) (pick : α → Option β) :
    (List.range items.length).filterMap (fun place => items[place]?.bind pick) =
      items.filterMap pick := by
  induction items with
  | nil => rfl
  | cons item items ih =>
      cases picked : pick item with
      | none => simp [List.range_succ_eq_map, picked, ih]
      | some value => simp [List.range_succ_eq_map, picked, ih]

theorem filterMap_bareTerminals (call : Symbol) (alternative : Alternative) :
    (alternative.filterMap fun ret =>
        if ret.isBareTerminal ∧ ret.symbol ≠ call then some (call, ret.symbol) else none) =
      (alternative.bareTerminals.filter (· ≠ call)).map (call, ·) := by
  induction alternative with
  | nil => rfl
  | cons occurrence rest ih =>
      by_cases bare : occurrence.isBareTerminal
      · by_cases same : occurrence.symbol = call
        · simp [bareTerminals_cons_of_bare bare, same, ih]
        · simp [bareTerminals_cons_of_bare bare, bare, same, ih]
      · simp [bareTerminals_cons_of_not_bare bare, bare, ih]

theorem pairsFrom_zero (occurrence : Occurrence) (rest : Alternative) :
    pairsFrom (occurrence :: rest) 0 =
      if occurrence.isBareTerminal then
        ((bareTerminals rest).reverse.filter (· ≠ occurrence.symbol)).map (occurrence.symbol, ·)
      else [] := by
  have ahead (second : Nat) : pairAt? (occurrence :: rest) 0 (second + 1) =
      rest[second]?.bind fun ret =>
        if occurrence.isBareTerminal ∧ ret.isBareTerminal ∧ ret.symbol ≠ occurrence.symbol then
          some (occurrence.symbol, ret.symbol)
        else none := by
    cases found : rest[second]? with
    | none => simp [pairAt?, found]
    | some ret => simp [pairAt?, found]
  have listed : pairsFrom (occurrence :: rest) 0 = (rest.filterMap fun ret =>
      if occurrence.isBareTerminal ∧ ret.isBareTerminal ∧ ret.symbol ≠ occurrence.symbol then
        some (occurrence.symbol, ret.symbol)
      else none).reverse := by
    rw [← filterMap_range_length]
    simp [pairsFrom, List.range_succ_eq_map, pairAt?_zero_right, ← List.map_reverse,
      List.filterMap_map, ahead, List.filterMap_reverse]
  rw [listed]
  by_cases bare : occurrence.isBareTerminal
  · simp only [bare, true_and, if_true, filterMap_bareTerminals, List.filter_reverse,
      List.map_reverse]
  · simp [bare]

theorem ofTerminals_bareTerminals (alternative : Alternative) :
    TerminalPair.ofTerminals alternative.bareTerminals =
      (List.range alternative.length).flatMap alternative.pairsFrom := by
  induction alternative with
  | nil => rfl
  | cons occurrence rest ih =>
      rw [List.length_cons, List.range_succ_eq_map, List.flatMap_cons, List.flatMap_map,
        pairsFrom_zero]
      simp only [Nat.succ_eq_add_one, pairsFrom_succ, ← ih]
      by_cases bare : occurrence.isBareTerminal
      · simp only [bareTerminals_cons_of_bare bare, TerminalPair.ofTerminals, bare, if_true]
      · rw [bareTerminals_cons_of_not_bare bare, if_neg bare, List.nil_append]

/-- An alternative bars the terminals with a mark and a terminal that is alone without one. -/
theorem mem_untaggable_iff :
    symbol ∈ alternative.untaggable ↔ symbol.isTerminal ∧
      ((∃ occurrence ∈ alternative, occurrence.symbol = symbol ∧ occurrence.repetition ≠ .once) ∨
        .bare symbol ∈ alternative ∧
          ∀ other ∈ alternative, other.isBareTerminal → other.symbol = symbol) := by
  have alone_iff : (∀ other ∈ alternative.bareTerminals, other = symbol) ↔
      ∀ other ∈ alternative, other.isBareTerminal → other.symbol = symbol := by
    simp only [bareTerminals, List.forall_mem_map, List.mem_filter, and_imp]
  rw [mem_untaggable, alone_iff]
  apply and_congr_right
  intro _
  constructor
  · rintro ⟨⟨terminal, repetition⟩, mem, rfl, marked | alone⟩
    · exact .inl ⟨_, mem, rfl, marked⟩
    · by_cases bare : repetition = .once
      · subst bare
        exact .inr ⟨mem, alone⟩
      · exact .inl ⟨_, mem, rfl, bare⟩
  · rintro (⟨occurrence, mem, same, marked⟩ | ⟨mem, alone⟩)
    · exact ⟨occurrence, mem, same, .inl marked⟩
    · exact ⟨.bare symbol, mem, rfl, .inr alone⟩

/-- The order of the occurrences in an alternative does not matter for what it bars. -/
theorem mem_untaggable_of_perm (perm : alternative.Perm other) :
    symbol ∈ alternative.untaggable ↔ symbol ∈ other.untaggable := by
  simp only [mem_untaggable_iff, perm.mem_iff]

end Alternative

/-- Two different terminals form a pair, the one in front being the call. -/
theorem TerminalPair.exists_mem_ofTerminals {terminals : List Symbol} {terminal other : Symbol}
    (mem : terminal ∈ terminals) (other_mem : other ∈ terminals) (different : other ≠ terminal) :
    ∃ pair ∈ ofTerminals terminals, pair.1 = terminal ∨ pair.2 = terminal := by
  induction terminals with
  | nil => cases mem
  | cons first rest ih =>
      simp only [ofTerminals, List.mem_append, List.mem_map, List.mem_filter, List.mem_reverse,
        decide_eq_true_eq]
      rcases List.mem_cons.1 mem with rfl | behind
      · have other_behind := (List.mem_cons.1 other_mem).resolve_left different
        exact ⟨_, .inl ⟨other, ⟨other_behind, different⟩, rfl⟩, .inl rfl⟩
      · rcases List.mem_cons.1 other_mem with rfl | other_behind
        · exact ⟨_, .inl ⟨terminal, ⟨behind, different.symm⟩, rfl⟩, .inr rfl⟩
        · rcases ih behind other_behind with ⟨pair, pair_mem, side⟩
          exact ⟨pair, .inr pair_mem, side⟩

namespace Grammar

variable {grammar : Grammar} {terminal : Symbol}

theorem pairs_harvest (grammar : Grammar) :
    grammar.harvest.pairs = grammar.reachable.flatMap fun nonterminal =>
      (grammar.alternatives nonterminal).flatMap fun alternative =>
        (List.range alternative.length).flatMap alternative.pairsFrom := by
  have listed : grammar.harvest.pairs =
      grammar.reachableAlternatives.flatMap (TerminalPair.ofTerminals ·.bareTerminals) :=
    rfl
  simp only [listed, reachableAlternatives, List.flatMap_assoc,
    Alternative.ofTerminals_bareTerminals]

/-- A harvest finds each terminal within reach untaggable or in a pair, and no other terminal. -/
theorem mem_terminals_harvest_iff :
    terminal ∈ grammar.harvest.terminals ↔ terminal ∈ grammar.harvest.plain ∨
      ∃ pair ∈ grammar.harvest.pairs, pair.1 = terminal ∨ pair.2 = terminal := by
  have terminals_eq : grammar.harvest.terminals = grammar.reachableTerminals := rfl
  rw [terminals_eq, mem_plain_harvest]
  constructor
  · intro reached
    rcases mem_reachableTerminals.1 reached with ⟨kind, alternative, mem, occurrence,
      occurrence_mem, rfl⟩
    by_cases barred : occurrence.symbol ∈ alternative.untaggable
    · exact .inl ⟨alternative, mem, barred⟩
    · right
      rw [Alternative.mem_untaggable] at barred
      push Not at barred
      rcases barred kind occurrence occurrence_mem rfl with ⟨bare, other, other_mem, different⟩
      have bare_mem : occurrence.symbol ∈ alternative.bareTerminals :=
        Alternative.symbol_mem_bareTerminals occurrence_mem
          (by simp [Occurrence.isBareTerminal, kind, bare])
      rcases TerminalPair.exists_mem_ofTerminals bare_mem other_mem different with
        ⟨pair, pair_mem, side⟩
      exact ⟨pair, List.mem_flatMap.2 ⟨alternative, mem, pair_mem⟩, side⟩
  · rintro (⟨alternative, mem, barred⟩ | ⟨pair, mem, side⟩)
    · rcases Alternative.mem_untaggable.1 barred with ⟨kind, occurrence, occurrence_mem, same, _⟩
      exact mem_reachableTerminals.2 ⟨kind, alternative, mem, occurrence, occurrence_mem, same⟩
    · rcases uses_of_mem_pairs_harvest mem with ⟨call_uses, ret_uses⟩
      rcases isTerminal_of_mem_pairs_harvest mem with ⟨call_kind, ret_kind⟩
      rw [mem_reachableTerminals_iff_usesTerminal]
      rcases side with rfl | rfl
      · exact ⟨call_kind, _, call_uses, rfl⟩
      · exact ⟨ret_kind, _, ret_uses, rfl⟩

/--
Whether two grammars differ in order only: they have the same start, and each alternative of one is
an alternative of the other with its occurrences in some order.
-/
structure IsReordering (left right : Grammar) : Prop where
  start_eq : right.start = left.start
  forward : ∀ symbol, ∀ alternative ∈ left.alternatives symbol,
    ∃ other ∈ right.alternatives symbol, alternative.Perm other
  backward : ∀ symbol, ∀ other ∈ right.alternatives symbol,
    ∃ alternative ∈ left.alternatives symbol, other.Perm alternative

namespace IsReordering

variable {left right : Grammar} (reordering : left.IsReordering right)

include reordering

theorem symm : right.IsReordering left where
  start_eq := reordering.start_eq.symm
  forward := reordering.backward
  backward := reordering.forward

theorem mentions {symbol other : Symbol} (mentions : left.Mentions symbol other) :
    right.Mentions symbol other := by
  rcases mentions with ⟨nonterminal, alternative, mem, occurrence, occurrence_mem, rfl⟩
  rcases reordering.forward symbol alternative mem with ⟨reordered, reordered_mem, perm⟩
  exact ⟨nonterminal, reordered, reordered_mem, occurrence, perm.mem_iff.1 occurrence_mem, rfl⟩

theorem plain_harvest_subset : left.harvest.plain ⊆ right.harvest.plain := by
  intro terminal plain
  rcases mem_plain_harvest.1 plain with ⟨alternative, mem, barred⟩
  rcases List.mem_flatMap.1 mem with ⟨symbol, reached, rule_mem⟩
  rcases reordering.forward symbol alternative rule_mem with ⟨reordered, reordered_mem, perm⟩
  have reached_right : symbol ∈ right.reachable := by
    rw [mem_reachable, reordering.start_eq]
    exact Relation.ReflTransGen.mono (fun _ _ => reordering.mentions) _ _ (mem_reachable.1 reached)
  apply mem_plain_harvest.2
  exact ⟨reordered, List.mem_flatMap.2 ⟨symbol, reached_right, reordered_mem⟩,
    (Alternative.mem_untaggable_of_perm perm).1 barred⟩

theorem mem_plain_harvest_iff :
    terminal ∈ right.harvest.plain ↔ terminal ∈ left.harvest.plain := by
  constructor
  · exact fun plain => reordering.symm.plain_harvest_subset plain
  · exact fun plain => reordering.plain_harvest_subset plain

end IsReordering

/-- The grammar with every alternative from right to left. -/
def mirrored (grammar : Grammar) : Grammar :=
  { grammar with rules := grammar.rules.map fun rule => (rule.1, rule.2.map List.reverse) }

theorem alternatives_mirrored (grammar : Grammar) (symbol : Symbol) :
    grammar.mirrored.alternatives symbol = (grammar.alternatives symbol).map List.reverse := by
  rw [alternatives, mirrored,
    InsertionOrder.lookup_map_value grammar.rules fun _ rule => rule.map List.reverse, alternatives]
  cases grammar.rules.lookup symbol with
  | none => rfl
  | some rule => rfl

theorem isReordering_mirrored (grammar : Grammar) : grammar.IsReordering grammar.mirrored where
  start_eq := rfl
  forward symbol alternative mem := by
    rw [alternatives_mirrored]
    exact ⟨alternative.reverse, List.mem_map_of_mem mem, alternative.reverse_perm.symm⟩
  backward symbol other mem := by
    rw [alternatives_mirrored] at mem
    rcases List.mem_map.1 mem with ⟨alternative, alternative_mem, rfl⟩
    exact ⟨alternative, alternative_mem, alternative.reverse_perm⟩

/-- Read from right to left, a grammar has the same plain terminals. -/
theorem mem_plain_harvest_mirrored :
    terminal ∈ grammar.mirrored.harvest.plain ↔ terminal ∈ grammar.harvest.plain :=
  grammar.isReordering_mirrored.mem_plain_harvest_iff

/--
A harvest lists, nonterminal by nonterminal and alternative by alternative, the pairs of all places
with different terminals and no marks, by the first place upwards and the second one downwards. A
terminal is plain exactly if some alternative within reach has it with a mark, or without one and
without any other such terminal. So every terminal within reach is plain or in a pair, and the order
in which the alternatives are read makes no difference for the plain ones.
-/
theorem harvest_collects (grammar : Grammar) :
    let harvested := grammar.harvest
    (harvested.pairs = grammar.reachable.flatMap fun nonterminal =>
      (grammar.alternatives nonterminal).flatMap fun alternative =>
        (List.range alternative.length).flatMap fun first =>
          (List.range alternative.length).reverse.filterMap fun second =>
            alternative.pairAt? first second) ∧
    (∀ terminal, terminal ∈ harvested.plain ↔ terminal.isTerminal ∧
      ∃ nonterminal ∈ grammar.reachable, ∃ alternative ∈ grammar.alternatives nonterminal,
        (∃ occurrence ∈ alternative,
          occurrence.symbol = terminal ∧ occurrence.repetition ≠ .once) ∨
        .bare terminal ∈ alternative ∧
          ∀ other ∈ alternative, other.isBareTerminal → other.symbol = terminal) ∧
    (∀ terminal, terminal ∈ harvested.terminals ↔ terminal ∈ harvested.plain ∨
      ∃ pair ∈ harvested.pairs, pair.1 = terminal ∨ pair.2 = terminal) ∧
    (∀ reordered, grammar.IsReordering reordered →
      ∀ terminal, terminal ∈ reordered.harvest.plain ↔ terminal ∈ harvested.plain) := by
  intro harvested
  refine ⟨pairs_harvest grammar, ?_, fun _ => mem_terminals_harvest_iff,
    fun _ reordering _ => reordering.mem_plain_harvest_iff⟩
  intro terminal
  rw [mem_plain_harvest, reachableAlternatives]
  simp only [List.mem_flatMap, Alternative.mem_untaggable_iff]
  constructor
  · rintro ⟨alternative, ⟨nonterminal, reached, mem⟩, kind, barred⟩
    exact ⟨kind, nonterminal, reached, alternative, mem, barred⟩
  · rintro ⟨kind, nonterminal, reached, alternative, mem, barred⟩
    exact ⟨alternative, ⟨nonterminal, reached, mem⟩, kind, barred⟩

end Grammar

end VisiblyPushdown
