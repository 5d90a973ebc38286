import VisiblyPushdown.Proofs.Selection
import VisiblyPushdown.Proofs.WellMatched

/-!
# Grammars of delimiters

A grammar of delimiters has in each alternative within reach either no terminal or an opening and a
closing one, both without a mark, with any nonterminals around them. Each opening terminal has a
closing one of its own, and no terminal opens in one alternative and closes in another.

On such a grammar the assignment of roles and the exhaustive search agree, and every pair of
delimiters is tagged, unless both are the same terminal. The assignment commits all pairs because
none of them speaks against another, and the repair finds as many calls as returns everywhere. The
search keeps an invariant, namely that in each alternative both delimiters are tagged or none is. So
the pair of an alternative can be added at any time, while a terminal on the wrong side is never
accepted; whatever else the search accepts tags nothing new.
-/

namespace VisiblyPushdown

namespace Alternative

variable {alternative : Alternative} {pair : TerminalPair} {symbol : Symbol}

/-- Whether the terminals of an alternative are the two of a pair, without marks, in this order. -/
def IsDelimitedBy (alternative : Alternative) (pair : TerminalPair) : Prop :=
  terminals alternative = [.bare pair.1, .bare pair.2]

/-- The pair that delimits an alternative, if there is one. -/
def delimiters? (alternative : Alternative) : Option TerminalPair :=
  match terminals alternative with
  | [⟨opening, .once⟩, ⟨closing, .once⟩] => some (opening, closing)
  | _ => none

theorem delimiters?_eq_some_iff :
    alternative.delimiters? = some pair ↔ alternative.IsDelimitedBy pair := by
  unfold delimiters? IsDelimitedBy
  split
  · next opening closing shape => simp [shape, Occurrence.bare, Prod.ext_iff]
  · next other => simpa [Occurrence.bare] using fun shape => other _ _ shape

theorem IsDelimitedBy.unique {other : TerminalPair} (delimited : alternative.IsDelimitedBy pair)
    (delimited_other : alternative.IsDelimitedBy other) : pair = other := by
  rw [← delimiters?_eq_some_iff] at delimited delimited_other
  exact Option.some.inj (delimited.symm.trans delimited_other)

theorem IsDelimitedBy.isTerminal (delimited : alternative.IsDelimitedBy pair) :
    pair.1.isTerminal ∧ pair.2.isTerminal := by
  have kind (occurrence : Occurrence) (mem : occurrence ∈ terminals alternative) :
      occurrence.symbol.isTerminal :=
    (List.mem_filter.1 mem).2
  rw [delimited] at kind
  exact ⟨kind (.bare pair.1) (by simp), kind (.bare pair.2) (by simp)⟩

theorem IsDelimitedBy.bareTerminals_eq (delimited : alternative.IsDelimitedBy pair) :
    alternative.bareTerminals = [pair.1, pair.2] := by
  rcases delimited.isTerminal with ⟨opening, closing⟩
  rw [← bareTerminals_terminals, delimited]
  simp [bareTerminals, Occurrence.isBareTerminal, Occurrence.bare, opening, closing]

theorem IsDelimitedBy.mem_untaggable (delimited : alternative.IsDelimitedBy pair) :
    symbol ∈ alternative.untaggable ↔ pair = (symbol, symbol) := by
  rcases delimited.isTerminal with ⟨opening, closing⟩
  rw [← untaggable_terminals, Alternative.mem_untaggable, bareTerminals_terminals,
    delimited.bareTerminals_eq, delimited, Prod.ext_iff]
  constructor
  · rintro ⟨_, occurrence, mem, rfl, marked | same⟩
    · have once : occurrence.repetition = .once := by
        rcases List.mem_pair.1 mem with rfl | rfl <;> rfl
      exact absurd once marked
    · simpa using same
  · rintro ⟨rfl, same⟩
    exact ⟨opening, .bare pair.1, by simp, rfl, .inr (by simpa using same)⟩

theorem IsDelimitedBy.bareCount_eq (delimited : alternative.IsDelimitedBy pair)
    (different : pair.1 ≠ pair.2) :
    alternative.bareCount pair.1 = 1 ∧ alternative.bareCount pair.2 = 1 := by
  rcases delimited.isTerminal with ⟨opening, closing⟩
  rw [← bareCount_terminals opening, ← bareCount_terminals closing, delimited]
  simp [bareCount, Occurrence.bare, different, different.symm]

end Alternative

namespace TaggingChoice

variable {choice : TaggingChoice} {symbol : Symbol} {pair : TerminalPair}

/-- Whether the sides of a pair are tagged as call and return, or not at all. -/
def TagsEvenly (choice : TaggingChoice) (pair : TerminalPair) : Prop :=
  choice.role pair.1 = .call ∧ choice.role pair.2 = .return ∨
    choice.role pair.1 = .plain ∧ choice.role pair.2 = .plain

theorem balances_delimiters :
    balances choice.roleAt Occurrence.repetition 0 [.bare pair.1, .bare pair.2] ↔
      choice.TagsEvenly pair := by
  unfold TagsEvenly
  cases call : choice.role pair.1 <;> cases ret : choice.role pair.2 <;>
    simp [balances, roleAt, Occurrence.bare, call, ret]

end TaggingChoice

namespace Grammar

variable {grammar : Grammar} {terminal : Symbol}

/-- Whether no side of a pair is untaggable and no terminal is on both sides of the pair table. -/
structure HasCompatiblePairs (grammar : Grammar) : Prop where
  taggable : ∀ pair ∈ grammar.pairs, pair.1 ∉ grammar.plain ∧ pair.2 ∉ grammar.plain
  compatible : ∀ pair ∈ grammar.pairs, ∀ other ∈ grammar.pairs, pair.1 ≠ other.2

namespace HasCompatiblePairs

variable (compatible : grammar.HasCompatiblePairs) (dropRejected : Bool)

include compatible

/-- Pairs that do not speak against each other are all accepted. -/
theorem mem_acceptedPairs {pair : TerminalPair} :
    pair ∈ grammar.acceptedPairs ↔ pair ∈ grammar.pairs := by
  constructor
  · exact RoleAssignment.mem_of_mem_accepted
  · intro mem
    rw [acceptedPairs, RoleAssignment.mem_accepted_iff_ranked]
    simp only [OrderedSet.toList_ofList, InsertionOrder.mem_distinct]
    refine ⟨mem, compatible.compatible pair mem pair mem, (compatible.taggable pair mem).1,
      (compatible.taggable pair mem).2, ?_⟩
    intro other accepted _
    have other_mem := RoleAssignment.mem_of_mem_accepted accepted
    exact ⟨(compatible.compatible pair mem other other_mem).symm,
      compatible.compatible other other_mem pair mem⟩

theorem mem_ofPairs :
    let assigned := RoleAssignment.ofPairs (.ofList compare grammar.plain) grammar.pairs
    (∀ call, call ∈ assigned.calls.toList ↔ ∃ pair ∈ grammar.pairs, pair.1 = call) ∧
      ∀ ret, ret ∈ assigned.returns.toList ↔ ∃ pair ∈ grammar.pairs, pair.2 = ret := by
  constructor
  · intro call
    simp only [RoleAssignment.mem_calls_ofPairs, ← compatible.mem_acceptedPairs, acceptedPairs]
  · intro ret
    simp only [RoleAssignment.mem_returns_ofPairs, ← compatible.mem_acceptedPairs, acceptedPairs]

theorem mem_assignRoles :
    (∀ call, call ∈ (grammar.assignRoles dropRejected).calls ↔
      ∃ pair ∈ grammar.pairs, pair.1 = call) ∧
    ∀ ret, ret ∈ (grammar.assignRoles dropRejected).returns ↔
      ∃ pair ∈ grammar.pairs, pair.2 = ret :=
  compatible.mem_ofPairs

/-- No pair is rejected, so none is dropped. -/
theorem pairs_assignRoles : (grammar.assignRoles dropRejected).pairs = grammar.pairs := by
  cases dropRejected with
  | false => rfl
  | true =>
      rw [pairs_assignRoles_true, List.filter_eq_self]
      exact fun pair mem => decide_eq_true (compatible.mem_acceptedPairs.2 mem)

theorem assignRoles : (grammar.assignRoles dropRejected).HasCompatiblePairs := by
  constructor
  · rw [compatible.pairs_assignRoles]
    exact compatible.taggable
  · rw [compatible.pairs_assignRoles]
    exact compatible.compatible

end HasCompatiblePairs

/-- Whether a place, a nonterminal with one of its alternatives, is within reach and delimited. -/
structure Delimits (grammar : Grammar) (place : Symbol × Alternative) (pair : TerminalPair) :
    Prop where
  reached : grammar.Reaches grammar.start place.1
  mem : place.2 ∈ grammar.alternatives place.1
  delimited : place.2.IsDelimitedBy pair

/--
Whether every alternative within reach has either no terminal or an opening and a closing one, such
that no terminal opens at one place and closes at another, and opening and closing terminals
determine each other.
-/
structure UsesDelimiters (grammar : Grammar) : Prop where
  shape : ∀ symbol, grammar.Reaches grammar.start symbol →
    ∀ alternative ∈ grammar.alternatives symbol,
      alternative.terminals = [] ∨ ∃ pair, alternative.IsDelimitedBy pair
  apart : ∀ place other pair otherPair, grammar.Delimits place pair →
    grammar.Delimits other otherPair → place ≠ other → pair.1 ≠ otherPair.2
  partner : ∀ place other pair otherPair, grammar.Delimits place pair →
    grammar.Delimits other otherPair → (pair.1 = otherPair.1 ↔ pair.2 = otherPair.2)

section Decidable

/-- The nonterminals within reach, each with each of its alternatives. -/
def places (grammar : Grammar) : List (Symbol × Alternative) :=
  grammar.reachable.flatMap fun symbol => (grammar.alternatives symbol).map (symbol, ·)

variable {place : Symbol × Alternative} {pair : TerminalPair}

theorem mem_places :
    place ∈ grammar.places ↔
      grammar.Reaches grammar.start place.1 ∧ place.2 ∈ grammar.alternatives place.1 := by
  simp only [places, List.mem_flatMap, List.mem_map, mem_reachable]
  constructor
  · rintro ⟨symbol, reached, alternative, mem, rfl⟩
    exact ⟨reached, mem⟩
  · rintro ⟨reached, mem⟩
    exact ⟨place.1, reached, place.2, mem, rfl⟩

theorem delimits_iff :
    grammar.Delimits place pair ↔ place ∈ grammar.places ∧ place.2.delimiters? = some pair := by
  rw [mem_places, Alternative.delimiters?_eq_some_iff]
  exact ⟨fun ⟨reached, mem, delimited⟩ => ⟨⟨reached, mem⟩, delimited⟩,
    fun ⟨⟨reached, mem⟩, delimited⟩ => ⟨reached, mem, delimited⟩⟩

theorem usesDelimiters_iff :
    grammar.UsesDelimiters ↔
      (∀ place ∈ grammar.places, place.2.terminals = [] ∨ place.2.delimiters?.isSome) ∧
      ∀ place ∈ grammar.places, ∀ other ∈ grammar.places,
        ∀ pair ∈ place.2.delimiters?, ∀ otherPair ∈ other.2.delimiters?,
          (place ≠ other → pair.1 ≠ otherPair.2) ∧
            (pair.1 = otherPair.1 ↔ pair.2 = otherPair.2) := by
  simp only [Option.isSome_iff_exists, Alternative.delimiters?_eq_some_iff]
  constructor
  · intro ⟨shape, apart, partner⟩
    refine ⟨fun place place_mem => ?_, ?_⟩
    · exact shape place.1 (mem_places.1 place_mem).1 place.2 (mem_places.1 place_mem).2
    · intro place place_mem other other_mem pair delimited otherPair other_delimited
      have delimits := delimits_iff.2 ⟨place_mem, delimited⟩
      have other_delimits := delimits_iff.2 ⟨other_mem, other_delimited⟩
      exact ⟨apart place other pair otherPair delimits other_delimits,
        partner place other pair otherPair delimits other_delimits⟩
  · intro ⟨shape, pairs⟩
    constructor
    · intro symbol reached alternative mem
      exact shape (symbol, alternative) (mem_places.2 ⟨reached, mem⟩)
    all_goals
      intro place other pair otherPair delimits other_delimits
      rw [delimits_iff] at delimits other_delimits
      have related := pairs place delimits.1 other other_delimits.1 pair delimits.2 otherPair
        other_delimits.2
    · exact related.1
    · exact related.2

instance (grammar : Grammar) : Decidable grammar.UsesDelimiters :=
  decidable_of_iff _ usesDelimiters_iff.symm

/-- Whether some alternative within reach is delimited by a pair. -/
def HasDelimiters (grammar : Grammar) (pair : TerminalPair) : Prop :=
  ∃ place, grammar.Delimits place pair

instance (grammar : Grammar) (pair : TerminalPair) : Decidable (grammar.HasDelimiters pair) :=
  decidable_of_iff (∃ place ∈ grammar.places, place.2.delimiters? = some pair)
    (by simp only [HasDelimiters, delimits_iff])

end Decidable

/-- Whether a terminal opens some alternative within reach that a different one closes. -/
def Opens (grammar : Grammar) (opening : Symbol) : Prop :=
  ∃ closing, grammar.HasDelimiters (opening, closing) ∧ opening ≠ closing

/-- Whether a terminal closes some alternative within reach that a different one opens. -/
def Closes (grammar : Grammar) (closing : Symbol) : Prop :=
  ∃ opening, grammar.HasDelimiters (opening, closing) ∧ opening ≠ closing

namespace UsesDelimiters

variable (delimited : grammar.UsesDelimiters) {pair other : TerminalPair}

include delimited

theorem cases_of_mem {alternative : Alternative}
    (mem : alternative ∈ grammar.reachableAlternatives) :
    alternative.terminals = [] ∨
      ∃ pair, grammar.HasDelimiters pair ∧ alternative.IsDelimitedBy pair := by
  rcases List.mem_flatMap.1 mem with ⟨symbol, reachable, alternative_mem⟩
  have reached := mem_reachable.1 reachable
  apply (delimited.shape symbol reached alternative alternative_mem).imp_right
  rintro ⟨pair, shape⟩
  exact ⟨pair, ⟨(symbol, alternative), reached, alternative_mem, shape⟩, shape⟩

omit delimited in
theorem exists_mem (has : grammar.HasDelimiters pair) :
    ∃ alternative ∈ grammar.reachableAlternatives, alternative.IsDelimitedBy pair := by
  rcases has with ⟨place, reached, mem, shape⟩
  exact ⟨place.2, List.mem_flatMap.2 ⟨place.1, mem_reachable.2 reached, mem⟩, shape⟩

theorem partner_iff (has : grammar.HasDelimiters pair) (has_other : grammar.HasDelimiters other) :
    pair.1 = other.1 ↔ pair.2 = other.2 := by
  rcases has with ⟨place, delimits⟩
  rcases has_other with ⟨otherPlace, other_delimits⟩
  exact delimited.partner place otherPlace pair other delimits other_delimits

/-- A terminal that both opens and closes does so in one alternative alone. -/
theorem eq_of_sides (has : grammar.HasDelimiters pair) (has_other : grammar.HasDelimiters other)
    (same : pair.1 = other.2) : pair = other := by
  rcases has with ⟨place, delimits⟩
  rcases has_other with ⟨otherPlace, other_delimits⟩
  by_cases same_place : place = otherPlace
  · subst same_place
    exact delimits.delimited.unique other_delimits.delimited
  · exact absurd same
      (delimited.apart place otherPlace pair other delimits other_delimits same_place)

theorem sides_ne (has : grammar.HasDelimiters pair) (different : pair.1 ≠ pair.2)
    (has_other : grammar.HasDelimiters other) : pair.1 ≠ other.2 := by
  intro same
  obtain rfl := delimited.eq_of_sides has has_other same
  exact different same

theorem mem_pairs_harvest :
    pair ∈ grammar.harvest.pairs ↔ grammar.HasDelimiters pair ∧ pair.1 ≠ pair.2 := by
  have pairs_of {alternative : Alternative} {own : TerminalPair}
      (shape : alternative.IsDelimitedBy own) :
      pair ∈ TerminalPair.ofTerminals alternative.bareTerminals ↔ pair = own ∧ own.1 ≠ own.2 := by
    rw [shape.bareTerminals_eq]
    by_cases different : own.1 = own.2
    · simp [TerminalPair.ofTerminals, different]
    · simp [TerminalPair.ofTerminals, different, Ne.symm different]
  have pairs_eq : grammar.harvest.pairs =
      grammar.reachableAlternatives.flatMap (TerminalPair.ofTerminals ·.bareTerminals) :=
    rfl
  rw [pairs_eq, List.mem_flatMap]
  constructor
  · rintro ⟨alternative, mem, pair_mem⟩
    rcases delimited.cases_of_mem mem with empty | ⟨own, has, shape⟩
    · rw [← Alternative.bareTerminals_terminals, empty] at pair_mem
      cases pair_mem
    · rcases (pairs_of shape).1 pair_mem with ⟨rfl, different⟩
      exact ⟨has, different⟩
  · rintro ⟨has, different⟩
    rcases exists_mem has with ⟨alternative, mem, shape⟩
    exact ⟨alternative, mem, (pairs_of shape).2 ⟨rfl, different⟩⟩

theorem hasDelimiters_of_mem_plain (plain : terminal ∈ grammar.harvest.plain) :
    grammar.HasDelimiters (terminal, terminal) := by
  rcases mem_plain_harvest.1 plain with ⟨alternative, mem, untaggable⟩
  rcases delimited.cases_of_mem mem with empty | ⟨own, has, shape⟩
  · rw [← Alternative.untaggable_terminals, empty] at untaggable
    cases untaggable
  · rwa [shape.mem_untaggable.1 untaggable] at has

theorem hasCompatiblePairs_harvest : grammar.harvest.HasCompatiblePairs := by
  constructor
  · intro pair mem
    rcases delimited.mem_pairs_harvest.1 mem with ⟨has, different⟩
    constructor
    · intro plain
      exact delimited.sides_ne has different (delimited.hasDelimiters_of_mem_plain plain) rfl
    · intro plain
      have same := delimited.eq_of_sides (delimited.hasDelimiters_of_mem_plain plain) has rfl
      exact different (same ▸ rfl)
  · intro pair mem other other_mem
    rcases delimited.mem_pairs_harvest.1 mem with ⟨has, different⟩
    exact delimited.sides_ne has different (delimited.mem_pairs_harvest.1 other_mem).1

section Assignment

variable (dropRejected : Bool)

theorem mem_calls_assignRoles :
    terminal ∈ (grammar.harvest.assignRoles dropRejected).calls ↔
      ∃ pair ∈ grammar.harvest.pairs, pair.1 = terminal :=
  (delimited.hasCompatiblePairs_harvest.mem_assignRoles dropRejected).1 terminal

theorem mem_returns_assignRoles :
    terminal ∈ (grammar.harvest.assignRoles dropRejected).returns ↔
      ∃ pair ∈ grammar.harvest.pairs, pair.2 = terminal :=
  (delimited.hasCompatiblePairs_harvest.mem_assignRoles dropRejected).2 terminal

/-- The one terminal that stands on both sides of an alternative has no role. -/
theorem role_of_same (has : grammar.HasDelimiters (terminal, terminal)) :
    (grammar.harvest.assignRoles dropRejected).role terminal = .plain := by
  have not_call : terminal ∉ (grammar.harvest.assignRoles dropRejected).calls := by
    rw [delimited.mem_calls_assignRoles]
    rintro ⟨pair, mem, same⟩
    rcases delimited.mem_pairs_harvest.1 mem with ⟨has_pair, different⟩
    exact delimited.sides_ne has_pair different has same
  have not_return : terminal ∉ (grammar.harvest.assignRoles dropRejected).returns := by
    rw [delimited.mem_returns_assignRoles]
    rintro ⟨pair, mem, same⟩
    rcases delimited.mem_pairs_harvest.1 mem with ⟨has_pair, different⟩
    have same_call := (delimited.partner_iff has_pair has).2 same
    exact delimited.sides_ne has_pair different has same_call
  simp [role, not_call, not_return]

/-- The sides of a pair are a call and a return, and the partners of each other. -/
theorem partner?_of_mem (mem : pair ∈ grammar.harvest.pairs) :
    let assigned := grammar.harvest.assignRoles dropRejected
    assigned.partner? pair.1 = some pair.2 ∧ assigned.partner? pair.2 = some pair.1 := by
  intro assigned
  have compatible := delimited.hasCompatiblePairs_harvest
  have pairs_eq : assigned.pairs = grammar.harvest.pairs :=
    compatible.pairs_assignRoles dropRejected
  have called : pair.1 ∈ assigned.calls :=
    (delimited.mem_calls_assignRoles dropRejected).2 ⟨pair, mem, rfl⟩
  have returned : pair.2 ∈ assigned.returns :=
    (delimited.mem_returns_assignRoles dropRejected).2 ⟨pair, mem, rfl⟩
  have not_called : pair.2 ∉ assigned.calls := by
    rw [delimited.mem_calls_assignRoles]
    rintro ⟨other, other_mem, same⟩
    exact compatible.compatible other other_mem pair mem same
  have partner_iff {other : TerminalPair} (other_mem : other ∈ assigned.pairs) :
      pair.1 = other.1 ↔ pair.2 = other.2 := by
    rw [pairs_eq] at other_mem
    exact delimited.partner_iff (delimited.mem_pairs_harvest.1 mem).1
      (delimited.mem_pairs_harvest.1 other_mem).1
  have stored : pair ∈ assigned.pairs := pairs_eq ▸ mem
  constructor
  · have returnOf : assigned.returnOf? pair.1 = some pair.2 := by
      apply InsertionOrder.lookup_eq_some_of_unique stored
      exact fun ret ret_mem => ((partner_iff ret_mem).1 rfl).symm
    simpa [partner?, partnerAmong, role, called] using returnOf
  · have callOf : assigned.callOf? pair.2 = some pair.1 := by
      apply InsertionOrder.lookup_eq_some_of_unique
      · exact List.mem_map.2 ⟨pair, stored, rfl⟩
      intro call call_mem
      rcases List.mem_map.1 call_mem with ⟨other, other_mem, swapped⟩
      rcases Prod.ext_iff.1 swapped with ⟨same_ret, same_call⟩
      exact same_call.symm.trans ((partner_iff other_mem).2 same_ret.symm).symm
    simpa [partner?, partnerAmong, role, not_called, returned] using callOf

/-- In every alternative both delimiters stand as often, that is once. -/
theorem unmatched_assignRoles : (grammar.harvest.assignRoles dropRejected).unmatched = [] := by
  have matched : ∀ alternative ∈ (grammar.harvest.assignRoles dropRejected).reachableAlternatives,
      (grammar.harvest.assignRoles dropRejected).unmatchedIn
        (grammar.harvest.assignRoles dropRejected).partner? alternative = [] := by
    intro alternative mem
    rw [unmatchedIn, List.filter_eq_nil_iff]
    intro terminal terminal_mem
    rw [OrderedSet.toList_ofList, InsertionOrder.mem_distinct] at terminal_mem
    rcases delimited.cases_of_mem mem with empty | ⟨own, has, shape⟩
    · rw [← Alternative.bareTerminals_terminals, empty] at terminal_mem
      cases terminal_mem
    · rw [shape.bareTerminals_eq, List.mem_pair] at terminal_mem
      by_cases different : own.1 = own.2
      · have same : terminal = own.1 := terminal_mem.elim id fun same => same.trans different.symm
        have both : own = (terminal, terminal) := Prod.ext same.symm (different ▸ same.symm)
        simp [delimited.role_of_same dropRejected (both ▸ has)]
      · rcases shape.bareCount_eq different with ⟨count_call, count_ret⟩
        rcases delimited.partner?_of_mem dropRejected
          (delimited.mem_pairs_harvest.2 ⟨has, different⟩) with ⟨returnOf, callOf⟩
        rcases terminal_mem with rfl | rfl
        · simp [returnOf, count_call, count_ret]
        · simp [callOf, count_call, count_ret]
  rw [unmatched_eq, List.flatMap_eq_nil_iff.2 matched]
  rfl

theorem mem_tag :
    (terminal ∈ (grammar.tag dropRejected).calls ↔
      ∃ pair ∈ grammar.harvest.pairs, pair.1 = terminal) ∧
    (terminal ∈ (grammar.tag dropRejected).returns ↔
      ∃ pair ∈ grammar.harvest.pairs, pair.2 = terminal) := by
  have compatible := delimited.hasCompatiblePairs_harvest
  have again := (compatible.assignRoles dropRejected).mem_assignRoles dropRejected
  rw [compatible.pairs_assignRoles] at again
  rw [tag, demoteUnmatched_eq_self (delimited.unmatched_assignRoles dropRejected)]
  exact ⟨again.1 terminal, again.2 terminal⟩

end Assignment

/-- What occurs within reach are the delimiters. -/
theorem mem_reachableTerminals_iff :
    terminal ∈ grammar.reachableTerminals ↔
      ∃ pair, grammar.HasDelimiters pair ∧ (terminal = pair.1 ∨ terminal = pair.2) := by
  rw [mem_reachableTerminals]
  constructor
  · rintro ⟨kind, alternative, mem, occurrence, occurrence_mem, rfl⟩
    have stays : occurrence ∈ alternative.terminals := List.mem_filter.2 ⟨occurrence_mem, kind⟩
    rcases delimited.cases_of_mem mem with empty | ⟨pair, has, shape⟩
    · rw [empty] at stays
      cases stays
    · rw [shape, List.mem_pair] at stays
      exact ⟨pair, has, stays.imp (congrArg Occurrence.symbol) (congrArg Occurrence.symbol)⟩
  · rintro ⟨pair, has, side⟩
    rcases exists_mem has with ⟨alternative, mem, shape⟩
    have bare : terminal ∈ alternative.bareTerminals := by
      rw [shape.bareTerminals_eq, List.mem_pair]
      exact side
    rcases Alternative.mem_bareTerminals.1 bare with ⟨occurrence_mem, kind⟩
    exact ⟨kind, alternative, mem, .bare terminal, occurrence_mem, rfl⟩

section Search

open TaggingChoice

variable {choice : TaggingChoice} (splits : choice.Splits grammar.reachableTerminals)

include splits

theorem isWellMatched_iff :
    grammar.isWellMatched choice ↔
      ∀ pair, grammar.HasDelimiters pair → choice.TagsEvenly pair := by
  have terminals_of {symbols : List Symbol} (subset : symbols ⊆ grammar.reachableTerminals) :
      ∀ symbol ∈ symbols, symbol.isTerminal :=
    fun _ mem => (mem_reachableTerminals.1 (subset mem)).1
  have evenly :=
    balances_terminals (terminals_of splits.calls_subset) (terminals_of splits.returns_subset)
  constructor
  · intro matched pair has
    rcases exists_mem has with ⟨alternative, mem, shape⟩
    rw [← balances_delimiters, ← shape, evenly]
    exact balances_of_mem matched mem
  · intro even
    apply List.all_eq_true.2
    intro alternative mem
    refine (evenly alternative).symm.trans ?_
    rcases delimited.cases_of_mem mem with empty | ⟨pair, has, shape⟩
    · rw [empty, balances_nil]
    · rw [shape, balances_delimiters]
      exact even pair has

variable (matched : grammar.isWellMatched choice)

include matched

/-- A well-matched choice tags opening terminals as calls and closing ones as returns. -/
theorem exists_pair_of_mem_choice :
    (∀ call ∈ choice.calls, ∃ pair ∈ grammar.harvest.pairs, pair.1 = call) ∧
      ∀ ret ∈ choice.returns, ∃ pair ∈ grammar.harvest.pairs, pair.2 = ret := by
  have even := (delimited.isWellMatched_iff splits).1 matched
  have harvested {pair : TerminalPair} (has : grammar.HasDelimiters pair)
      (call : choice.role pair.1 = .call) (ret : choice.role pair.2 = .return) :
      pair ∈ grammar.harvest.pairs := by
    apply delimited.mem_pairs_harvest.2
    refine ⟨has, fun same => ?_⟩
    rw [same, ret] at call
    cases call
  constructor
  · intro terminal mem
    have called := role_eq_call_iff.2 mem
    rcases delimited.mem_reachableTerminals_iff.1 (splits.calls_subset mem) with
      ⟨pair, has, rfl | rfl⟩ <;> rcases even pair has with ⟨call, ret⟩ | ⟨plain_call, plain_ret⟩
    · exact ⟨pair, harvested has call ret, rfl⟩
    · simp [called] at plain_call
    · simp [called] at ret
    · simp [called] at plain_ret
  · intro terminal mem
    have not_call : terminal ∉ choice.calls := fun call_mem => splits.disjoint _ call_mem mem
    have returned := role_eq_return_iff.2 ⟨not_call, mem⟩
    rcases delimited.mem_reachableTerminals_iff.1 (splits.returns_subset mem) with
      ⟨pair, has, rfl | rfl⟩ <;> rcases even pair has with ⟨call, ret⟩ | ⟨plain_call, plain_ret⟩
    · simp [returned] at call
    · simp [returned] at plain_call
    · exact ⟨pair, harvested has call ret, rfl⟩
    · simp [returned] at plain_ret

/-- A pair of delimiters can be added at any time. -/
theorem admits_of_mem (mem : pair ∈ grammar.harvest.pairs) :
    choice.admits pair ∧ (choice.extend pair).matchesAll grammar.reachableAlternatives := by
  rcases delimited.mem_pairs_harvest.1 mem with ⟨has, different⟩
  have even := (delimited.isWellMatched_iff splits).1 matched
  have admitted : choice.admits pair := by
    simp only [admits, Bool.and_eq_true, decide_eq_true_eq]
    rcases even pair has with ⟨call, ret⟩ | ⟨plain_call, plain_ret⟩
    · exact ⟨⟨different, splits.disjoint _ (role_eq_call_iff.1 call)⟩, (role_eq_return_iff.1 ret).1⟩
    · exact ⟨⟨different, (role_eq_plain_iff.1 plain_call).2⟩, (role_eq_plain_iff.1 plain_ret).1⟩
  have side (terminal : Symbol) (terminal_eq : terminal = pair.1 ∨ terminal = pair.2) :
      terminal ∈ grammar.reachableTerminals :=
    delimited.mem_reachableTerminals_iff.2 ⟨pair, has, terminal_eq⟩
  have splits_extend := splits.extend (side _ (.inl rfl)) (side _ (.inr rfl)) admitted
  refine ⟨admitted, (delimited.isWellMatched_iff splits_extend).2 ?_⟩
  intro other has_other
  simp only [TagsEvenly, role_extend admitted]
  have partner := delimited.partner_iff has_other has
  by_cases same : other.1 = pair.1
  · simp [same, partner.1 same, different.symm]
  · have ret_ne : other.2 ≠ pair.2 := fun same_ret => same (partner.2 same_ret)
    have crossed : other.1 ≠ pair.2 := by
      intro crossing
      exact same (congrArg Prod.fst (delimited.eq_of_sides has_other has crossing))
    have crossed' := (delimited.sides_ne has different has_other).symm
    simp only [same, ret_ne, crossed, crossed', if_false]
    exact even other has_other

theorem mem_foldl_tryPair {pairs : List TerminalPair}
    (known : ∀ pair ∈ pairs,
      pair.1 ∈ grammar.reachableTerminals ∧ pair.2 ∈ grammar.reachableTerminals)
    (mem : pair ∈ pairs) (harvested : pair ∈ grammar.harvest.pairs) :
    pair.1 ∈ (pairs.foldl (tryPair grammar.reachableAlternatives) choice).calls ∧
      pair.2 ∈ (pairs.foldl (tryPair grammar.reachableAlternatives) choice).returns := by
  induction pairs generalizing choice with
  | nil => cases mem
  | cons next pairs ih =>
      rw [List.forall_mem_cons] at known
      rcases tryPair_spec known.1.1 known.1.2 splits matched with ⟨splits_next, matched_next⟩
      rw [List.mem_cons] at mem
      rcases mem with rfl | mem
      · have taken := delimited.admits_of_mem splits matched harvested
        have extended : choice.tryPair grammar.reachableAlternatives pair = choice.extend pair := by
          simp [tryPair, taken]
        rcases foldl_tryPair_subset grammar.reachableAlternatives
          (choice.tryPair grammar.reachableAlternatives pair) pairs with ⟨calls, returns⟩
        rw [List.foldl_cons]
        constructor
        · apply calls
          rw [extended]
          exact InsertionOrder.mem_insert.2 (.inr rfl)
        · apply returns
          rw [extended]
          exact InsertionOrder.mem_insert.2 (.inr rfl)
      · exact ih splits_next matched_next known.2 mem

end Search

/-- The search tries every pair of delimiters. -/
theorem mem_searchTagging_of_mem (stored : grammar.terminals = grammar.reachableTerminals)
    (mem : pair ∈ grammar.harvest.pairs) :
    pair.1 ∈ grammar.searchTagging.calls ∧ pair.2 ∈ grammar.searchTagging.returns := by
  have tried (call ret : Symbol) : (call, ret) ∈ grammar.terminalPairs ↔
      call ∈ grammar.reachableTerminals ∧ ret ∈ grammar.reachableTerminals :=
    stored ▸ mem_terminalPairs
  have has := (delimited.mem_pairs_harvest.1 mem).1
  rw [searchTagging_eq]
  apply delimited.mem_foldl_tryPair (by constructor <;> simp) (TaggingChoice.matchesAll_empty _)
  · exact fun pair pair_mem => (tried pair.1 pair.2).1 pair_mem
  · rw [tried, delimited.mem_reachableTerminals_iff, delimited.mem_reachableTerminals_iff]
    exact ⟨⟨pair, has, .inl rfl⟩, ⟨pair, has, .inr rfl⟩⟩
  · exact mem

theorem mem_searchTagging (stored : grammar.terminals = grammar.reachableTerminals) :
    (terminal ∈ grammar.searchTagging.calls ↔
      ∃ pair ∈ grammar.harvest.pairs, pair.1 = terminal) ∧
    (terminal ∈ grammar.searchTagging.returns ↔
      ∃ pair ∈ grammar.harvest.pairs, pair.2 = terminal) := by
  rcases searchTagging_spec (fun _ mem => stored ▸ mem) with ⟨splits, matched⟩
  rcases delimited.exists_pair_of_mem_choice splits matched with ⟨calls, returns⟩
  constructor
  · constructor
    · exact calls terminal
    · rintro ⟨pair, mem, rfl⟩
      exact (delimited.mem_searchTagging_of_mem stored mem).1
  · constructor
    · exact returns terminal
    · rintro ⟨pair, mem, rfl⟩
      exact (delimited.mem_searchTagging_of_mem stored mem).2

theorem opens_iff :
    grammar.Opens terminal ↔ ∃ pair ∈ grammar.harvest.pairs, pair.1 = terminal := by
  simp only [Opens, delimited.mem_pairs_harvest]
  constructor
  · rintro ⟨closing, has⟩
    exact ⟨(terminal, closing), has, rfl⟩
  · rintro ⟨pair, has, rfl⟩
    exact ⟨pair.2, has⟩

theorem closes_iff :
    grammar.Closes terminal ↔ ∃ pair ∈ grammar.harvest.pairs, pair.2 = terminal := by
  simp only [Closes, delimited.mem_pairs_harvest]
  constructor
  · rintro ⟨opening, has⟩
    exact ⟨(opening, terminal), has, rfl⟩
  · rintro ⟨pair, has, rfl⟩
    exact ⟨pair.1, has⟩

end UsesDelimiters

/--
In a grammar of delimiters, tagging and search both find the opening terminals as calls and the
closing ones as returns, where a terminal that stands on both sides of an alternative is neither.
The search finds the same on a grammar that was not tagged before.
-/
theorem tag_delimiters (delimited : grammar.UsesDelimiters) (dropRejected : Bool) :
    let tagged := grammar.tag dropRejected
    let found := tagged.searchTagging
    (∀ terminal, terminal ∈ tagged.calls ↔ grammar.Opens terminal) ∧
      (∀ terminal, terminal ∈ tagged.returns ↔ grammar.Closes terminal) ∧
      (∀ terminal, terminal ∈ found.calls ↔ grammar.Opens terminal) ∧
      (∀ terminal, terminal ∈ found.returns ↔ grammar.Closes terminal) ∧
      found.agreesWith tagged ∧ (grammar.IsRefreshed → grammar.searchTagging = found) := by
  intro tagged found
  have delimited_tagged : tagged.UsesDelimiters := by
    -- Both grammars have the same rules, hence the same places.
    have places := usesDelimiters_iff.1 delimited
    exact usesDelimiters_iff.2 places
  have harvest_eq : tagged.harvest.pairs = grammar.harvest.pairs := rfl
  have stored : tagged.terminals = tagged.reachableTerminals :=
    (isRefreshed_tag grammar dropRejected).terminals_eq
  have tag_calls (terminal : Symbol) : terminal ∈ tagged.calls ↔ grammar.Opens terminal := by
    rw [delimited.opens_iff]
    exact (delimited.mem_tag dropRejected).1
  have tag_returns (terminal : Symbol) : terminal ∈ tagged.returns ↔ grammar.Closes terminal := by
    rw [delimited.closes_iff]
    exact (delimited.mem_tag dropRejected).2
  have found_calls (terminal : Symbol) : terminal ∈ found.calls ↔ grammar.Opens terminal := by
    rw [delimited.opens_iff, ← harvest_eq]
    exact (delimited_tagged.mem_searchTagging stored).1
  have found_returns (terminal : Symbol) : terminal ∈ found.returns ↔ grammar.Closes terminal := by
    rw [delimited.closes_iff, ← harvest_eq]
    exact (delimited_tagged.mem_searchTagging stored).2
  refine ⟨tag_calls, tag_returns, found_calls, found_returns, ?_, ?_⟩
  · apply TaggingChoice.agreesWith_iff.2
    constructor
    · exact fun terminal => (found_calls terminal).trans (tag_calls terminal).symm
    · exact fun terminal => (found_returns terminal).trans (tag_returns terminal).symm
  · intro refreshed
    have same : grammar.terminals = tagged.terminals := refreshed.terminals_eq.trans stored.symm
    have same_pairs : grammar.terminalPairs = tagged.terminalPairs := by
      rw [terminalPairs, same]
      rfl
    exact (searchTagging_eq grammar).trans (same_pairs ▸ (searchTagging_eq tagged).symm)

/--
Values in parentheses or in brackets, lists of a value with an item, and items between bars. The
bar opens and closes the same alternative.
-/
def nested : Grammar :=
  { start := ⟨"value", .nonterminal⟩
    symbols :=
      [⟨"value", .nonterminal⟩, ⟨"item", .nonterminal⟩, ⟨"(", .terminal⟩, ⟨")", .terminal⟩,
        ⟨"[", .terminal⟩, ⟨"]", .terminal⟩, ⟨"|", .terminal⟩]
    rules :=
      [(⟨"value", .nonterminal⟩,
          [[.bare ⟨"(", .terminal⟩, ⟨⟨"value", .nonterminal⟩, .star⟩, .bare ⟨")", .terminal⟩],
            [.bare ⟨"[", .terminal⟩, ⟨⟨"value", .nonterminal⟩, .optional⟩, .bare ⟨"]", .terminal⟩],
            [.bare ⟨"value", .nonterminal⟩, .bare ⟨"item", .nonterminal⟩]]),
        (⟨"item", .nonterminal⟩,
          [[.bare ⟨"|", .terminal⟩, .bare ⟨"value", .nonterminal⟩, .bare ⟨"|", .terminal⟩]])] }

theorem tag_delimiters_nested :
    nested.UsesDelimiters ∧ nested.HasDelimiters (⟨"|", .terminal⟩, ⟨"|", .terminal⟩) ∧
      ∀ dropRejected,
        ⟨"(", .terminal⟩ ∈ (nested.tag dropRejected).calls ∧
          ⟨"]", .terminal⟩ ∈ (nested.tag dropRejected).searchTagging.returns ∧
          ⟨"|", .terminal⟩ ∉ (nested.tag dropRejected).calls ∧
          (nested.tag dropRejected).searchTagging.agreesWith (nested.tag dropRejected) := by
  have delimited : nested.UsesDelimiters := by decide
  have bars : nested.HasDelimiters (⟨"|", .terminal⟩, ⟨"|", .terminal⟩) := by decide
  refine ⟨delimited, bars, fun dropRejected => ?_⟩
  rcases tag_delimiters delimited dropRejected with ⟨calls, _, _, returns, agrees, _⟩
  refine ⟨?_, ?_, ?_, agrees⟩
  · exact (calls _).2 ⟨⟨")", .terminal⟩, by decide, by decide⟩
  · exact (returns _).2 ⟨⟨"[", .terminal⟩, by decide, by decide⟩
  · rw [calls]
    rintro ⟨closing, has, different⟩
    exact delimited.sides_ne has different bars rfl

/-- A rule with a bar on either side. -/
def absolute : Grammar :=
  { start := ⟨"absolute", .nonterminal⟩
    symbols := [⟨"absolute", .nonterminal⟩, ⟨"|", .terminal⟩]
    rules :=
      [(⟨"absolute", .nonterminal⟩,
          [[.bare ⟨"|", .terminal⟩, ⟨⟨"absolute", .nonterminal⟩, .optional⟩,
            .bare ⟨"|", .terminal⟩]])] }

/-- Not every terminal that stands first becomes a call. -/
theorem absolute_untagged :
    absolute.WellFormed ∧ absolute.UsesDelimiters ∧
      absolute.HasDelimiters (⟨"|", .terminal⟩, ⟨"|", .terminal⟩) ∧
      ∀ dropRejected,
        ⟨"|", .terminal⟩ ∉ (absolute.tag dropRejected).calls ∧
          ⟨"|", .terminal⟩ ∉ (absolute.tag dropRejected).searchTagging.calls := by
  decide

end Grammar

end VisiblyPushdown
