import VisiblyPushdown.Grammar.SimpleForm
import VisiblyPushdown.Proofs.Commitment
import VisiblyPushdown.Proofs.UntaggableTerminals

/-!
# Contents of a tagging

Harvest pairs terminals with terminals, calls and returns come from the pair table, and a repair
only takes tags away. So a tagging never speaks of nonterminals, and the brackets that delimit spans
are a call of the tagging and a terminal.

Nor does a tagging depend on nonterminals: `isTaggedLike_tag` says that it is the same for grammars
with the same occurrences of terminals in the reachable alternatives.
-/

namespace VisiblyPushdown

namespace Alternative

theorem isTerminal_of_mem_bareTerminals {alternative : Alternative} {symbol : Symbol}
    (mem : symbol ∈ alternative.bareTerminals) : symbol.isTerminal := by
  rcases List.mem_map.1 mem with ⟨occurrence, occurrence_mem, rfl⟩
  have bare := (List.mem_filter.1 occurrence_mem).2
  simp only [Occurrence.isBareTerminal, Bool.and_eq_true] at bare
  exact bare.1

/-- The occurrences of terminals in an alternative, in order. -/
def terminals (alternative : Alternative) : Alternative :=
  alternative.filter (·.symbol.isTerminal)

@[simp]
theorem bareTerminals_terminals (alternative : Alternative) :
    (terminals alternative).bareTerminals = bareTerminals alternative := by
  rw [bareTerminals, terminals, List.filter_filter, bareTerminals]
  congr 2
  funext occurrence
  simp only [Occurrence.isBareTerminal]
  cases occurrence.symbol.isTerminal <;> simp

@[simp]
theorem untaggable_terminals (alternative : Alternative) :
    (terminals alternative).untaggable = untaggable alternative := by
  rw [untaggable_eq, untaggable_eq, bareTerminals_terminals, terminals, List.filter_filter]
  congr 2
  funext occurrence
  rw [Bool.eq_iff_iff, Bool.and_eq_true, and_iff_left_iff_imp]
  exact fun barred => (isBarred_empty_iff.1 barred).1

theorem bareCount_terminals {symbol : Symbol} (terminal : symbol.isTerminal)
    (alternative : Alternative) :
    (terminals alternative).bareCount symbol = bareCount alternative symbol := by
  rw [bareCount, terminals, List.countP_filter, bareCount]
  congr 1
  funext occurrence
  by_cases same : occurrence.symbol = symbol
  · simp [same, terminal]
  · simp [same]

end Alternative

namespace TerminalPair

theorem mem_of_mem_ofTerminals {terminals : List Symbol} {pair : TerminalPair}
    (mem : pair ∈ ofTerminals terminals) : pair.1 ∈ terminals ∧ pair.2 ∈ terminals := by
  induction terminals with
  | nil => simp [ofTerminals] at mem
  | cons terminal rest ih =>
      simp only [ofTerminals, List.mem_append, List.mem_map, List.mem_filter,
        List.mem_reverse] at mem
      rcases mem with ⟨other, ⟨other_mem, _⟩, rfl⟩ | mem
      · simp [other_mem]
      · simp [ih mem]

end TerminalPair

theorem mem_rankByFrequency {pairs : List TerminalPair} {pair : TerminalPair} :
    pair ∈ rankByFrequency pairs ↔ pair ∈ pairs := by
  simp only [rankByFrequency_eq, List.mem_flatMap, mem_sort, InsertionOrder.mem_distinct,
    List.mem_map, List.mem_filter, decide_eq_true_eq]
  constructor
  · rintro ⟨_, _, mem, _⟩
    exact mem
  · intro mem
    exact ⟨_, ⟨pair, mem, rfl⟩, mem, rfl⟩

namespace RoleAssignment

theorem mem_of_mem_accepted {plain : SymbolSet} {pairs : List TerminalPair} {pair : TerminalPair}
    (mem : pair ∈ accepted plain pairs) : pair ∈ pairs :=
  mem_rankByFrequency.1 ((committed_sublist ..).subset mem)

/-- Tagged terminals are sides of pairs that were committed. -/
theorem exists_pair_of_mem_ofPairs (plain : SymbolSet) (pairs : List TerminalPair) :
    (∀ call ∈ (ofPairs plain pairs).calls.toList, ∃ pair ∈ pairs, pair.1 = call) ∧
      ∀ ret ∈ (ofPairs plain pairs).returns.toList, ∃ pair ∈ pairs, pair.2 = ret := by
  constructor
  · intro call call_mem
    rcases mem_calls_ofPairs.1 call_mem with ⟨pair, mem, same⟩
    exact ⟨pair, mem_of_mem_accepted mem, same⟩
  · intro ret ret_mem
    rcases mem_returns_ofPairs.1 ret_mem with ⟨pair, mem, same⟩
    exact ⟨pair, mem_of_mem_accepted mem, same⟩

end RoleAssignment

namespace Grammar

variable {grammar : Grammar}

/-- Whether pairs, calls and returns are all made of terminals. -/
structure TagsTerminals (grammar : Grammar) : Prop where
  pairs : ∀ pair ∈ grammar.pairs, pair.1.isTerminal ∧ pair.2.isTerminal
  calls : ∀ call ∈ grammar.calls, call.isTerminal
  returns : ∀ ret ∈ grammar.returns, ret.isTerminal

theorem isTerminal_of_mem_pairs_harvest {pair : TerminalPair}
    (mem : pair ∈ grammar.harvest.pairs) : pair.1.isTerminal ∧ pair.2.isTerminal := by
  rcases List.mem_flatMap.1 mem with ⟨alternative, _, pair_mem⟩
  rcases TerminalPair.mem_of_mem_ofTerminals pair_mem with ⟨call_mem, ret_mem⟩
  exact ⟨Alternative.isTerminal_of_mem_bareTerminals call_mem,
    Alternative.isTerminal_of_mem_bareTerminals ret_mem⟩

theorem tagsTerminals_assignRoles
    (pairs : ∀ pair ∈ grammar.pairs, pair.1.isTerminal ∧ pair.2.isTerminal)
    (dropRejected : Bool) : (grammar.assignRoles dropRejected).TagsTerminals := by
  rcases RoleAssignment.exists_pair_of_mem_ofPairs (.ofList compare grammar.plain) grammar.pairs
    with ⟨calls, returns⟩
  refine ⟨?_, ?_, ?_⟩
  · intro pair mem
    simp only [assignRoles] at mem
    split at mem
    · exact pairs pair (List.mem_filter.1 mem).1
    · exact pairs pair mem
  · intro call call_mem
    rcases calls call call_mem with ⟨pair, mem, rfl⟩
    exact (pairs pair mem).1
  · intro ret ret_mem
    rcases returns ret ret_mem with ⟨pair, mem, rfl⟩
    exact (pairs pair mem).2

theorem TagsTerminals.demoteUnmatched (tagged : grammar.TagsTerminals) :
    grammar.demoteUnmatched.TagsTerminals where
  pairs := tagged.pairs
  calls call call_mem := tagged.calls call (List.mem_filter.1 call_mem).1
  returns ret ret_mem := tagged.returns ret (List.mem_filter.1 ret_mem).1

theorem tagsTerminals_tag (grammar : Grammar) (dropRejected : Bool) :
    (grammar.tag dropRejected).TagsTerminals := by
  apply tagsTerminals_assignRoles
  apply TagsTerminals.pairs
  apply TagsTerminals.demoteUnmatched
  apply tagsTerminals_assignRoles
  exact fun _ => isTerminal_of_mem_pairs_harvest

theorem demoteUnmatched_eq_self (matched : grammar.unmatched = []) :
    grammar.demoteUnmatched = grammar := by
  have all_kept (symbols : List Symbol) : symbols.filter (· ∉ grammar.unmatched) = symbols :=
    List.filter_eq_self.2 fun symbol _ => by simp [matched]
  rw [demoteUnmatched, all_kept, all_kept, matched]
  rfl

/-- Brackets are a call with the return of the first pair that it is the call of. -/
theorem of_lookup_brackets {call ret : Symbol}
    (found : grammar.brackets.lookup call = some ret) :
    call ∈ grammar.calls ∧ (call, ret) ∈ grammar.pairs := by
  rw [lookup_brackets] at found
  split at found
  · next call_mem => exact ⟨call_mem, InsertionOrder.mem_of_lookup_eq_some found⟩
  · cases found

/-- Whether two grammars have the same tags, pairs and plain terminals. -/
structure IsTaggedLike (left right : Grammar) : Prop where
  pairs_eq : left.pairs = right.pairs
  plain_eq : left.plain = right.plain
  calls_eq : left.calls = right.calls
  returns_eq : left.returns = right.returns

theorem isTaggedLike_refresh (grammar : Grammar) : grammar.refresh.IsTaggedLike grammar :=
  ⟨rfl, rfl, rfl, rfl⟩

namespace IsTaggedLike

variable {left middle right : Grammar}

theorem trans (like : left.IsTaggedLike middle) (like_on : middle.IsTaggedLike right) :
    left.IsTaggedLike right where
  pairs_eq := like.pairs_eq.trans like_on.pairs_eq
  plain_eq := like.plain_eq.trans like_on.plain_eq
  calls_eq := like.calls_eq.trans like_on.calls_eq
  returns_eq := like.returns_eq.trans like_on.returns_eq

theorem role_eq (like : left.IsTaggedLike right) : left.role = right.role := by
  funext terminal
  simp only [role, like.calls_eq, like.returns_eq]

theorem partner?_eq (like : left.IsTaggedLike right) : left.partner? = right.partner? := by
  funext terminal
  simp only [partner?, partnerAmong, like.role_eq, returnOf?, callOf?, like.pairs_eq]

end IsTaggedLike

theorem isTerminal_of_partner?
    (pairs : ∀ pair ∈ grammar.pairs, pair.1.isTerminal ∧ pair.2.isTerminal)
    {terminal partner : Symbol} (found : grammar.partner? terminal = some partner) :
    partner.isTerminal := by
  unfold partner? partnerAmong at found
  split at found
  · exact (pairs _ (InsertionOrder.mem_of_lookup_eq_some found)).2
  · have swapped := InsertionOrder.mem_of_lookup_eq_some found
    rcases List.mem_map.1 swapped with ⟨pair, pair_mem, pair_eq⟩
    cases pair_eq
    exact (pairs pair pair_mem).1
  · cases found

theorem unmatchedIn_terminals
    (pairs : ∀ pair ∈ grammar.pairs, pair.1.isTerminal ∧ pair.2.isTerminal)
    (alternative : Alternative) :
    grammar.unmatchedIn grammar.partner? alternative.terminals =
      grammar.unmatchedIn grammar.partner? alternative := by
  simp only [unmatchedIn, Alternative.bareTerminals_terminals]
  apply List.filter_congr
  intro terminal terminal_mem
  rw [OrderedSet.toList_ofList, InsertionOrder.mem_distinct] at terminal_mem
  have kind := Alternative.isTerminal_of_mem_bareTerminals terminal_mem
  rw [Alternative.bareCount_terminals kind]
  cases found : grammar.partner? terminal with
  | none => rfl
  | some partner =>
      have partner_kind := isTerminal_of_partner? pairs found
      simp only [Option.map_some, Option.getD_some, Alternative.bareCount_terminals partner_kind]

variable {left right : Grammar}

theorem isTaggedLike_assignRoles (pairs_eq : left.pairs = right.pairs)
    (plain_eq : left.plain = right.plain) (dropRejected : Bool) :
    (left.assignRoles dropRejected).IsTaggedLike (right.assignRoles dropRejected) := by
  constructor <;> simp [assignRoles, pairs_eq, plain_eq]

variable (same : left.reachableAlternatives.map Alternative.terminals =
  right.reachableAlternatives.map Alternative.terminals)

include same

theorem flatMap_reachableAlternatives_eq {β : Type} (collect : Alternative → List β)
    (through : ∀ alternative, collect alternative.terminals = collect alternative) :
    left.reachableAlternatives.flatMap collect = right.reachableAlternatives.flatMap collect := by
  have collected := congrArg (List.flatMap collect) same
  simpa only [List.flatMap_map, through] using collected

theorem IsTaggedLike.demoteUnmatched (like : left.IsTaggedLike right)
    (pairs : ∀ pair ∈ left.pairs, pair.1.isTerminal ∧ pair.2.isTerminal) :
    left.demoteUnmatched.IsTaggedLike right.demoteUnmatched := by
  have judged : right.unmatchedIn right.partner? = left.unmatchedIn left.partner? := by
    funext alternative
    simp only [unmatchedIn, like.role_eq, like.partner?_eq]
  have unmatched_eq : left.unmatched = right.unmatched := by
    rw [unmatched_eq, unmatched_eq, judged]
    rw [flatMap_reachableAlternatives_eq same _ (unmatchedIn_terminals pairs)]
  constructor <;> simp [Grammar.demoteUnmatched, unmatched_eq, like.pairs_eq, like.plain_eq,
    like.calls_eq, like.returns_eq]

/-- Tagging looks at the terminals of the reachable alternatives and at nothing else. -/
theorem isTaggedLike_tag (dropRejected : Bool) :
    (left.tag dropRejected).IsTaggedLike (right.tag dropRejected) := by
  have pairs_eq : left.harvest.pairs = right.harvest.pairs :=
    flatMap_reachableAlternatives_eq same _ fun _ => by rw [Alternative.bareTerminals_terminals]
  have plain_eq : left.harvest.plain = right.harvest.plain := by
    have untaggable := flatMap_reachableAlternatives_eq same _ Alternative.untaggable_terminals
    exact congrArg (fun symbols => (OrderedSet.ofList compare symbols).toList) untaggable
  have first := isTaggedLike_assignRoles pairs_eq plain_eq dropRejected
  have terminals : (left.harvest.assignRoles dropRejected).TagsTerminals :=
    tagsTerminals_assignRoles (fun _ => isTerminal_of_mem_pairs_harvest) dropRejected
  have same_rules : (left.harvest.assignRoles dropRejected).reachableAlternatives.map
      Alternative.terminals = (right.harvest.assignRoles dropRejected).reachableAlternatives.map
        Alternative.terminals :=
    same
  have repaired := first.demoteUnmatched same_rules terminals.pairs
  exact isTaggedLike_assignRoles repaired.pairs_eq repaired.plain_eq dropRejected

end Grammar

end VisiblyPushdown
