import VisiblyPushdown.Proofs.DeadRules

/-!
# Names with a prime

A nonterminal through which another one is unwound has the name of that one with primes behind it,
as many as it takes for a name that is not in the table. Where no name of the table is another one
with a prime, one prime always does, whatever else is in the table. So left recursion is removed
from a part of such a grammar through the same nonterminals as from the whole.
-/

namespace VisiblyPushdown

namespace Symbol

/-- The nonterminal with the name of another one and a prime. -/
def primed (symbol : Symbol) : Symbol :=
  ⟨symbol.name ++ "'", .nonterminal⟩

theorem eq_of_primed_eq {symbol other : Symbol} (same : symbol.primed = other.primed)
    (nonterminal : symbol.isNonterminal) (other_nonterminal : other.isNonterminal) :
    symbol = other := by
  rcases symbol with ⟨name, kind⟩
  rcases other with ⟨other_name, other_kind⟩
  have name_eq : name = other_name := by simpa [primed] using same
  have kind_eq : kind = .nonterminal := of_decide_eq_true nonterminal
  have other_kind_eq : other_kind = .nonterminal := of_decide_eq_true other_nonterminal
  rw [name_eq, kind_eq, other_kind_eq]

end Symbol

namespace Grammar

/-- Whether no name of a nonterminal in the table is the name of another one with a prime. -/
def IsUnprimed (grammar : Grammar) : Prop :=
  ∀ symbol ∈ grammar.tabledNonterminals, symbol.primed ∉ grammar.symbols

/-- Whether some nonterminals were unwound through those with one prime more, which are all new. -/
structure IsPriming (original : Grammar) (unwound : List Symbol) (current : Grammar) : Prop extends
    original.IsUnwinding unwound Symbol.primed current where
  unwound_isNonterminal : ∀ symbol ∈ unwound, symbol.isNonterminal
  symbol_cases : ∀ symbol ∈ current.symbols,
    symbol ∈ original.symbols ∨ ∃ old ∈ unwound, symbol = old.primed

variable {original current : Grammar} {unwound : List Symbol} {symbol : Symbol}

/-- The next nonterminal is unwound through the one with one prime more. -/
theorem IsPriming.freshNonterminal_eq (priming : original.IsPriming unwound current)
    (unprimed : original.IsUnprimed) (tabled : symbol ∈ original.tabledNonterminals)
    (pending : symbol ∉ unwound) : current.freshNonterminal symbol.name = symbol.primed := by
  have free : symbol.primed ∉ current.symbols := by
    intro taken
    rcases priming.symbol_cases _ taken with old | ⟨other, other_mem, same⟩
    · exact unprimed symbol tabled old
    · rw [Symbol.eq_of_primed_eq same (List.mem_filter.1 tabled).2
        (priming.unwound_isNonterminal other other_mem)] at pending
      exact pending other_mem
  rw [freshNonterminal, firstFree_of_free (decide_eq_false free), Symbol.primed]

theorem IsPriming.unwind (priming : original.IsPriming unwound current)
    (unprimed : original.IsUnprimed) (tabled : symbol ∈ original.tabledNonterminals)
    (pending : symbol ∉ unwound) (recursive : original.isImmediatelyLeftRecursive symbol) :
    original.IsPriming (unwound ++ [symbol]) (current.unwind symbol).1 := by
  have fresh_eq := priming.freshNonterminal_eq unprimed tabled pending
  have ⟨known, nonterminal⟩ := List.mem_filter.1 tabled
  have unwinding := priming.toIsUnwinding.unwind known nonterminal pending recursive
  rw [fresh_eq, Function.update_eq_self] at unwinding
  have current_recursive : current.isImmediatelyLeftRecursive symbol := by
    rwa [isImmediatelyLeftRecursive, priming.alternatives_pending known pending]
  refine ⟨unwinding, ?_, ?_⟩
  · rw [List.forall_mem_append, List.forall_mem_singleton]
    exact ⟨priming.unwound_isNonterminal, nonterminal⟩
  · intro other mem
    rw [symbols_unwind current_recursive, InsertionOrder.mem_insert, fresh_eq] at mem
    rcases mem with mem | rfl
    · rcases priming.symbol_cases other mem with old | ⟨before, before_mem, other_eq⟩
      · exact .inl old
      · exact .inr ⟨before, List.mem_append_left _ before_mem, other_eq⟩
    · exact .inr ⟨symbol, List.mem_append_right _ (List.mem_singleton_self symbol), rfl⟩

/-- With no primed names, left recursion is removed through nonterminals with a single prime. -/
theorem isPriming_removeLeftRecursion {grammar : Grammar} (wellFormed : grammar.WellFormed)
    (unprimed : grammar.IsUnprimed) :
    grammar.IsPriming (grammar.tabledNonterminals.filter grammar.isImmediatelyLeftRecursive)
      grammar.removeLeftRecursion.1 := by
  refine removeLeftRecursion_induction wellFormed (fun unwound current =>
    grammar.IsPriming unwound current) ?_ ?_ ?_ ?_
  · exact fun unwound current priming => ⟨_, priming.toIsUnwinding⟩
  · exact fun unwound current symbol priming tabled pending recursive =>
      priming.unwind unprimed tabled pending recursive
  · exact fun unwound current priming =>
      { priming with wellFormed := priming.wellFormed.of_eq rfl rfl rfl }
  · constructor
    · constructor <;> simp [wellFormed]
    · exact List.forall_mem_nil _
    · exact fun symbol mem => .inl mem

namespace IsPartOf

variable {part whole : Grammar} (partOf : part.IsPartOf whole)

include partOf

theorem isUnprimed (unprimed : whole.IsUnprimed) : part.IsUnprimed := by
  intro symbol tabled known
  have ⟨mem, nonterminal⟩ := List.mem_filter.1 tabled
  exact unprimed symbol (List.mem_filter.2 ⟨partOf.symbols_subset mem, nonterminal⟩)
    (partOf.symbols_subset known)

theorem mem_unwound_iff {symbol : Symbol} (known : symbol ∈ part.symbols) :
    symbol ∈ whole.tabledNonterminals.filter whole.isImmediatelyLeftRecursive ↔
      symbol ∈ part.tabledNonterminals.filter part.isImmediatelyLeftRecursive := by
  simp only [List.mem_filter, tabledNonterminals, known, partOf.symbols_subset known,
    partOf.isImmediatelyLeftRecursive_eq known]

theorem removeLeftRecursion (wellFormed : part.WellFormed) (whole_wellFormed : whole.WellFormed)
    (unprimed : whole.IsUnprimed) :
    part.removeLeftRecursion.1.IsPartOf whole.removeLeftRecursion.1 := by
  have priming := isPriming_removeLeftRecursion wellFormed (partOf.isUnprimed unprimed)
  have whole_priming := isPriming_removeLeftRecursion whole_wellFormed unprimed
  refine ⟨?_, ?_, ?_⟩
  · rw [start_removeLeftRecursion, start_removeLeftRecursion, partOf.start_eq]
  · intro symbol mem
    rcases priming.symbol_cases symbol mem with known | ⟨old, unwound, rfl⟩
    · exact whole_priming.symbols_subset (partOf.symbols_subset known)
    · have known := priming.unwound_mem old unwound
      exact whole_priming.again_mem old ((partOf.mem_unwound_iff known).2 unwound)
  · intro symbol mem
    rcases priming.symbol_cases symbol mem with known | ⟨old, unwound, rfl⟩
    · by_cases unwound : symbol ∈ part.tabledNonterminals.filter part.isImmediatelyLeftRecursive
      · rw [priming.alternatives_unwound symbol unwound, ← partOf.heads_eq known,
          whole_priming.alternatives_unwound symbol ((partOf.mem_unwound_iff known).2 unwound)]
      · rw [priming.alternatives_pending known unwound, ← partOf.alternatives_eq symbol known,
          whole_priming.alternatives_pending (partOf.symbols_subset known)
            (mt (partOf.mem_unwound_iff known).1 unwound)]
    · have known := priming.unwound_mem old unwound
      rw [priming.alternatives_again old unwound, ← partOf.continuations_eq known,
        whole_priming.alternatives_again old ((partOf.mem_unwound_iff known).2 unwound)]

/-- The part stays a part where left recursion is removed through nonterminals of equal names. -/
theorem withoutLeftRecursion (wellFormed : part.WellFormed) (whole_wellFormed : whole.WellFormed)
    (unprimed : part.isLeftRecursive → whole.IsUnprimed) :
    part.withoutLeftRecursion.IsPartOf whole.withoutLeftRecursion := by
  unfold Grammar.withoutLeftRecursion
  rw [← (partOf.correspond wellFormed).isLeftRecursive_eq]
  split
  · next recursive =>
      exact partOf.removeLeftRecursion wellFormed whole_wellFormed (unprimed recursive)
  · exact partOf

/-- What only the whole has in its table is further, or is a further name with a prime. -/
theorem mem_or_further (wellFormed : part.WellFormed) (whole_wellFormed : whole.WellFormed)
    (unprimed : part.isLeftRecursive → whole.IsUnprimed) {symbol : Symbol}
    (mem : symbol ∈ whole.withoutLeftRecursion.symbols) :
    symbol ∈ part.withoutLeftRecursion.symbols ∨ (symbol ∈ whole.symbols ∧ symbol ∉ part.symbols) ∨
      ∃ old ∈ whole.symbols, old ∉ part.symbols ∧ old.isNonterminal ∧ symbol = old.primed := by
  unfold Grammar.withoutLeftRecursion at mem ⊢
  rw [← (partOf.correspond wellFormed).isLeftRecursive_eq] at mem
  split at mem
  · next recursive =>
      rw [if_pos recursive]
      have priming := isPriming_removeLeftRecursion wellFormed
        (partOf.isUnprimed (unprimed recursive))
      have whole_priming := isPriming_removeLeftRecursion whole_wellFormed (unprimed recursive)
      rcases whole_priming.symbol_cases symbol mem with whole_mem | ⟨old, unwound, rfl⟩
      · by_cases known : symbol ∈ part.symbols
        · exact .inl (priming.symbols_subset known)
        · exact .inr (.inl ⟨whole_mem, known⟩)
      · by_cases known : old ∈ part.symbols
        · exact .inl (priming.again_mem old ((partOf.mem_unwound_iff known).1 unwound))
        · exact .inr (.inr ⟨old, whole_priming.unwound_mem old unwound, known,
            whole_priming.unwound_isNonterminal old unwound, rfl⟩)
  · next not_recursive =>
      rw [if_neg not_recursive]
      by_cases known : symbol ∈ part.symbols
      · exact .inl known
      · exact .inr (.inl ⟨mem, known⟩)

end IsPartOf

end Grammar

end VisiblyPushdown
