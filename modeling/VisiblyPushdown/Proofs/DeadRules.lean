import VisiblyPushdown.Proofs.Correspondence
import VisiblyPushdown.Proofs.FoldedRecursion
import VisiblyPushdown.Proofs.LeftRecursion
import VisiblyPushdown.Proofs.Resolve

/-!
# Rules that nothing reaches

Rules for further names cannot be reached from the rules of a description that declares all that it
mentions. They have a part in the analysis all the same: left recursion is removed from them too,
and they take names that would have been given to new nonterminals. Up to the names of the new
nonterminals the reachable rules come out of this as without them, so tags and recursion stay as
they are.
-/

namespace VisiblyPushdown

open Relator (BiUnique)

namespace Grammar

/-- Whether a grammar has all symbols of another one, with the rules that they have there. -/
structure IsPartOf (part whole : Grammar) : Prop where
  start_eq : part.start = whole.start
  symbols_subset : part.symbols ⊆ whole.symbols
  alternatives_eq : ∀ symbol ∈ part.symbols, whole.alternatives symbol = part.alternatives symbol

section Heads

variable {grammar : Grammar} {related : Symbol → Symbol → Prop} {symbol again other : Symbol}
  (unique : BiUnique related) (pair : related again other)
  (kept : ∀ alternative ∈ grammar.alternatives symbol, ∀ occurrence ∈ alternative,
    related occurrence.symbol occurrence.symbol)

include unique pair kept

theorem heads_correspond :
    List.Forall₂ (Alternative.Corresponds related) (grammar.heads symbol again)
      (grammar.heads symbol other) := by
  apply forall₂_distinct (Occurrence.biUnique_corresponds unique).forall₂
  have ending : Alternative.Corresponds related [.bare again] [.bare other] :=
    .cons ⟨pair, rfl⟩ .nil
  split
  · exact .cons ending .nil
  · rw [List.forall₂_map_left_iff, List.forall₂_map_right_iff, List.forall₂_same]
    intro alternative mem
    apply List.rel_append _ ending
    exact Alternative.corresponds_self.2 (kept alternative (List.mem_of_mem_filter mem))

theorem continuations_correspond :
    List.Forall₂ (Alternative.Corresponds related) (grammar.continuations symbol again)
      (grammar.continuations symbol other) := by
  apply forall₂_distinct (Occurrence.biUnique_corresponds unique).forall₂
  apply List.rel_append _ (.cons .nil .nil)
  rw [List.forall₂_map_left_iff, List.forall₂_map_right_iff, List.forall₂_same]
  intro alternative mem
  apply List.rel_append _ (.cons ⟨pair, rfl⟩ .nil)
  apply Alternative.corresponds_self.2
  intro occurrence occurrence_mem
  exact kept alternative (List.mem_of_mem_filter mem) occurrence
    (List.mem_of_mem_tail occurrence_mem)

end Heads

variable {part whole : Grammar}

/-- Pairs old symbols with themselves, and the new nonterminals of the same old one. -/
def Unwound (part : Grammar) (unwound : List Symbol) (again whole_again : Symbol → Symbol)
    (symbol other : Symbol) : Prop :=
  (symbol = other ∧ symbol ∈ part.symbols) ∨
    ∃ old ∈ unwound, symbol = again old ∧ other = whole_again old

section Unwound

variable {unwound whole_unwound : List Symbol} {again whole_again : Symbol → Symbol}
  {rewritten whole_rewritten : Grammar} (unwinding : part.IsUnwinding unwound again rewritten)
  (whole_unwinding : whole.IsUnwinding whole_unwound whole_again whole_rewritten)
  (subset : unwound ⊆ whole_unwound)

include unwinding whole_unwinding subset

theorem biUnique_unwound (symbols_subset : part.symbols ⊆ whole.symbols) :
    BiUnique (part.Unwound unwound again whole_again) := by
  have unknown {symbol : Symbol} (pending : symbol ∈ unwound) : whole_again symbol ∉ part.symbols :=
    fun known => whole_unwinding.again_new symbol (subset pending) (symbols_subset known)
  constructor
  · rintro symbol other image (⟨rfl, known⟩ | ⟨old, pending, rfl, rfl⟩)
      (⟨rfl, other_known⟩ | ⟨other_old, other_pending, rfl, image_eq⟩)
    · rfl
    · exact absurd (image_eq ▸ known) (unknown other_pending)
    · exact absurd other_known (unknown pending)
    · rw [whole_unwinding.again_injective old (subset pending) other_old (subset other_pending)
        image_eq]
  · rintro symbol image other (⟨rfl, known⟩ | ⟨old, pending, rfl, rfl⟩)
      (⟨rfl, other_known⟩ | ⟨other_old, other_pending, symbol_eq, rfl⟩)
    · rfl
    · exact absurd (symbol_eq ▸ known) (unwinding.again_new other_old other_pending)
    · exact absurd other_known (unwinding.again_new old pending)
    · rw [unwinding.again_injective old pending other_old other_pending symbol_eq]

theorem kind_eq_of_unwound {symbol other : Symbol}
    (pair : part.Unwound unwound again whole_again symbol other) : symbol.kind = other.kind := by
  rcases pair with ⟨rfl, _⟩ | ⟨old, pending, rfl, rfl⟩
  · rfl
  · have kind := unwinding.again_isNonterminal old pending
    have whole_kind := whole_unwinding.again_isNonterminal old (subset pending)
    simp only [Symbol.isNonterminal, decide_eq_true_eq] at kind whole_kind
    rw [kind, whole_kind]

omit whole_unwinding subset in
theorem eq_of_unwound {symbol other : Symbol}
    (pair : part.Unwound unwound again whole_again symbol other) (terminal : symbol.isTerminal) :
    symbol = other := by
  rcases pair with ⟨rfl, _⟩ | ⟨old, pending, rfl, rfl⟩
  · rfl
  · have nonterminal := unwinding.again_isNonterminal old pending
    rw [← Symbol.not_isTerminal, terminal] at nonterminal
    cases nonterminal

end Unwound

namespace IsPartOf

variable (partOf : part.IsPartOf whole) (wellFormed : part.WellFormed)

include partOf

theorem isImmediatelyLeftRecursive_eq {symbol : Symbol} (known : symbol ∈ part.symbols) :
    whole.isImmediatelyLeftRecursive symbol = part.isImmediatelyLeftRecursive symbol := by
  rw [isImmediatelyLeftRecursive, partOf.alternatives_eq symbol known, isImmediatelyLeftRecursive]

theorem heads_eq {symbol : Symbol} (known : symbol ∈ part.symbols) (again : Symbol) :
    whole.heads symbol again = part.heads symbol again := by
  rw [heads, partOf.alternatives_eq symbol known, heads]

theorem continuations_eq {symbol : Symbol} (known : symbol ∈ part.symbols) (again : Symbol) :
    whole.continuations symbol again = part.continuations symbol again := by
  rw [continuations, partOf.alternatives_eq symbol known, continuations]

include wellFormed

theorem correspond :
    Correspond (fun symbol other => symbol = other ∧ symbol ∈ part.symbols) part whole where
  unique := ⟨fun _ _ _ first second => first.1.trans second.1.symm,
    fun _ _ _ first second => first.1.symm.trans second.1⟩
  kind_eq _ _ pair := congrArg Symbol.kind pair.1
  terminal_eq _ _ pair _ := pair.1
  start := ⟨partOf.start_eq, wellFormed.start_mem⟩
  alternatives := by
    rintro symbol _ ⟨rfl, known⟩
    rw [partOf.alternatives_eq symbol known, List.forall₂_same]
    intro alternative mem
    apply Alternative.corresponds_self.2
    exact fun occurrence occurrence_mem => ⟨rfl, wellFormed.mentioned_mem mem occurrence_mem⟩

theorem exists_correspond_removeLeftRecursion (whole_wellFormed : whole.WellFormed) :
    ∃ related, Correspond related part.removeLeftRecursion.1 whole.removeLeftRecursion.1 := by
  rcases exists_isUnwinding wellFormed with ⟨unwound, again, unwinding, complete⟩
  rcases exists_isUnwinding whole_wellFormed with
    ⟨whole_unwound, whole_again, whole_unwinding, whole_complete⟩
  have pending_iff {symbol : Symbol} (known : symbol ∈ part.symbols) :
      symbol ∈ whole_unwound ↔ symbol ∈ unwound := by
    rw [whole_complete, complete, partOf.isImmediatelyLeftRecursive_eq known]
  have subset : unwound ⊆ whole_unwound := fun symbol pending =>
    (pending_iff (unwinding.unwound_mem symbol pending)).2 pending
  have unique := biUnique_unwound unwinding whole_unwinding subset partOf.symbols_subset
  have kept (symbol : Symbol) (alternative : Alternative)
      (mem : alternative ∈ part.alternatives symbol) (occurrence : Occurrence)
      (occurrence_mem : occurrence ∈ alternative) :
      part.Unwound unwound again whole_again occurrence.symbol occurrence.symbol :=
    .inl ⟨rfl, wellFormed.mentioned_mem mem occurrence_mem⟩
  refine ⟨part.Unwound unwound again whole_again, unique,
    fun _ _ => kind_eq_of_unwound unwinding whole_unwinding subset,
    fun _ _ => eq_of_unwound unwinding, ?_, ?_⟩
  · rw [start_removeLeftRecursion, start_removeLeftRecursion]
    exact .inl ⟨partOf.start_eq, wellFormed.start_mem⟩
  · rintro symbol other (⟨rfl, known⟩ | ⟨old, pending, rfl, rfl⟩)
    · by_cases pending : symbol ∈ unwound
      · rw [unwinding.alternatives_unwound symbol pending,
          whole_unwinding.alternatives_unwound symbol (subset pending), partOf.heads_eq known]
        exact heads_correspond unique (.inr ⟨symbol, pending, rfl, rfl⟩) (kept symbol)
      · have whole_pending : symbol ∉ whole_unwound := mt (pending_iff known).1 pending
        rw [unwinding.alternatives_pending known pending,
          whole_unwinding.alternatives_pending (partOf.symbols_subset known) whole_pending,
          partOf.alternatives_eq symbol known, List.forall₂_same]
        exact fun alternative mem => Alternative.corresponds_self.2 (kept symbol alternative mem)
    · have known := unwinding.unwound_mem old pending
      rw [unwinding.alternatives_again old pending,
        whole_unwinding.alternatives_again old (subset pending), partOf.continuations_eq known]
      exact continuations_correspond unique (.inr ⟨old, pending, rfl, rfl⟩) (kept old)

theorem exists_correspond_withoutLeftRecursion (whole_wellFormed : whole.WellFormed) :
    ∃ related, Correspond related part.withoutLeftRecursion whole.withoutLeftRecursion := by
  unfold withoutLeftRecursion
  rw [← (partOf.correspond wellFormed).isLeftRecursive_eq]
  split
  · exact partOf.exists_correspond_removeLeftRecursion wellFormed whole_wellFormed
  · exact ⟨_, partOf.correspond wellFormed⟩

end IsPartOf

end Grammar

namespace Description

variable {original extended : Description} {part whole : Grammar}

/-- Whether a description adds to another one only nonterminals with names of their own. -/
structure Extends (extended original : Description) : Prop where
  start_eq : extended.start = original.start
  terminals_eq : extended.terminals = original.terminals
  nonterminals_eq :
    extended.nonterminals.filter original.declaresNonterminal = original.nonterminals
  rules_eq :
    extended.rules.filter (fun rule => original.declaresNonterminal rule.1) = original.rules

theorem Extends.isPartOf (extension : extended.Extends original)
    (resolved : original.resolve = .ok part) (whole_resolved : extended.resolve = .ok whole) :
    part.IsPartOf whole := by
  rcases resolve_eq_ok_iff.1 resolved with ⟨start, start_eq, _, _, part_eq⟩
  rcases resolve_eq_ok_iff.1 whole_resolved with ⟨whole_start, whole_start_eq, _, _, whole_eq⟩
  have same_start : whole_start = start := by
    rw [extension.start_eq, start_eq] at whole_start_eq
    exact (Option.some.inj whole_start_eq).symm
  subst same_start
  refine ⟨?_, ?_, ?_⟩
  · rw [← part_eq, ← whole_eq, start_toGrammar, start_toGrammar]
  · intro symbol known
    rw [← part_eq, mem_symbols_toGrammar] at known
    rw [← whole_eq, mem_symbols_toGrammar, extension.terminals_eq]
    rcases known with rfl | ⟨name, name_mem, rfl⟩ | terminal | ⟨rule, rule_mem, holds⟩
    · exact .inl rfl
    · rw [← extension.nonterminals_eq] at name_mem
      exact .inr (.inl ⟨name, List.mem_of_mem_filter name_mem, rfl⟩)
    · exact .inr (.inr (.inl terminal))
    · rw [← extension.rules_eq] at rule_mem
      exact .inr (.inr (.inr ⟨rule, List.mem_of_mem_filter rule_mem, holds⟩))
  · rintro ⟨name, _ | _⟩ known
    · rw [(wellFormed_resolve resolved).alternatives_of_isTerminal rfl,
        (wellFormed_resolve whole_resolved).alternatives_of_isTerminal rfl]
    · have declared : original.declaresNonterminal name := declares_of_mem_symbols resolved known
      rw [← part_eq, ← whole_eq, alternatives_toGrammar, alternatives_toGrammar,
        ← extension.rules_eq, List.filter_filter]
      congr 3
      funext rule
      by_cases same : rule.1 = name
      · simp [same, declared]
      · simp [same]

end Description

namespace Settings

/-- Nested pairs of brackets of two kinds. -/
def nestedBrackets : Description :=
  { start := some "s"
    terminals := ["a", "b", "c", "d", "n"]
    rules :=
      [("s",
          [[.bare ⟨"b", .terminal⟩, .bare ⟨"c", .terminal⟩],
            [.bare ⟨"a", .terminal⟩, .bare ⟨"b", .terminal⟩, .bare ⟨"x", .nonterminal⟩,
              .bare ⟨"s", .nonterminal⟩, .bare ⟨"c", .terminal⟩, .bare ⟨"d", .terminal⟩,
              .bare ⟨"z", .nonterminal⟩]]),
        ("x", [[.bare ⟨"n", .terminal⟩]]), ("z", [[]])] }

/-- The same with a rule that nothing reaches, for the part between the outer brackets. -/
def nestedBracketsWithSpan : Description :=
  { nestedBrackets with
    rules := nestedBrackets.rules ++
      [("_L_b_x_s_c",
        [[.bare ⟨"b", .terminal⟩, .bare ⟨"x", .nonterminal⟩, .bare ⟨"s", .nonterminal⟩,
          .bare ⟨"c", .terminal⟩]])] }

theorem extends_nestedBrackets : nestedBracketsWithSpan.Extends nestedBrackets := by
  constructor <;> decide

end Settings

end VisiblyPushdown
