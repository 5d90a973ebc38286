import Mathlib.Data.Finset.Card
import Mathlib.Data.Set.Card
import Mathlib.Logic.Relation
import VisiblyPushdown.Grammar.Reachable
import VisiblyPushdown.Proofs.WellFormed

/-!
# Reachability

A nonterminal is reachable when a chain of rules leads to it, each mentioning the next nonterminal
in one of its alternatives. The exploration with a stack and a bound on the number of visits finds
exactly the reachable nonterminals and visits none of them twice.

The bound is never what ends the exploration: a nonterminal is put on the stack only when it was not
seen before, so the stack together with the nonterminals that are still unseen shrinks by one at
every visit.
-/

namespace VisiblyPushdown.Grammar

/-- Whether an alternative of the symbol mentions the other one, a nonterminal. -/
def Mentions (grammar : Grammar) (symbol other : Symbol) : Prop :=
  other.isNonterminal ∧ ∃ alternative ∈ grammar.alternatives symbol,
    ∃ occurrence ∈ alternative, occurrence.symbol = other

/-- Whether a chain of rules leads from a symbol to another one. -/
def Reaches (grammar : Grammar) : Symbol → Symbol → Prop :=
  Relation.ReflTransGen grammar.Mentions

@[simp]
theorem mem_successors {grammar : Grammar} {symbol other : Symbol} :
    other ∈ grammar.successors symbol ↔ grammar.Mentions symbol other := by
  simp only [successors, Mentions, List.mem_flatMap, List.mem_filter, List.mem_map]
  constructor
  · rintro ⟨alternative, alternative_mem, ⟨occurrence, occurrence_mem, rfl⟩, nonterminal⟩
    exact ⟨nonterminal, alternative, alternative_mem, occurrence, occurrence_mem, rfl⟩
  · rintro ⟨nonterminal, alternative, alternative_mem, occurrence, occurrence_mem, rfl⟩
    exact ⟨alternative, alternative_mem, ⟨occurrence, occurrence_mem, rfl⟩, nonterminal⟩

/-- Every symbol that is found can be reached from the stack by successors. -/
theorem exists_stack_of_mem_explore {next : Symbol → List Symbol} {visits : Nat}
    {stack seen : List Symbol} {found : Symbol}
    (found_mem : found ∈ explore next visits stack seen) :
    ∃ root ∈ stack, Relation.ReflTransGen (fun symbol other => other ∈ next symbol) root found := by
  induction visits generalizing stack seen with
  | zero => simp [explore] at found_mem
  | succ visits ih =>
      cases stack with
      | nil => simp [explore] at found_mem
      | cons symbol stack =>
          rw [explore, List.mem_cons] at found_mem
          rcases found_mem with rfl | found_mem
          · exact ⟨found, List.mem_cons_self, .refl⟩
          · obtain ⟨root, root_mem, path⟩ := ih found_mem
            simp only [List.mem_append, List.mem_reverse, InsertionOrder.mem_distinct,
              List.mem_filter] at root_mem
            rcases root_mem with ⟨root_next, _⟩ | root_mem
            · exact ⟨symbol, List.mem_cons_self, .head root_next path⟩
            · exact ⟨root, List.mem_cons_of_mem symbol root_mem, path⟩

/-- What is found stood on the stack or had not been seen. -/
theorem mem_stack_or_unseen_of_mem_explore {next : Symbol → List Symbol} {visits : Nat}
    {stack seen : List Symbol} {found : Symbol}
    (found_mem : found ∈ explore next visits stack seen) :
    found ∈ stack ∨ found ∉ seen := by
  induction visits generalizing stack seen with
  | zero => simp [explore] at found_mem
  | succ visits ih =>
      cases stack with
      | nil => simp [explore] at found_mem
      | cons symbol stack =>
          rw [explore, List.mem_cons] at found_mem
          rcases found_mem with rfl | found_mem
          · exact .inl List.mem_cons_self
          · have earlier := ih found_mem
            simp only [List.mem_append, List.mem_reverse, InsertionOrder.mem_distinct,
              List.mem_filter, decide_eq_true_eq] at earlier
            rcases earlier with (⟨_, unseen⟩ | stacked) | unseen
            · exact .inr unseen
            · exact .inl (List.mem_cons_of_mem symbol stacked)
            · exact .inr fun found_seen => unseen (.inl found_seen)

theorem nodup_explore {next : Symbol → List Symbol} {visits : Nat} {stack seen : List Symbol}
    (stack_nodup : stack.Nodup) (stack_seen : stack ⊆ seen) :
    (explore next visits stack seen).Nodup := by
  induction visits generalizing stack seen with
  | zero => simp [explore]
  | succ visits ih =>
      cases stack with
      | nil => simp [explore]
      | cons symbol stack =>
          rw [List.nodup_cons] at stack_nodup
          rw [List.cons_subset] at stack_seen
          rw [explore, List.nodup_cons]
          constructor
          · intro again
            have later := mem_stack_or_unseen_of_mem_explore again
            simp only [List.mem_append, List.mem_reverse, InsertionOrder.mem_distinct,
              List.mem_filter, decide_eq_true_eq] at later
            rcases later with (⟨_, unseen⟩ | stacked) | unseen
            · exact unseen stack_seen.1
            · exact stack_nodup.1 stacked
            · exact unseen (.inl stack_seen.1)
          · apply ih
            · rw [List.nodup_append]
              refine ⟨List.nodup_reverse.2 (InsertionOrder.nodup_distinct _), stack_nodup.2, ?_⟩
              intro fresh fresh_mem stacked stacked_mem same
              simp only [List.mem_reverse, InsertionOrder.mem_distinct, List.mem_filter,
                decide_eq_true_eq] at fresh_mem
              exact fresh_mem.2 (stack_seen.2 (same ▸ stacked_mem))
            · intro other other_mem
              rw [List.mem_append, List.mem_reverse] at other_mem
              rw [List.mem_append]
              exact other_mem.symm.imp_left fun stacked => stack_seen.2 stacked

/--
With a visit for everything on the stack and for every target that is still unseen, the whole stack
is visited, and every successor of a visited symbol was seen or is visited.
-/
theorem explore_closed {next : Symbol → List Symbol} {targets : Finset Symbol}
    (bounded : ∀ symbol, ∀ other ∈ next symbol, other ∈ targets) {visits : Nat}
    {stack seen : List Symbol}
    (enough : stack.length + (targets \ seen.toFinset).card ≤ visits) :
    (∀ symbol ∈ stack, symbol ∈ explore next visits stack seen) ∧
      ∀ symbol ∈ explore next visits stack seen, ∀ other ∈ next symbol,
        other ∈ seen ∨ other ∈ explore next visits stack seen := by
  induction visits generalizing stack seen with
  | zero =>
      obtain rfl : stack = [] := List.eq_nil_of_length_eq_zero (by omega)
      simp [explore]
  | succ visits ih =>
      cases stack with
      | nil => simp [explore]
      | cons symbol stack =>
          rw [explore]
          generalize fresh_eq : InsertionOrder.distinct ((next symbol).filter (· ∉ seen)) = fresh
          have mem_fresh (other : Symbol) : other ∈ fresh ↔ other ∈ next symbol ∧ other ∉ seen := by
            simp [← fresh_eq]
          have fresh_subset : fresh.toFinset ⊆ targets \ seen.toFinset := by
            intro other other_mem
            rw [List.mem_toFinset, mem_fresh] at other_mem
            simp [bounded symbol other other_mem.1, other_mem.2]
          have fresh_card : fresh.toFinset.card = fresh.length :=
            List.toFinset_card_of_nodup (fresh_eq ▸ InsertionOrder.nodup_distinct _)
          have unseen_card : (targets \ (seen ++ fresh).toFinset).card + fresh.length =
              (targets \ seen.toFinset).card := by
            rw [List.toFinset_append, ← Finset.sup_eq_union, ← sdiff_sdiff_left,
              Finset.card_sdiff_of_subset fresh_subset, fresh_card]
            have := Finset.card_le_card fresh_subset
            omega
          have enough_left : (fresh.reverse ++ stack).length +
              (targets \ (seen ++ fresh).toFinset).card ≤ visits := by
            simp only [List.length_append, List.length_reverse, List.length_cons] at enough ⊢
            omega
          obtain ⟨visited, closed⟩ := ih enough_left
          constructor
          · intro stacked stacked_mem
            rcases List.mem_cons.1 stacked_mem with rfl | stacked_mem
            · exact List.mem_cons_self
            · exact List.mem_cons_of_mem symbol (visited stacked (by simp [stacked_mem]))
          · intro source source_mem other other_mem
            rcases List.mem_cons.1 source_mem with rfl | source_mem
            · by_cases known : other ∈ seen
              · exact .inl known
              · have : other ∈ fresh := (mem_fresh other).2 ⟨other_mem, known⟩
                exact .inr (List.mem_cons_of_mem source (visited other (by simp [this])))
            · rcases closed source source_mem other other_mem with known | found
              · rcases List.mem_append.1 known with known | fresh_mem
                · exact .inl known
                · exact .inr (List.mem_cons_of_mem symbol (visited other (by simp [fresh_mem])))
              · exact .inr (List.mem_cons_of_mem symbol found)

/-- The symbols that occur in the rules of the grammar. -/
def mentioned (grammar : Grammar) : List Symbol :=
  (grammar.rules.flatMap fun rule => rule.2.flatten).map Occurrence.symbol

theorem mem_mentioned_of_mentions {grammar : Grammar} {symbol other : Symbol}
    (mentions : grammar.Mentions symbol other) : other ∈ grammar.mentioned := by
  obtain ⟨_, alternative, alternative_mem, occurrence, occurrence_mem, rfl⟩ := mentions
  obtain ⟨rule, rule_mem, _, alternative_mem⟩ := exists_rule_of_mem_alternatives alternative_mem
  refine List.mem_map_of_mem (List.mem_flatMap.2 ⟨rule, rule_mem, ?_⟩)
  exact List.mem_flatten.2 ⟨alternative, alternative_mem, occurrence_mem⟩

theorem nodup_reachableFrom (grammar : Grammar) (root : Symbol) :
    (grammar.reachableFrom root).Nodup :=
  nodup_explore (List.nodup_singleton root) (List.Subset.refl _)

theorem mem_reachableFrom {grammar : Grammar} {root symbol : Symbol} :
    symbol ∈ grammar.reachableFrom root ↔ grammar.Reaches root symbol := by
  constructor
  · intro found
    obtain ⟨start, start_mem, path⟩ := exists_stack_of_mem_explore found
    obtain rfl := List.mem_singleton.1 start_mem
    exact Relation.ReflTransGen.mono (fun _ _ => mem_successors.1) _ _ path
  · have bounded (source other : Symbol) (other_mem : other ∈ grammar.successors source) :
        other ∈ grammar.mentioned.toFinset :=
      List.mem_toFinset.2 (mem_mentioned_of_mentions (mem_successors.1 other_mem))
    have enough : [root].length + (grammar.mentioned.toFinset \ [root].toFinset).card ≤
        grammar.occurrenceCount + 1 := by
      have unseen := Finset.card_le_card
        (Finset.sdiff_subset (s := grammar.mentioned.toFinset) (t := [root].toFinset))
      have distinct := List.toFinset_card_le grammar.mentioned
      simp only [mentioned, List.length_map, occurrenceCount, List.length_singleton]
        at unseen distinct ⊢
      omega
    obtain ⟨visited, closed⟩ := explore_closed bounded enough
    intro path
    induction path with
    | refl => exact visited root (List.mem_singleton_self root)
    | tail _ mentions ih =>
        rcases closed _ ih _ (mem_successors.2 mentions) with known | found
        · obtain rfl := List.mem_singleton.1 known
          exact visited _ known
        · exact found

theorem nodup_reachable (grammar : Grammar) : grammar.reachable.Nodup :=
  grammar.nodup_reachableFrom grammar.start

theorem mem_reachable {grammar : Grammar} {symbol : Symbol} :
    symbol ∈ grammar.reachable ↔ grammar.Reaches grammar.start symbol :=
  mem_reachableFrom

theorem WellFormed.reaches_mem {grammar : Grammar} (wellFormed : grammar.WellFormed)
    {symbol : Symbol} (reached : grammar.Reaches grammar.start symbol) :
    symbol ∈ grammar.symbols ∧ symbol.isNonterminal := by
  cases reached with
  | refl => exact ⟨wellFormed.start_mem, wellFormed.start_isNonterminal⟩
  | tail _ mentions =>
      obtain ⟨nonterminal, alternative, alternative_mem, occurrence, occurrence_mem, rfl⟩ :=
        mentions
      exact ⟨wellFormed.mentioned_mem alternative_mem occurrence_mem, nonterminal⟩

/-- The number of symbols that are reachable from the start symbol. -/
theorem encard_reaches_start (grammar : Grammar) :
    {symbol | grammar.Reaches grammar.start symbol}.encard = grammar.reachable.length := by
  have members : {symbol | grammar.Reaches grammar.start symbol} =
      (grammar.reachable.toFinset : Set Symbol) := by
    ext symbol
    simp [mem_reachable]
  rw [members, Set.encard_coe_eq_coe_finsetCard,
    List.toFinset_card_of_nodup grammar.nodup_reachable]

theorem explore_prefix (next : Symbol → List Symbol) (visits extra : Nat)
    (stack seen : List Symbol) :
    explore next visits stack seen <+: explore next (visits + extra) stack seen := by
  induction visits generalizing stack seen with
  | zero => exact List.nil_prefix
  | succ visits ih =>
      rw [Nat.succ_add]
      cases stack with
      | nil => exact List.nil_prefix
      | cons symbol stack => exact (List.prefix_cons_inj symbol).2 (ih _ _)

/-- More visits than the grammar has occurrences find nothing more. -/
theorem explore_eq_reachableFrom (grammar : Grammar) (root : Symbol) (extra : Nat) :
    explore grammar.successors (grammar.occurrenceCount + 1 + extra) [root] [root] =
      grammar.reachableFrom root := by
  rcases explore_prefix grammar.successors (grammar.occurrenceCount + 1) extra [root] [root] with
    ⟨further, found_eq⟩
  have nodup : (explore grammar.successors (grammar.occurrenceCount + 1 + extra)
      [root] [root]).Nodup :=
    nodup_explore (List.nodup_singleton root) (List.Subset.refl _)
  have none_further : further = [] := by
    apply List.eq_nil_iff_forall_not_mem.2
    intro symbol further_mem
    have found : symbol ∈
        explore grammar.successors (grammar.occurrenceCount + 1 + extra) [root] [root] := by
      rw [← found_eq]
      exact List.mem_append_right _ further_mem
    rcases exists_stack_of_mem_explore found with ⟨start, start_mem, path⟩
    rw [List.mem_singleton] at start_mem
    subst start_mem
    have reached : symbol ∈ grammar.reachableFrom start :=
      mem_reachableFrom.2 (Relation.ReflTransGen.mono (fun _ _ => mem_successors.1) _ _ path)
    rw [← found_eq, List.nodup_append] at nodup
    exact nodup.2.2 symbol reached symbol further_mem rfl
  rw [← found_eq, none_further, List.append_nil]
  rfl

end VisiblyPushdown.Grammar
