import Mathlib.Logic.Function.Basic
import VisiblyPushdown.Grammar.LeftRecursion
import VisiblyPushdown.Proofs.FreshName
import VisiblyPushdown.Proofs.WellFormed

/-!
# Unwinding left recursion

What one step of left-recursion removal does to the rules, and what the whole pass has done in the
end: `IsUnwinding` says which nonterminals were unwound, through which new ones, and what the
alternatives of every symbol are. A nonterminal that is still to be treated has the alternatives
that it had at the start, so the order of the table is of no consequence.
-/

namespace VisiblyPushdown

namespace Grammar

variable {grammar : Grammar} {symbol : Symbol}

/-- The alternatives of an unwound nonterminal. -/
def heads (grammar : Grammar) (symbol again : Symbol) : List Alternative :=
  let based := (grammar.alternatives symbol).filter (!Alternative.startsWith symbol ·)
  InsertionOrder.distinct <|
    if based.isEmpty then [[.bare again]] else based.map (· ++ [.bare again])

/-- The alternatives of the nonterminal through which another one was unwound. -/
def continuations (grammar : Grammar) (symbol again : Symbol) : List Alternative :=
  let recursive := (grammar.alternatives symbol).filter (Alternative.startsWith symbol)
  InsertionOrder.distinct <| recursive.map (·.tail ++ [.bare again]) ++ [[]]

variable {again : Symbol} {alternative : Alternative}

theorem mem_heads :
    alternative ∈ grammar.heads symbol again ↔
      (∃ based ∈ grammar.alternatives symbol, ¬based.startsWith symbol ∧
        alternative = based ++ [.bare again]) ∨
      ((∀ other ∈ grammar.alternatives symbol, other.startsWith symbol) ∧
        alternative = [.bare again]) := by
  rw [heads, InsertionOrder.mem_distinct]
  split
  · next empty =>
      simp only [List.isEmpty_iff, List.filter_eq_nil_iff, Bool.not_eq_true', Bool.not_eq_false]
        at empty
      rw [List.mem_singleton]
      constructor
      · exact fun alternative_eq => .inr ⟨empty, alternative_eq⟩
      · rintro (⟨based, mem, starts, _⟩ | ⟨_, alternative_eq⟩)
        · exact absurd (empty based mem) starts
        · exact alternative_eq
  · next nonempty =>
      simp only [List.isEmpty_iff, List.filter_eq_nil_iff, Bool.not_eq_true', Bool.not_eq_false]
        at nonempty
      simp only [List.mem_map, List.mem_filter, Bool.not_eq_true', ← Bool.not_eq_true]
      constructor
      · rintro ⟨based, ⟨mem, starts⟩, rfl⟩
        exact .inl ⟨based, mem, starts, rfl⟩
      · rintro (⟨based, mem, starts, rfl⟩ | ⟨grounding, _⟩)
        · exact ⟨based, ⟨mem, starts⟩, rfl⟩
        · exact absurd grounding nonempty

theorem mem_continuations :
    alternative ∈ grammar.continuations symbol again ↔
      (∃ recursive ∈ grammar.alternatives symbol, recursive.startsWith symbol ∧
        alternative = recursive.tail ++ [.bare again]) ∨ alternative = [] := by
  simp only [continuations, InsertionOrder.mem_distinct, List.mem_append, List.mem_map,
    List.mem_filter, List.mem_singleton]
  refine or_congr_left ?_
  constructor
  · rintro ⟨recursive, ⟨mem, starts⟩, rfl⟩
    exact ⟨recursive, mem, starts, rfl⟩
  · rintro ⟨recursive, mem, starts, rfl⟩
    exact ⟨recursive, ⟨mem, starts⟩, rfl⟩

theorem freshNonterminal_not_mem (grammar : Grammar) (base : String) :
    grammar.freshNonterminal base ∉ grammar.symbols := by
  have free := taken_firstFree (fun name => (⟨name, .nonterminal⟩ : Symbol) ∈ grammar.symbols)
    grammar.symbols.length (base ++ "'") (grammar.symbols.map Symbol.name)
    (fun other taken _ => List.mem_map.2 ⟨_, of_decide_eq_true taken, rfl⟩) (by simp)
  exact of_decide_eq_false free

theorem unwind_of_recursive (recursive : grammar.isImmediatelyLeftRecursive symbol) :
    grammar.unwind symbol =
      let again := grammar.freshNonterminal symbol.name
      ((grammar.intern again
        |>.setAlternatives symbol (grammar.heads symbol again)
        |>.setAlternatives again (grammar.continuations symbol again)), [again]) := by
  rw [unwind, if_pos recursive, List.partition_eq_filter_filter]
  rfl

theorem symbols_unwind (recursive : grammar.isImmediatelyLeftRecursive symbol) :
    (grammar.unwind symbol).1.symbols =
      InsertionOrder.insert grammar.symbols (grammar.freshNonterminal symbol.name) := by
  rw [unwind_of_recursive recursive]
  simp only [symbols_setAlternatives]
  rfl

theorem alternatives_unwind (recursive : grammar.isImmediatelyLeftRecursive symbol)
    (known : symbol ∈ grammar.symbols) (nonterminal : symbol.isNonterminal) (other : Symbol) :
    (grammar.unwind symbol).1.alternatives other =
      let again := grammar.freshNonterminal symbol.name
      if other = again then grammar.continuations symbol again
      else if other = symbol then grammar.heads symbol again
      else grammar.alternatives other := by
  have different : symbol ≠ grammar.freshNonterminal symbol.name := by
    intro same
    exact grammar.freshNonterminal_not_mem symbol.name (same ▸ known)
  have not_terminal : symbol.isTerminal = false := by
    rw [← Bool.not_eq_true', Symbol.not_isTerminal]
    exact nonterminal
  rw [unwind_of_recursive recursive]
  dsimp only
  split
  · next same => rw [same, alternatives_setAlternatives_self _ rfl]
  · next new =>
      rw [alternatives_setAlternatives_of_ne _ new]
      split
      · next same => rw [same, alternatives_setAlternatives_self _ not_terminal]
      · next old => rw [alternatives_setAlternatives_of_ne _ old, alternatives_intern]

theorem WellFormed.unwind (wellFormed : grammar.WellFormed) (known : symbol ∈ grammar.symbols) :
    (grammar.unwind symbol).1.WellFormed := by
  by_cases recursive : grammar.isImmediatelyLeftRecursive symbol
  · rw [unwind_of_recursive recursive]
    dsimp only
    generalize grammar.freshNonterminal symbol.name = again
    have known_still {other : Symbol} (other_mem : other ∈ grammar.symbols) :
        other ∈ (grammar.intern again).symbols :=
      InsertionOrder.mem_insert.2 (.inl other_mem)
    have again_mem : again ∈ (grammar.intern again).symbols :=
      InsertionOrder.mem_insert.2 (.inr rfl)
    have mentioned {body : Alternative}
        (body_mem : ∀ occurrence ∈ body, occurrence.symbol ∈ grammar.symbols) :
        ∀ occurrence ∈ body ++ [.bare again],
          occurrence.symbol ∈ (grammar.intern again).symbols := by
      intro occurrence occurrence_mem
      rcases List.mem_append.1 occurrence_mem with old | last
      · exact known_still (body_mem occurrence old)
      · exact List.mem_singleton.1 last ▸ again_mem
    refine ((wellFormed.intern again).setAlternatives (known_still known)
      (InsertionOrder.nodup_distinct _) ?_).setAlternatives ?_ (InsertionOrder.nodup_distinct _) ?_
    · intro alternative mem
      rcases mem_heads.1 mem with ⟨based, based_mem, _, rfl⟩ | ⟨_, rfl⟩
      · exact mentioned fun _ => wellFormed.mentioned_mem based_mem
      · exact mentioned fun _ mem => absurd mem List.not_mem_nil
    · rwa [symbols_setAlternatives]
    · intro alternative mem
      rw [symbols_setAlternatives]
      rcases mem_continuations.1 mem with ⟨recursive, recursive_mem, _, rfl⟩ | rfl
      · exact mentioned fun _ occurrence_mem =>
          wellFormed.mentioned_mem recursive_mem (List.mem_of_mem_tail occurrence_mem)
      · exact fun _ mem => absurd mem List.not_mem_nil
  · rw [Grammar.unwind, if_neg recursive]
    exact wellFormed

/--
What has become of a grammar when some nonterminals were unwound, each through the new nonterminal
that `again` gives for it.
-/
structure IsUnwinding (original : Grammar) (unwound : List Symbol) (again : Symbol → Symbol)
    (current : Grammar) : Prop where
  wellFormed : current.WellFormed
  symbols_subset : original.symbols ⊆ current.symbols
  unwound_mem : ∀ symbol ∈ unwound, symbol ∈ original.symbols
  again_mem : ∀ symbol ∈ unwound, again symbol ∈ current.symbols
  again_new : ∀ symbol ∈ unwound, again symbol ∉ original.symbols
  again_isNonterminal : ∀ symbol ∈ unwound, (again symbol).isNonterminal
  again_injective : ∀ symbol ∈ unwound, ∀ other ∈ unwound, again symbol = again other →
    symbol = other
  alternatives_unwound : ∀ symbol ∈ unwound,
    current.alternatives symbol = original.heads symbol (again symbol)
  alternatives_again : ∀ symbol ∈ unwound,
    current.alternatives (again symbol) = original.continuations symbol (again symbol)
  alternatives_other : ∀ symbol ∉ unwound, (∀ other ∈ unwound, symbol ≠ again other) →
    current.alternatives symbol = original.alternatives symbol

theorem WellFormed.isUnwinding (wellFormed : grammar.WellFormed) :
    grammar.IsUnwinding [] id grammar := by
  constructor <;> simp [wellFormed]

theorem IsUnwinding.alternatives_pending {original current : Grammar} {unwound : List Symbol}
    {again : Symbol → Symbol} (unwinding : original.IsUnwinding unwound again current)
    (known : symbol ∈ original.symbols) (pending : symbol ∉ unwound) :
    current.alternatives symbol = original.alternatives symbol :=
  unwinding.alternatives_other symbol pending fun other other_mem same =>
    unwinding.again_new other other_mem (same ▸ known)

/-- What is said of all unwound nonterminals with their new ones is said of the last pair apart. -/
theorem forall_mem_update (property : Symbol → Symbol → Prop) {unwound : List Symbol}
    {again : Symbol → Symbol} {new : Symbol} (pending : symbol ∉ unwound) :
    (∀ other ∈ unwound ++ [symbol], property other (Function.update again symbol new other)) ↔
      (∀ other ∈ unwound, property other (again other)) ∧ property symbol new := by
  rw [List.forall_mem_append, List.forall_mem_singleton, Function.update_self]
  refine and_congr_left fun _ => forall₂_congr fun other other_mem => ?_
  have different : other ≠ symbol := by
    rintro rfl
    exact pending other_mem
  rw [Function.update_of_ne different]

/-- Unwinding one more nonterminal of the original grammar. -/
theorem IsUnwinding.unwind {original current : Grammar} {unwound : List Symbol}
    {again : Symbol → Symbol} (unwinding : original.IsUnwinding unwound again current)
    (known : symbol ∈ original.symbols) (nonterminal : symbol.isNonterminal)
    (pending : symbol ∉ unwound) (recursive : original.isImmediatelyLeftRecursive symbol) :
    original.IsUnwinding (unwound ++ [symbol])
      (Function.update again symbol (current.freshNonterminal symbol.name))
        (current.unwind symbol).1 := by
  have alternatives_eq := unwinding.alternatives_pending known pending
  have current_recursive : current.isImmediatelyLeftRecursive symbol := by
    rwa [isImmediatelyLeftRecursive, alternatives_eq]
  have known_now := unwinding.symbols_subset known
  have fresh := current.freshNonterminal_not_mem symbol.name
  have new_isNonterminal : (current.freshNonterminal symbol.name).isNonterminal := rfl
  have symbols_eq := symbols_unwind current_recursive
  have alternatives_now := alternatives_unwind current_recursive known_now nonterminal
  generalize current.freshNonterminal symbol.name = new at *
  have ne_new {other : Symbol} (other_mem : other ∈ current.symbols) : other ≠ new := by
    rintro rfl
    exact fresh other_mem
  have ne_symbol {other : Symbol} (other_mem : other ∈ unwound) : again other ≠ symbol := by
    intro same
    exact unwinding.again_new other other_mem (same ▸ known)
  have mem_now {other : Symbol} :
      other ∈ (current.unwind symbol).1.symbols ↔ other ∈ current.symbols ∨ other = new := by
    rw [symbols_eq, InsertionOrder.mem_insert]
  exact {
    wellFormed := unwinding.wellFormed.unwind known_now
    symbols_subset := fun other other_mem => mem_now.2 (.inl (unwinding.symbols_subset other_mem))
    unwound_mem := by
      rw [List.forall_mem_append, List.forall_mem_singleton]
      exact ⟨unwinding.unwound_mem, known⟩
    again_mem := by
      refine (forall_mem_update (fun _ again => again ∈ _) pending).2 ⟨?_, mem_now.2 (.inr rfl)⟩
      exact fun other other_mem => mem_now.2 (.inl (unwinding.again_mem other other_mem))
    again_new := by
      refine (forall_mem_update (fun _ again => again ∉ _) pending).2 ⟨unwinding.again_new, ?_⟩
      exact fun new_known => fresh (unwinding.symbols_subset new_known)
    again_isNonterminal :=
      (forall_mem_update (fun _ again => again.isNonterminal) pending).2
        ⟨unwinding.again_isNonterminal, new_isNonterminal⟩
    again_injective := by
      refine (forall_mem_update (fun left again_left => ∀ right ∈ unwound ++ [symbol],
        again_left = Function.update again symbol new right → left = right) pending).2
          ⟨fun left left_mem => ?_, ?_⟩
      · refine (forall_mem_update (fun right again_right => again left = again_right → left = right)
          pending).2 ⟨unwinding.again_injective left left_mem, fun same => ?_⟩
        exact absurd same (ne_new (unwinding.again_mem left left_mem))
      · refine (forall_mem_update (fun right again_right => new = again_right → symbol = right)
          pending).2 ⟨fun right right_mem same => ?_, fun _ => rfl⟩
        exact absurd same.symm (ne_new (unwinding.again_mem right right_mem))
    alternatives_unwound := by
      refine (forall_mem_update (fun other again => _ = original.heads other again) pending).2
        ⟨fun other other_mem => ?_, ?_⟩
      · have other_known := unwinding.symbols_subset (unwinding.unwound_mem other other_mem)
        have different : other ≠ symbol := by
          rintro rfl
          exact pending other_mem
        rw [alternatives_now, if_neg (ne_new other_known), if_neg different]
        exact unwinding.alternatives_unwound other other_mem
      · rw [alternatives_now, if_neg (ne_new known_now), if_pos rfl, heads, heads, alternatives_eq]
    alternatives_again := by
      refine (forall_mem_update (fun other again => (current.unwind symbol).1.alternatives again =
        original.continuations other again) pending).2 ⟨fun other other_mem => ?_, ?_⟩
      · rw [alternatives_now, if_neg (ne_new (unwinding.again_mem other other_mem)),
          if_neg (ne_symbol other_mem)]
        exact unwinding.alternatives_again other other_mem
      · rw [alternatives_now, if_pos rfl, continuations, continuations, alternatives_eq]
    alternatives_other := by
      intro other other_pending other_old
      rw [List.mem_append, not_or, List.mem_singleton] at other_pending
      obtain ⟨apart, unborn⟩ :=
        (forall_mem_update (fun _ again => other ≠ again) pending).1 other_old
      rw [alternatives_now, if_neg unborn, if_neg other_pending.2]
      exact unwinding.alternatives_other other other_pending.1 apart }

/--
What is kept by unwinding one more nonterminal holds after a pass over several. Those that are left
recursive are so in the original grammar, as nothing is done to a rule before it is unwound.
-/
theorem foldl_unwind_induction {original current : Grammar} {unwound : List Symbol}
    {property : List Symbol → Grammar → Prop}
    (unwinds : ∀ unwound current, property unwound current →
      ∃ again, original.IsUnwinding unwound again current)
    (step : ∀ unwound current symbol, property unwound current →
      symbol ∈ original.tabledNonterminals → symbol ∉ unwound →
      original.isImmediatelyLeftRecursive symbol →
      property (unwound ++ [symbol]) (current.unwind symbol).1)
    (holds : property unwound current) (symbols created : List Symbol)
    (tabled : ∀ symbol ∈ symbols, symbol ∈ original.tabledNonterminals)
    (pending : ∀ symbol ∈ symbols, symbol ∉ unwound) (nodup : symbols.Nodup) :
    property (unwound ++ symbols.filter original.isImmediatelyLeftRecursive)
      (symbols.foldl (fun (grammar, created) symbol =>
        let (grammar, introduced) := grammar.unwind symbol
        (grammar, created ++ introduced)) (current, created)).1 := by
  induction symbols generalizing current unwound created with
  | nil =>
      rw [List.filter_nil, List.append_nil]
      exact holds
  | cons symbol symbols ih =>
      rw [List.forall_mem_cons] at tabled pending
      rw [List.nodup_cons] at nodup
      rw [List.filter_cons, List.foldl_cons]
      by_cases recursive : original.isImmediatelyLeftRecursive symbol
      · rw [if_pos recursive, List.append_cons]
        refine ih (step unwound current symbol holds tabled.1 pending.1 recursive)
          (created ++ (current.unwind symbol).2) tabled.2 ?_ nodup.2
        intro other other_mem
        rw [List.mem_append, not_or, List.mem_singleton]
        refine ⟨pending.2 other other_mem, ?_⟩
        rintro rfl
        exact nodup.1 other_mem
      · rw [if_neg recursive]
        have holds_now : property unwound (current.unwind symbol).1 := by
          obtain ⟨again, unwinding⟩ := unwinds unwound current holds
          have known := (List.mem_filter.1 tabled.1).1
          rw [Grammar.unwind, isImmediatelyLeftRecursive,
            unwinding.alternatives_pending known pending.1, ← isImmediatelyLeftRecursive,
            if_neg recursive]
          exact holds
        exact ih holds_now (created ++ (current.unwind symbol).2) tabled.2 pending.2 nodup.2

/-- What unwinding one more nonterminal keeps holds after the pass over the table. -/
theorem removeLeftRecursion_induction (wellFormed : grammar.WellFormed)
    (property : List Symbol → Grammar → Prop)
    (unwinds : ∀ unwound current, property unwound current →
      ∃ again, grammar.IsUnwinding unwound again current)
    (step : ∀ unwound current symbol, property unwound current →
      symbol ∈ grammar.tabledNonterminals → symbol ∉ unwound →
      grammar.isImmediatelyLeftRecursive symbol →
      property (unwound ++ [symbol]) (current.unwind symbol).1)
    (refreshed : ∀ unwound current, property unwound current → property unwound current.refresh)
    (start : property [] grammar) :
    property (grammar.tabledNonterminals.filter grammar.isImmediatelyLeftRecursive)
      grammar.removeLeftRecursion.1 :=
  refreshed _ _ (foldl_unwind_induction unwinds step start grammar.tabledNonterminals []
    (fun _ mem => mem) (fun _ _ => List.not_mem_nil) (wellFormed.symbols_nodup.filter _))

/-- The pass over the table unwinds exactly the nonterminals that were left recursive before it. -/
theorem exists_isUnwinding_removeLeftRecursion (wellFormed : grammar.WellFormed) :
    ∃ again, grammar.IsUnwinding
      (grammar.tabledNonterminals.filter grammar.isImmediatelyLeftRecursive) again
        grammar.removeLeftRecursion.1 := by
  refine removeLeftRecursion_induction wellFormed
    (fun unwound current => ∃ again, grammar.IsUnwinding unwound again current)
    (fun _ _ unwinding => unwinding) ?_ ?_ ⟨id, wellFormed.isUnwinding⟩
  · rintro unwound current symbol ⟨again, unwinding⟩ tabled pending recursive
    have ⟨known, nonterminal⟩ := List.mem_filter.1 tabled
    exact ⟨_, unwinding.unwind known nonterminal pending recursive⟩
  · -- Refreshing stores the reachable symbols and leaves table and rules as they are.
    rintro unwound current ⟨again, unwinding⟩
    exact ⟨again, { unwinding with wellFormed := unwinding.wellFormed.of_eq rfl rfl rfl }⟩

theorem start_removeLeftRecursion (grammar : Grammar) :
    grammar.removeLeftRecursion.1.start = grammar.start := by
  have unwound (symbol : Symbol) (grammar : Grammar) :
      (grammar.unwind symbol).1.start = grammar.start := by
    unfold unwind
    split
    · simp only [start_setAlternatives]
      rfl
    · rfl
  have kept (symbols created : List Symbol) (grammar : Grammar) :
      (symbols.foldl (fun (grammar, created) symbol =>
        let (grammar, introduced) := grammar.unwind symbol
        (grammar, created ++ introduced)) (grammar, created)).1.start = grammar.start := by
    induction symbols generalizing grammar created with
    | nil => rfl
    | cons symbol symbols ih =>
        rw [List.foldl_cons, ← unwound symbol grammar]
        exact ih _ _
  exact kept _ _ _

end Grammar

end VisiblyPushdown
