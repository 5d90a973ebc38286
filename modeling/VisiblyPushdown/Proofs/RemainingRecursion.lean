import VisiblyPushdown.Proofs.LeftRecursion
import VisiblyPushdown.Proofs.TerminalOccurrences

/-!
# Left recursion that remains

A nonterminal that was turned to recurse on the right never starts one of its own alternatives
again. The nonterminal introduced for it does so in one case: where an alternative was nothing but
an occurrence of the old nonterminal, nothing is left in front of the new one. So the pass removes
left recursion for good exactly when no nonterminal has itself alone for an alternative.
-/

namespace VisiblyPushdown

namespace Alternative

variable {symbol : Symbol} {alternative body : Alternative}

theorem startsWith_append_bare {again : Symbol} (unlike : ∀ first ∈ body, first.symbol ≠ again) :
    startsWith again (body ++ [.bare again]) ↔ body = [] := by
  cases body with
  | nil => simp [startsWith, Occurrence.bare]
  | cons first rest => simpa [startsWith] using unlike first

theorem not_startsWith_append_bare {again : Symbol} (different : again ≠ symbol)
    (other_start : ¬startsWith symbol body) : ¬startsWith symbol (body ++ [.bare again]) := by
  cases body with
  | nil => simpa [startsWith, Occurrence.bare] using different
  | cons first rest => simpa [startsWith] using other_start

end Alternative

namespace Grammar

/-- Whether some alternative of a symbol is an occurrence of the symbol and nothing else. -/
def RepeatsItself (grammar : Grammar) (symbol : Symbol) : Prop :=
  ∃ mark, [⟨symbol, mark⟩] ∈ grammar.alternatives symbol

variable {grammar : Grammar} {symbol : Symbol}

theorem isImmediatelyLeftRecursive_iff :
    grammar.isImmediatelyLeftRecursive symbol ↔
      ∃ alternative ∈ grammar.alternatives symbol, alternative.startsWith symbol :=
  List.any_eq_true

theorem repeatsItself_iff :
    grammar.RepeatsItself symbol ↔
      ∃ recursive ∈ grammar.alternatives symbol, recursive.startsWith symbol ∧
        recursive.tail = [] := by
  constructor
  · rintro ⟨mark, mem⟩
    exact ⟨_, mem, by simp [Alternative.startsWith], rfl⟩
  · rintro ⟨recursive, mem, starts, alone⟩
    rcases recursive with _ | ⟨⟨lead, mark⟩, rest⟩
    · simp [Alternative.startsWith] at starts
    · simp only [Alternative.startsWith, decide_eq_true_eq, List.tail_cons] at starts alone
      subst starts alone
      exact ⟨mark, mem⟩

theorem RepeatsItself.isImmediatelyLeftRecursive (repeats : grammar.RepeatsItself symbol) :
    grammar.isImmediatelyLeftRecursive symbol := by
  rcases repeatsItself_iff.1 repeats with ⟨recursive, mem, starts, _⟩
  exact isImmediatelyLeftRecursive_iff.2 ⟨recursive, mem, starts⟩

namespace IsUnwinding

variable {original current : Grammar} {unwound : List Symbol} {again : Symbol → Symbol}
  (unwinding : original.IsUnwinding unwound again current) (wellFormed : original.WellFormed)
  (complete : ∀ symbol, symbol ∈ unwound ↔ original.isImmediatelyLeftRecursive symbol)

include unwinding

include complete in
theorem not_isImmediatelyLeftRecursive (known : symbol ∈ original.symbols) :
    ¬current.isImmediatelyLeftRecursive symbol := by
  rw [isImmediatelyLeftRecursive_iff]
  rintro ⟨alternative, mem, starts⟩
  by_cases unwound_mem : symbol ∈ unwound
  · have different : again symbol ≠ symbol := by
      intro same
      apply unwinding.again_new symbol unwound_mem
      rwa [same]
    rw [unwinding.alternatives_unwound symbol unwound_mem, mem_heads] at mem
    rcases mem with ⟨based, _, other_start, rfl⟩ | ⟨_, rfl⟩
    · exact Alternative.not_startsWith_append_bare different other_start starts
    · simp [Alternative.startsWith, Occurrence.bare, different] at starts
  · rw [unwinding.alternatives_pending known unwound_mem] at mem
    apply unwound_mem
    rw [complete, isImmediatelyLeftRecursive_iff]
    exact ⟨alternative, mem, starts⟩

include wellFormed

/-- Only what stood behind a leading occurrence keeps the new nonterminal from its own start. -/
theorem isImmediatelyLeftRecursive_again (unwound_mem : symbol ∈ unwound) :
    current.isImmediatelyLeftRecursive (again symbol) ↔ original.RepeatsItself symbol := by
  have tail_start {recursive : Alternative} (mem : recursive ∈ original.alternatives symbol) :
      Alternative.startsWith (again symbol) (recursive.tail ++ [.bare (again symbol)]) ↔
        recursive.tail = [] := by
    apply Alternative.startsWith_append_bare
    intro first first_mem same
    apply unwinding.again_new symbol unwound_mem
    rw [← same]
    exact wellFormed.mentioned_mem mem (List.mem_of_mem_tail first_mem)
  rw [isImmediatelyLeftRecursive_iff, repeatsItself_iff,
    unwinding.alternatives_again symbol unwound_mem]
  constructor
  · rintro ⟨alternative, mem, starts⟩
    rcases mem_continuations.1 mem with ⟨recursive, recursive_mem, lead, rfl⟩ | rfl
    · exact ⟨recursive, recursive_mem, lead, (tail_start recursive_mem).1 starts⟩
    · simp [Alternative.startsWith] at starts
  · rintro ⟨recursive, mem, lead, alone⟩
    refine ⟨_, mem_continuations.2 (.inl ⟨recursive, mem, lead, rfl⟩), ?_⟩
    exact (tail_start mem).2 alone

include complete

/-- The nonterminals that are left recursive after the pass. -/
theorem isImmediatelyLeftRecursive_iff :
    current.isImmediatelyLeftRecursive symbol ↔
      ∃ old, original.RepeatsItself old ∧ symbol = again old := by
  constructor
  · intro recursive
    have new : symbol ∉ original.symbols := fun known =>
      unwinding.not_isImmediatelyLeftRecursive complete known recursive
    by_cases introduced : ∃ old ∈ unwound, symbol = again old
    · rcases introduced with ⟨old, old_mem, rfl⟩
      exact ⟨old, (unwinding.isImmediatelyLeftRecursive_again wellFormed old_mem).1 recursive, rfl⟩
    · -- A symbol that is neither old nor introduced has no rule.
      rcases Grammar.isImmediatelyLeftRecursive_iff.1 recursive with ⟨alternative, mem, _⟩
      have untouched : symbol ∉ unwound := fun mem => new (unwinding.unwound_mem symbol mem)
      rw [unwinding.alternatives_other symbol untouched fun old old_mem same =>
        introduced ⟨old, old_mem, same⟩] at mem
      exact absurd (wellFormed.symbol_mem mem) new
  · rintro ⟨old, repeats, rfl⟩
    have old_mem := (complete old).2 repeats.isImmediatelyLeftRecursive
    exact (unwinding.isImmediatelyLeftRecursive_again wellFormed old_mem).2 repeats

theorem isLeftRecursive_iff (start_eq : current.start = original.start) :
    current.isLeftRecursive ↔
      ∃ symbol, original.Reaches original.start symbol ∧ original.RepeatsItself symbol := by
  simp only [isLeftRecursive, List.any_eq_true, mem_reachable]
  constructor
  · rintro ⟨symbol, reached, recursive⟩
    rcases (unwinding.isImmediatelyLeftRecursive_iff wellFormed complete).1 recursive with
      ⟨old, repeats, rfl⟩
    have old_mem := (complete old).2 repeats.isImmediatelyLeftRecursive
    rcases unwinding.exists_reaches_original wellFormed start_eq reached with
      ⟨head, head_reached, same | ⟨head_mem, same⟩⟩
    · have known := (wellFormed.reaches_mem head_reached).1
      rw [← same] at known
      exact absurd known (unwinding.again_new old old_mem)
    · have old_eq := unwinding.again_injective old old_mem head head_mem same
      rw [← old_eq] at head_reached
      exact ⟨old, head_reached, repeats⟩
  · rintro ⟨old, reached, repeats⟩
    have old_mem := (complete old).2 repeats.isImmediatelyLeftRecursive
    refine ⟨again old, ?_, ?_⟩
    · rw [start_eq]
      exact (unwinding.reaches_current wellFormed reached).trans (unwinding.reaches_again old_mem)
    · exact (unwinding.isImmediatelyLeftRecursive_iff wellFormed complete).2 ⟨old, repeats, rfl⟩

end IsUnwinding

/-- Going through symbols introduces a nonterminal as soon as one of them is left recursive. -/
theorem foldl_unwind_eq_iff (symbols created : List Symbol) (grammar : Grammar) :
    (symbols.foldl (fun (grammar, created) symbol =>
      let (grammar, introduced) := grammar.unwind symbol
      (grammar, created ++ introduced)) (grammar, created)).2 = created ↔
      ∀ symbol ∈ symbols, ¬grammar.isImmediatelyLeftRecursive symbol := by
  have longer (symbols created : List Symbol) (grammar : Grammar) :
      created.length ≤ (symbols.foldl (fun (grammar, created) symbol =>
        let (grammar, introduced) := grammar.unwind symbol
        (grammar, created ++ introduced)) (grammar, created)).2.length := by
    induction symbols generalizing grammar created with
    | nil => simp
    | cons symbol symbols ih =>
        apply le_trans _ (ih _ _)
        simp
  induction symbols generalizing grammar with
  | nil => simp
  | cons symbol symbols ih =>
      rw [List.foldl_cons, List.forall_mem_cons]
      by_cases recursive : grammar.isImmediatelyLeftRecursive symbol
      · have more := longer symbols (created ++ [grammar.freshNonterminal symbol.name])
          (grammar.unwind symbol).1
        simp only [unwind_of_recursive recursive] at more ⊢
        constructor
        · intro same
          rw [same] at more
          simp at more
        · rintro ⟨other, _⟩
          exact absurd recursive other
      · have unchanged : grammar.unwind symbol = (grammar, []) := by rw [unwind, if_neg recursive]
        simp only [unchanged, List.append_nil, ih, recursive]
        simp

theorem WellFormed.created_eq_nil_iff (wellFormed : grammar.WellFormed) :
    grammar.removeLeftRecursion.2 = [] ↔
      ∀ symbol, ¬grammar.isImmediatelyLeftRecursive symbol := by
  apply (foldl_unwind_eq_iff grammar.tabledNonterminals [] grammar).trans
  constructor
  · intro tabled symbol recursive
    apply tabled symbol _ recursive
    exact mem_tabledNonterminals_of_isImmediatelyLeftRecursive wellFormed recursive
  · exact fun removed symbol _ => removed symbol

/--
After left recursion was removed, no nonterminal of before is left recursive. The new ones are not
either, and a further pass introduces nothing, exactly when no nonterminal had itself alone for an
alternative; the start symbol reaches no left recursion exactly when it reached no such nonterminal.
-/
theorem removeLeftRecursion_removes_iff (wellFormed : grammar.WellFormed) :
    let rewritten := grammar.removeLeftRecursion.1
    (∀ symbol ∈ grammar.symbols, ¬rewritten.isImmediatelyLeftRecursive symbol) ∧
      ((∀ symbol, ¬rewritten.isImmediatelyLeftRecursive symbol) ↔
        ∀ symbol, ¬grammar.RepeatsItself symbol) ∧
      (rewritten.isLeftRecursive = false ↔
        ∀ symbol, grammar.Reaches grammar.start symbol → ¬grammar.RepeatsItself symbol) ∧
      (rewritten.removeLeftRecursion.2 = [] ↔ ∀ symbol, ¬grammar.RepeatsItself symbol) := by
  intro rewritten
  rcases exists_isUnwinding wellFormed with ⟨unwound, again, unwinding, complete⟩
  have remaining : (∀ symbol, ¬rewritten.isImmediatelyLeftRecursive symbol) ↔
      ∀ symbol, ¬grammar.RepeatsItself symbol := by
    simp only [rewritten, unwinding.isImmediatelyLeftRecursive_iff wellFormed complete]
    constructor
    · exact fun removed symbol repeats => removed (again symbol) ⟨symbol, repeats, rfl⟩
    · rintro alone symbol ⟨old, repeats, _⟩
      exact alone old repeats
  refine ⟨?_, remaining, ?_, ?_⟩
  · exact fun symbol known => unwinding.not_isImmediatelyLeftRecursive complete known
  · rw [← Bool.not_eq_true, unwinding.isLeftRecursive_iff wellFormed complete
      (start_removeLeftRecursion grammar)]
    simp only [not_exists, not_and]
  · exact (wellFormed.removeLeftRecursion.created_eq_nil_iff).trans remaining

/-- Sums of ones, and a rule out of reach that repeats its own name. -/
def sumsWithEcho : Grammar :=
  { start := ⟨"sum", .nonterminal⟩
    symbols :=
      [⟨"sum", .nonterminal⟩, ⟨"echo", .nonterminal⟩, ⟨"+", .terminal⟩, ⟨"1", .terminal⟩]
    rules :=
      [(⟨"sum", .nonterminal⟩,
          [[.bare ⟨"sum", .nonterminal⟩, .bare ⟨"+", .terminal⟩, .bare ⟨"1", .terminal⟩],
            [.bare ⟨"1", .terminal⟩]]),
        (⟨"echo", .nonterminal⟩,
          [[⟨⟨"echo", .nonterminal⟩, .optional⟩], [.bare ⟨"1", .terminal⟩]])] }

theorem removeLeftRecursion_removes_sumsWithEcho :
    sumsWithEcho.WellFormed ∧ sumsWithEcho.isLeftRecursive ∧
      sumsWithEcho.RepeatsItself ⟨"echo", .nonterminal⟩ ∧
      sumsWithEcho.removeLeftRecursion.1.isLeftRecursive = false ∧
      sumsWithEcho.removeLeftRecursion.1.removeLeftRecursion.2 ≠ [] := by
  have wellFormed : sumsWithEcho.WellFormed := by decide
  have repeats : sumsWithEcho.RepeatsItself ⟨"echo", .nonterminal⟩ := ⟨.optional, by decide⟩
  rcases removeLeftRecursion_removes_iff wellFormed with ⟨_, _, within_reach, again⟩
  refine ⟨wellFormed, by decide, repeats, within_reach.2 ?_, ?_⟩
  · rintro symbol reached ⟨mark, mem⟩
    have start_only : ∀ symbol ∈ sumsWithEcho.reachable, symbol = sumsWithEcho.start := by decide
    obtain rfl := start_only symbol (mem_reachable.2 reached)
    revert mem
    cases mark <;> decide
  · exact fun nothing => again.1 nothing _ repeats

/-- Any number of x behind a b, with an alternative that repeats the nonterminal. -/
def repeated : Grammar :=
  { start := ⟨"s", .nonterminal⟩
    symbols := [⟨"s", .nonterminal⟩, ⟨"x", .terminal⟩]
    rules := [(⟨"s", .nonterminal⟩, [[.bare ⟨"s", .nonterminal⟩], [.bare ⟨"x", .terminal⟩]])] }

/-- The new nonterminal is its own first alternative, and each pass introduces one more. -/
theorem leftRecursion_remains_repeated :
    repeated.WellFormed ∧
      let rewritten := repeated.removeLeftRecursion.1
      rewritten.isImmediatelyLeftRecursive ⟨"s'", .nonterminal⟩ ∧ rewritten.isLeftRecursive ∧
        rewritten.removeLeftRecursion.2 = [⟨"s''", .nonterminal⟩] := by
  decide

end Grammar

end VisiblyPushdown
