import VisiblyPushdown.Proofs.LeftRecursion

/-!
# Marks on leading occurrences

Left recursion is recognised by the symbol of a leading occurrence, and the mark that the occurrence
carries is lost when the recursion is turned round. As an occurrence under any mark may be read
once, no word is gained by that. Words are lost when a mark can be used for more: where `A : A? α`
the words of `α` alone, unless they are words of `A` for another reason.
-/

namespace VisiblyPushdown

/-- Every mark allows a single copy. -/
theorem Occurrence.le_reading (meaning : Symbol → Language Symbol) (symbol : Symbol)
    (mark : Repetition) : meaning symbol ≤ Occurrence.reading meaning ⟨symbol, mark⟩ := by
  cases mark with
  | once => exact le_rfl
  | optional => exact le_add_self
  | star => exact le_kstar
  | plus => exact le_mul_of_one_le_right' one_le_kstar

theorem Alternative.exists_mark_of_startsWith {symbol : Symbol} {alternative : Alternative}
    (starts : alternative.startsWith symbol) :
    ∃ mark rest, alternative = ⟨symbol, mark⟩ :: rest := by
  rcases alternative with _ | ⟨⟨lead, mark⟩, rest⟩
  · simp [startsWith] at starts
  · have same : lead = symbol := by simpa [startsWith] using starts
    exact ⟨mark, rest, by rw [same]⟩

namespace Grammar

variable {grammar : Grammar}
  (based : ∀ symbol, grammar.isImmediatelyLeftRecursive symbol →
    ∃ alternative ∈ grammar.alternatives symbol, ¬alternative.startsWith symbol)

include based

theorem language_grounded_le (symbol : Symbol) :
    grammar.grounded.language symbol ≤ grammar.language symbol := by
  have model := grammar.isModel_language
  apply language_le_of_isModel
  refine ⟨model.terminal_mem, ?_⟩
  intro symbol alternative nonterminal mem
  rcases mem_alternatives_grounded.1 mem with ⟨kept, _⟩ | ⟨recursive, recursive_mem, starts, rfl⟩ |
    ⟨nonempty, grounding, rfl⟩
  · exact model.reading_le nonterminal kept
  · apply le_trans _ (model.reading_le nonterminal recursive_mem)
    rcases Alternative.exists_mark_of_startsWith starts with ⟨mark, rest, rfl⟩
    rw [Alternative.reading_cons, Alternative.reading_cons]
    exact mul_le_mul' (Occurrence.le_reading grammar.language symbol mark) le_rfl
  · rcases List.exists_mem_of_ne_nil _ nonempty with ⟨recursive, recursive_mem⟩
    have found : grammar.isImmediatelyLeftRecursive symbol :=
      List.any_eq_true.2 ⟨recursive, recursive_mem, grounding recursive recursive_mem⟩
    rcases based symbol found with ⟨start, start_mem, starts⟩
    exact absurd (grounding start start_mem) starts

/--
Where every left-recursive nonterminal has an alternative to start from, removing left recursion
adds no words. It keeps all of them exactly when each marked leading occurrence of a nonterminal in
its own alternatives can still be read as its mark says.
-/
theorem removeLeftRecursion_keeps_language_iff (wellFormed : grammar.WellFormed) :
    let rewritten := grammar.removeLeftRecursion.1
    (∀ symbol ∈ grammar.symbols, rewritten.language symbol ≤ grammar.language symbol) ∧
      ((∀ symbol ∈ grammar.symbols, rewritten.language symbol = grammar.language symbol) ↔
        ∀ symbol mark rest, mark ≠ .once →
          (⟨symbol, mark⟩ : Occurrence) :: rest ∈ grammar.alternatives symbol →
            Alternative.reading rewritten.language (⟨symbol, mark⟩ :: rest) ≤
              rewritten.language symbol) := by
  intro rewritten
  rcases exists_isUnwinding wellFormed with ⟨unwound, again, unwinding, complete⟩
  have grounded_model := unwinding.isModel_grounded wellFormed complete
  have smaller (symbol : Symbol) (known : symbol ∈ grammar.symbols) :
      rewritten.language symbol ≤ grammar.language symbol := by
    apply le_trans _ (language_grounded_le based symbol)
    rw [← unwinding.unwoundReading_of_mem known]
    exact language_le_of_isModel (unwinding.isModel_unwoundReading wellFormed complete) symbol
  refine ⟨smaller, ?_, ?_⟩
  · intro same symbol mark rest _ mem
    rw [same symbol (wellFormed.symbol_mem mem), Alternative.reading_congr fun occurrence
      occurrence_mem => same occurrence.symbol (wellFormed.mentioned_mem mem occurrence_mem)]
    exact grammar.isModel_language.reading_le (wellFormed.isNonterminal mem) mem
  · intro marked symbol known
    apply le_antisymm (smaller symbol known)
    apply language_le_of_isModel
    refine ⟨grounded_model.terminal_mem, ?_⟩
    intro symbol alternative nonterminal mem
    by_cases starts : alternative.startsWith symbol
    · rcases Alternative.exists_mark_of_startsWith starts with ⟨mark, rest, rfl⟩
      by_cases once : mark = .once
      · subst once
        apply grounded_model.reading_le nonterminal
        exact mem_alternatives_grounded.2 (.inr (.inl ⟨_, mem, starts, rfl⟩))
      · exact marked symbol mark rest once mem
    · apply grounded_model.reading_le nonterminal
      exact mem_alternatives_grounded.2 (.inl ⟨mem, starts⟩)

omit based

/-- Derives one x or more, and any number of x behind a b. -/
def tallies : Grammar :=
  { start := ⟨"tally", .nonterminal⟩
    symbols := [⟨"tally", .nonterminal⟩, ⟨"x", .terminal⟩, ⟨"b", .terminal⟩]
    rules :=
      [(⟨"tally", .nonterminal⟩,
          [[⟨⟨"tally", .nonterminal⟩, .optional⟩, .bare ⟨"x", .terminal⟩],
            [.bare ⟨"b", .terminal⟩]])] }

theorem tallies_based (symbol : Symbol) (recursive : tallies.isImmediatelyLeftRecursive symbol) :
    ∃ alternative ∈ tallies.alternatives symbol, ¬alternative.startsWith symbol := by
  rcases List.any_eq_true.1 recursive with ⟨alternative, mem, _⟩
  rcases exists_rule_of_mem_alternatives mem with ⟨rule, rule_mem, rfl, _⟩
  have based : ∀ rule ∈ tallies.rules,
      ∃ alternative ∈ tallies.alternatives rule.1, ¬alternative.startsWith rule.1 := by decide
  exact based rule rule_mem

theorem tallies_language_smaller :
    tallies.WellFormed ∧
      tallies.removeLeftRecursion.1.language tallies.start ≤ tallies.language tallies.start := by
  have wellFormed : tallies.WellFormed := by decide
  rcases removeLeftRecursion_keeps_language_iff tallies_based wellFormed with ⟨smaller, _⟩
  exact ⟨wellFormed, smaller tallies.start wellFormed.start_mem⟩

theorem tallies_language_changes :
    (∀ symbol, tallies.isImmediatelyLeftRecursive symbol →
      ∃ alternative ∈ tallies.alternatives symbol, ¬alternative.startsWith symbol) ∧
    tallies.removeLeftRecursion.1.language tallies.start ≠ tallies.language tallies.start := by
  refine ⟨tallies_based, fun same => ?_⟩
  have derived : [⟨"x", .terminal⟩] ∈ tallies.language tallies.start := by
    have mem : [⟨⟨"tally", .nonterminal⟩, .optional⟩, .bare ⟨"x", .terminal⟩] ∈
        tallies.alternatives tallies.start := by
      decide
    exact .expand rfl mem (.skipOptional (.read rfl .nil))
  rw [← same, mem_language_of_isNonterminal (by decide)] at derived
  have alternatives_eq : tallies.removeLeftRecursion.1.alternatives tallies.start =
      [[.bare ⟨"b", .terminal⟩, .bare ⟨"tally'", .nonterminal⟩]] := by
    decide
  rcases derived with ⟨alternative, mem, read⟩
  rw [alternatives_eq, List.mem_singleton] at mem
  rw [mem, Alternative.reading_cons, Alternative.reading_bare,
    language_of_isTerminal (by decide)] at read
  rcases Language.mem_mul.1 read with ⟨before, rfl, after, _, word_eq⟩
  exact absurd (List.cons.inj word_eq).1 (by decide)

end Grammar

end VisiblyPushdown
