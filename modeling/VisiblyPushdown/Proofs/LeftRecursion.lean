import VisiblyPushdown.Proofs.Language
import VisiblyPushdown.Proofs.Unwinding

/-!
# Left recursion and derived words

Making every nonterminal recurse on the right keeps the words of every nonterminal, up to two
things. A leading occurrence of the nonterminal itself is read once, whatever mark it has, and a
nonterminal all of whose alternatives start with itself also derives the empty word. `grounded`
makes these two changes and no other.

The languages are compared as models of the rules. In one direction a new nonterminal is read as the
words that may follow every word of the old one; in the other the words of a new nonterminal are
seen to be closed under one more continuation.
-/

namespace VisiblyPushdown

namespace Alternative

/-- The alternative with a leading occurrence of the symbol freed from its mark. -/
def bareLead (symbol : Symbol) : Alternative → Alternative
  | [] => []
  | first :: rest => if first.symbol = symbol then .bare symbol :: rest else first :: rest

theorem bareLead_of_startsWith {symbol : Symbol} {alternative : Alternative}
    (starts : startsWith symbol alternative) :
    bareLead symbol alternative = .bare symbol :: alternative.tail := by
  cases alternative with
  | nil => simp [startsWith] at starts
  | cons first rest => simp_all [startsWith, bareLead]

theorem bareLead_of_not_startsWith {symbol : Symbol} {alternative : Alternative}
    (starts : ¬startsWith symbol alternative) : bareLead symbol alternative = alternative := by
  cases alternative with
  | nil => rfl
  | cons first rest => simp_all [startsWith, bareLead]

end Alternative

namespace Grammar

/--
The alternatives of a nonterminal with leading occurrences of itself read once, and with the empty
alternative when there is no alternative to start from.
-/
def groundedAlternatives (symbol : Symbol) (alternatives : List Alternative) : List Alternative :=
  alternatives.map (Alternative.bareLead symbol) ++
    if alternatives ≠ [] ∧ alternatives.all (Alternative.startsWith symbol) then [[]] else []

/-- The grammar with the alternatives of every nonterminal grounded. -/
def grounded (grammar : Grammar) : Grammar :=
  { grammar with
    rules := grammar.rules.map fun rule => (rule.1, groundedAlternatives rule.1 rule.2) }

variable {grammar : Grammar} {symbol : Symbol}

theorem alternatives_grounded (grammar : Grammar) (symbol : Symbol) :
    grammar.grounded.alternatives symbol =
      groundedAlternatives symbol (grammar.alternatives symbol) := by
  rw [alternatives, grounded, InsertionOrder.lookup_map_value, alternatives]
  cases grammar.rules.lookup symbol <;> simp [groundedAlternatives]

theorem mem_alternatives_grounded {alternative : Alternative} :
    alternative ∈ grammar.grounded.alternatives symbol ↔
      (alternative ∈ grammar.alternatives symbol ∧ ¬alternative.startsWith symbol) ∨
      (∃ recursive ∈ grammar.alternatives symbol, recursive.startsWith symbol ∧
        alternative = .bare symbol :: recursive.tail) ∨
      (grammar.alternatives symbol ≠ [] ∧
        (∀ other ∈ grammar.alternatives symbol, other.startsWith symbol) ∧ alternative = []) := by
  rw [alternatives_grounded, groundedAlternatives, List.mem_append, ← or_assoc]
  refine or_congr ?_ ?_
  · rw [List.mem_map]
    constructor
    · rintro ⟨original, mem, rfl⟩
      by_cases starts : original.startsWith symbol
      · exact .inr ⟨original, mem, starts, Alternative.bareLead_of_startsWith starts⟩
      · rw [Alternative.bareLead_of_not_startsWith starts]
        exact .inl ⟨mem, starts⟩
    · rintro (⟨mem, starts⟩ | ⟨recursive, mem, starts, rfl⟩)
      · exact ⟨alternative, mem, Alternative.bareLead_of_not_startsWith starts⟩
      · exact ⟨recursive, mem, Alternative.bareLead_of_startsWith starts⟩
  · split
    · next grounding =>
        rw [List.all_eq_true] at grounding
        rw [List.mem_singleton]
        exact ⟨fun empty => ⟨grounding.1, grounding.2, empty⟩, fun grounded => grounded.2.2⟩
    · next based =>
        rw [List.all_eq_true] at based
        simp only [List.not_mem_nil, false_iff]
        exact fun grounding => based ⟨grounding.1, grounding.2.1⟩

/-- Without marks on leading occurrences and with a start for every recursion nothing is changed. -/
theorem language_grounded
    (bare : ∀ symbol repetition rest,
      (⟨symbol, repetition⟩ : Occurrence) :: rest ∈ grammar.alternatives symbol →
        repetition = .once)
    (based : ∀ symbol, grammar.isImmediatelyLeftRecursive symbol →
      ∃ alternative ∈ grammar.alternatives symbol, ¬alternative.startsWith symbol)
    (symbol : Symbol) : grammar.grounded.language symbol = grammar.language symbol := by
  have restored {symbol : Symbol} {recursive : Alternative}
      (mem : recursive ∈ grammar.alternatives symbol) (starts : recursive.startsWith symbol) :
      .bare symbol :: recursive.tail = recursive := by
    rcases recursive with _ | ⟨⟨lead, repetition⟩, rest⟩
    · simp [Alternative.startsWith] at starts
    · obtain rfl : lead = symbol := by simpa [Alternative.startsWith] using starts
      obtain rfl := bare lead repetition rest mem
      rfl
  refine le_antisymm (language_mono ?_ symbol) (language_mono ?_ symbol)
  · intro other alternative grounded_mem
    rcases mem_alternatives_grounded.1 grounded_mem with ⟨mem, _⟩ | ⟨recursive, mem, starts, rfl⟩ |
      ⟨nonempty, grounding, rfl⟩
    · exact mem
    · exact (restored mem starts).symm ▸ mem
    · obtain ⟨recursive, recursive_mem⟩ := List.exists_mem_of_ne_nil _ nonempty
      obtain ⟨start, start_mem, starts⟩ := based other
        (List.any_eq_true.2 ⟨recursive, recursive_mem, grounding recursive recursive_mem⟩)
      exact absurd (grounding start start_mem) starts
  · intro other alternative mem
    by_cases starts : alternative.startsWith other
    · exact mem_alternatives_grounded.2
        (.inr (.inl ⟨alternative, mem, starts, (restored mem starts).symm⟩))
    · exact mem_alternatives_grounded.2 (.inl ⟨mem, starts⟩)

theorem mem_tabledNonterminals_of_isImmediatelyLeftRecursive (wellFormed : grammar.WellFormed)
    (recursive : grammar.isImmediatelyLeftRecursive symbol) :
    symbol ∈ grammar.tabledNonterminals := by
  obtain ⟨alternative, mem, _⟩ := List.any_eq_true.1 recursive
  exact List.mem_filter.2 ⟨wellFormed.symbol_mem mem, wellFormed.isNonterminal mem⟩

/-- Every left-recursive nonterminal is unwound, through a new one of its own. -/
theorem exists_isUnwinding (wellFormed : grammar.WellFormed) :
    ∃ unwound again, grammar.IsUnwinding unwound again grammar.removeLeftRecursion.1 ∧
      ∀ symbol, symbol ∈ unwound ↔ grammar.isImmediatelyLeftRecursive symbol := by
  rcases exists_isUnwinding_removeLeftRecursion wellFormed with ⟨again, unwinding⟩
  refine ⟨_, again, unwinding, fun symbol => ?_⟩
  rw [List.mem_filter]
  constructor
  · exact And.right
  · intro recursive
    exact ⟨mem_tabledNonterminals_of_isImmediatelyLeftRecursive wellFormed recursive, recursive⟩

section Unwound

variable {original current : Grammar} {unwound : List Symbol} {again : Symbol → Symbol}

/-- The words that lead from each word of a symbol to another word of it. -/
def follows (grammar : Grammar) (symbol : Symbol) : Language Symbol :=
  {word | ∀ before ∈ grammar.language symbol, before ++ word ∈ grammar.language symbol}

/-- A new nonterminal is read as the words that follow those of the nonterminal it was made for. -/
def unwoundReading (original : Grammar) (unwound : List Symbol) (again : Symbol → Symbol)
    (symbol : Symbol) : Language Symbol :=
  {word | (symbol ∈ original.symbols → word ∈ original.grounded.language symbol) ∧
    ∀ old ∈ unwound, again old = symbol → word ∈ original.grounded.follows old}

namespace IsUnwinding

theorem unwoundReading_of_mem (unwinding : original.IsUnwinding unwound again current)
    (known : symbol ∈ original.symbols) :
    unwoundReading original unwound again symbol = original.grounded.language symbol := by
  ext word
  constructor
  · exact fun read => read.1 known
  · intro derived
    refine ⟨fun _ => derived, ?_⟩
    rintro old old_mem rfl
    exact absurd known (unwinding.again_new old old_mem)

theorem unwoundReading_again (unwinding : original.IsUnwinding unwound again current)
    (pending : symbol ∈ unwound) :
    unwoundReading original unwound again (again symbol) = original.grounded.follows symbol := by
  ext word
  constructor
  · exact fun read => read.2 symbol pending rfl
  · intro following
    refine ⟨fun known => absurd known (unwinding.again_new symbol pending), ?_⟩
    intro old old_mem same
    obtain rfl := unwinding.again_injective old old_mem symbol pending same
    exact following

theorem reading_unwoundReading (unwinding : original.IsUnwinding unwound again current)
    {alternative : Alternative}
    (mem : ∀ occurrence ∈ alternative, occurrence.symbol ∈ original.symbols) :
    alternative.reading (unwoundReading original unwound again) =
      alternative.reading original.grounded.language :=
  Alternative.reading_congr fun occurrence occurrence_mem =>
    unwinding.unwoundReading_of_mem (mem occurrence occurrence_mem)

variable (unwinding : original.IsUnwinding unwound again current) (wellFormed : original.WellFormed)
  (complete : ∀ symbol, symbol ∈ unwound ↔ original.isImmediatelyLeftRecursive symbol)

include unwinding wellFormed complete

theorem reading_heads_le (pending : symbol ∈ unwound) {alternative : Alternative}
    (mem : alternative ∈ original.heads symbol (again symbol)) :
    alternative.reading (unwoundReading original unwound again) ≤
      original.grounded.language symbol := by
  have model := original.grounded.isModel_language
  obtain ⟨recursive, recursive_mem, _⟩ := List.any_eq_true.1 ((complete symbol).1 pending)
  have nonterminal := wellFormed.isNonterminal recursive_mem
  intro word word_mem
  rcases mem_heads.1 mem with ⟨based, based_mem, starts, rfl⟩ | ⟨grounding, rfl⟩
  · rw [Alternative.reading_append, Alternative.reading_cons, Alternative.reading_nil, mul_one,
      Alternative.reading_bare, unwinding.unwoundReading_again pending,
      unwinding.reading_unwoundReading fun _ => wellFormed.mentioned_mem based_mem] at word_mem
    obtain ⟨before, before_mem, after, after_mem, rfl⟩ := Language.mem_mul.1 word_mem
    have kept := mem_alternatives_grounded.2 (.inl ⟨based_mem, starts⟩)
    exact after_mem before (model.reading_le nonterminal kept before_mem)
  · rw [Alternative.reading_cons, Alternative.reading_nil, mul_one, Alternative.reading_bare,
      unwinding.unwoundReading_again pending] at word_mem
    have empty := mem_alternatives_grounded.2
      (.inr (.inr ⟨List.ne_nil_of_mem recursive_mem, grounding, rfl⟩))
    exact word_mem [] (model.reading_le nonterminal empty Language.nil_mem_one)

omit complete in
theorem reading_continuations_le (pending : symbol ∈ unwound) {alternative : Alternative}
    (mem : alternative ∈ original.continuations symbol (again symbol)) :
    alternative.reading (unwoundReading original unwound again) ≤
      original.grounded.follows symbol := by
  have model := original.grounded.isModel_language
  intro word word_mem before before_mem
  rcases mem_continuations.1 mem with ⟨recursive, recursive_mem, starts, rfl⟩ | rfl
  · have tail_mem (occurrence : Occurrence) (occurrence_mem : occurrence ∈ recursive.tail) :=
      wellFormed.mentioned_mem recursive_mem (List.mem_of_mem_tail occurrence_mem)
    rw [Alternative.reading_append, Alternative.reading_cons, Alternative.reading_nil, mul_one,
      Alternative.reading_bare, unwinding.unwoundReading_again pending,
      unwinding.reading_unwoundReading tail_mem] at word_mem
    obtain ⟨between, between_mem, after, after_mem, rfl⟩ := Language.mem_mul.1 word_mem
    have kept := mem_alternatives_grounded.2 (.inr (.inl ⟨recursive, recursive_mem, starts, rfl⟩))
    have further : before ++ between ∈ original.grounded.language symbol := by
      refine model.reading_le (wellFormed.isNonterminal recursive_mem) kept ?_
      rw [Alternative.reading_cons]
      exact Language.append_mem_mul before_mem between_mem
    rw [← List.append_assoc]
    exact after_mem _ further
  · obtain rfl := (Language.mem_one word).1 word_mem
    rwa [List.append_nil]

theorem isModel_unwoundReading : current.IsModel (unwoundReading original unwound again) := by
  have model := original.grounded.isModel_language
  constructor
  · intro symbol terminal
    refine ⟨fun _ => model.terminal_mem terminal, ?_⟩
    rintro old old_mem rfl
    have nonterminal := unwinding.again_isNonterminal old old_mem
    rw [← Symbol.not_isTerminal, terminal] at nonterminal
    cases nonterminal
  · intro symbol alternative nonterminal mem
    by_cases pending : symbol ∈ unwound
    · rw [unwinding.unwoundReading_of_mem (unwinding.unwound_mem symbol pending)]
      rw [unwinding.alternatives_unwound symbol pending] at mem
      exact unwinding.reading_heads_le wellFormed complete pending mem
    · by_cases new : ∃ old ∈ unwound, symbol = again old
      · obtain ⟨old, old_mem, rfl⟩ := new
        rw [unwinding.unwoundReading_again old_mem]
        rw [unwinding.alternatives_again old old_mem] at mem
        exact unwinding.reading_continuations_le wellFormed old_mem mem
      · rw [unwinding.alternatives_other symbol pending fun old old_mem same =>
          new ⟨old, old_mem, same⟩] at mem
        rw [unwinding.unwoundReading_of_mem (wellFormed.symbol_mem mem),
          unwinding.reading_unwoundReading fun _ => wellFormed.mentioned_mem mem]
        have starts : ¬alternative.startsWith symbol := fun starts =>
          pending ((complete symbol).2 (List.any_eq_true.2 ⟨alternative, mem, starts⟩))
        exact model.reading_le nonterminal (mem_alternatives_grounded.2 (.inl ⟨mem, starts⟩))

omit wellFormed complete in
theorem nil_mem_language_again (pending : symbol ∈ unwound) :
    [] ∈ current.language (again symbol) := by
  have mem : [] ∈ current.alternatives (again symbol) := by
    rw [unwinding.alternatives_again symbol pending]
    exact mem_continuations.2 (.inr rfl)
  exact current.isModel_language.reading_le (unwinding.again_isNonterminal symbol pending) mem
    Language.nil_mem_one

omit wellFormed complete in
theorem append_mem_language_again (pending : symbol ∈ unwound) {recursive : Alternative}
    (recursive_mem : recursive ∈ original.alternatives symbol)
    (starts : recursive.startsWith symbol)
    {word later : List Symbol}
    (word_mem : word ∈ Alternative.reading current.language recursive.tail)
    (later_mem : later ∈ current.language (again symbol)) :
    word ++ later ∈ current.language (again symbol) := by
  have mem : recursive.tail ++ [.bare (again symbol)] ∈ current.alternatives (again symbol) := by
    rw [unwinding.alternatives_again symbol pending]
    exact mem_continuations.2 (.inl ⟨recursive, recursive_mem, starts, rfl⟩)
  refine current.isModel_language.reading_le (unwinding.again_isNonterminal symbol pending) mem ?_
  rw [Alternative.reading_append, Alternative.reading_cons, Alternative.reading_nil, mul_one]
  exact Language.append_mem_mul word_mem later_mem

/-- The words of a symbol that a further word can be put behind if the symbol is the given one. -/
def extensible (grammar : Grammar) (symbol : Symbol) (later : List Symbol) (other : Symbol) :
    Language Symbol :=
  {word | word ∈ grammar.language other ∧
    (other = symbol → word ++ later ∈ grammar.language other)}

omit wellFormed complete in
/-- What comes in front of a word of a new nonterminal may also come behind it. -/
theorem mem_language_again_append (pending : symbol ∈ unwound) {recursive : Alternative}
    (recursive_mem : recursive ∈ original.alternatives symbol)
    (starts : recursive.startsWith symbol)
    {word later : List Symbol} (word_mem : word ∈ current.language (again symbol))
    (later_mem : later ∈ Alternative.reading current.language recursive.tail) :
    word ++ later ∈ current.language (again symbol) := by
  have model := current.isModel_language
  -- Extensible words form a model, so they are all the words there are.
  have narrower : extensible current (again symbol) later ≤ current.language :=
    fun _ _ read => read.1
  have extended : current.IsModel (extensible current (again symbol) later) := by
    constructor
    · intro other terminal
      refine ⟨model.terminal_mem terminal, ?_⟩
      rintro rfl
      have nonterminal := unwinding.again_isNonterminal symbol pending
      rw [← Symbol.not_isTerminal, terminal] at nonterminal
      cases nonterminal
    · intro other alternative nonterminal mem word word_mem
      refine ⟨model.reading_le nonterminal mem
        (Alternative.reading_mono (fun occurrence _ => narrower occurrence.symbol) word_mem), ?_⟩
      rintro rfl
      rw [unwinding.alternatives_again symbol pending] at mem
      rcases mem_continuations.1 mem with ⟨other, other_mem, other_starts, rfl⟩ | rfl
      · rw [Alternative.reading_append, Alternative.reading_cons, Alternative.reading_nil,
          mul_one] at word_mem
        obtain ⟨before, before_mem, after, after_mem, rfl⟩ := Language.mem_mul.1 word_mem
        rw [List.append_assoc]
        exact unwinding.append_mem_language_again pending other_mem other_starts
          (Alternative.reading_mono (fun occurrence _ => narrower occurrence.symbol) before_mem)
          (after_mem.2 rfl)
      · obtain rfl := (Language.mem_one word).1 word_mem
        have ended := unwinding.append_mem_language_again pending recursive_mem starts later_mem
          (unwinding.nil_mem_language_again pending)
        rwa [List.append_nil] at ended
  exact (language_le_of_isModel extended (again symbol) word_mem).2 rfl

omit wellFormed complete in
theorem mem_language_iff_heads (pending : symbol ∈ unwound) (nonterminal : symbol.isNonterminal)
    {word : List Symbol} :
    word ∈ current.language symbol ↔ ∃ head ∈ original.heads symbol (again symbol),
      word ∈ Alternative.reading current.language head := by
  rw [mem_language_of_isNonterminal nonterminal, unwinding.alternatives_unwound symbol pending]

omit wellFormed complete in
/-- A word of an unwound nonterminal may be continued like those of the new one. -/
theorem mem_language_append (pending : symbol ∈ unwound) {recursive : Alternative}
    (recursive_mem : recursive ∈ original.alternatives symbol)
    (starts : recursive.startsWith symbol)
    (nonterminal : symbol.isNonterminal) {word later : List Symbol}
    (word_mem : word ∈ current.language symbol)
    (later_mem : later ∈ Alternative.reading current.language recursive.tail) :
    word ++ later ∈ current.language symbol := by
  rw [unwinding.mem_language_iff_heads pending nonterminal] at word_mem ⊢
  obtain ⟨head, head_mem, word_mem⟩ := word_mem
  refine ⟨head, head_mem, ?_⟩
  have ending : ∃ body, head = body ++ [.bare (again symbol)] := by
    rcases mem_heads.1 head_mem with ⟨based, _, _, rfl⟩ | ⟨_, rfl⟩
    · exact ⟨based, rfl⟩
    · exact ⟨[], rfl⟩
  obtain ⟨body, rfl⟩ := ending
  rw [Alternative.reading_append, Alternative.reading_cons, Alternative.reading_nil, mul_one]
    at word_mem ⊢
  obtain ⟨before, before_mem, after, after_mem, rfl⟩ := Language.mem_mul.1 word_mem
  rw [List.append_assoc]
  exact Language.append_mem_mul before_mem
    (unwinding.mem_language_again_append pending recursive_mem starts after_mem later_mem)

theorem isModel_grounded : original.grounded.IsModel current.language := by
  have model := current.isModel_language
  refine ⟨model.terminal_mem, ?_⟩
  intro symbol alternative nonterminal mem word word_mem
  have unwound_of {recursive : Alternative}
      (recursive_mem : recursive ∈ original.alternatives symbol)
      (starts : recursive.startsWith symbol) : symbol ∈ unwound :=
    (complete symbol).2 (List.any_eq_true.2 ⟨recursive, recursive_mem, starts⟩)
  rcases mem_alternatives_grounded.1 mem with ⟨based_mem, starts⟩ |
    ⟨recursive, recursive_mem, starts, rfl⟩ | ⟨nonempty, grounding, rfl⟩
  · by_cases pending : symbol ∈ unwound
    · refine (unwinding.mem_language_iff_heads pending nonterminal).2
        ⟨_, mem_heads.2 (.inl ⟨alternative, based_mem, starts, rfl⟩), ?_⟩
      rw [Alternative.reading_append, Alternative.reading_cons, Alternative.reading_nil, mul_one,
        ← List.append_nil word]
      exact Language.append_mem_mul word_mem (unwinding.nil_mem_language_again pending)
    · have known := wellFormed.symbol_mem based_mem
      have alternatives_eq := unwinding.alternatives_other symbol pending fun old old_mem same =>
        unwinding.again_new old old_mem (same ▸ known)
      exact model.reading_le nonterminal (alternatives_eq ▸ based_mem) word_mem
  · rw [Alternative.reading_cons, Alternative.reading_bare] at word_mem
    obtain ⟨before, before_mem, after, after_mem, rfl⟩ := Language.mem_mul.1 word_mem
    exact unwinding.mem_language_append (unwound_of recursive_mem starts) recursive_mem starts
      nonterminal before_mem after_mem
  · obtain ⟨recursive, recursive_mem⟩ := List.exists_mem_of_ne_nil _ nonempty
    have pending := unwound_of recursive_mem (grounding recursive recursive_mem)
    refine (unwinding.mem_language_iff_heads pending nonterminal).2
      ⟨_, mem_heads.2 (.inr ⟨grounding, rfl⟩), ?_⟩
    obtain rfl := (Language.mem_one word).1 word_mem
    rw [Alternative.reading_cons, Alternative.reading_nil, mul_one]
    exact unwinding.nil_mem_language_again pending

end IsUnwinding

end Unwound

/--
Removing left recursion grounds the languages of the symbols of the table. It keeps them as they are
when leading occurrences of a nonterminal in its own alternatives carry no mark and when every left
recursive nonterminal has an alternative to start from.
-/
theorem language_removeLeftRecursion (wellFormed : grammar.WellFormed)
    (known : symbol ∈ grammar.symbols) :
    grammar.removeLeftRecursion.1.language symbol = grammar.grounded.language symbol ∧
      ((∀ symbol repetition rest,
          (⟨symbol, repetition⟩ : Occurrence) :: rest ∈ grammar.alternatives symbol →
            repetition = .once) →
        (∀ symbol, grammar.isImmediatelyLeftRecursive symbol →
          ∃ alternative ∈ grammar.alternatives symbol, ¬alternative.startsWith symbol) →
        grammar.removeLeftRecursion.1.language symbol = grammar.language symbol) := by
  obtain ⟨again, unwinding⟩ := exists_isUnwinding_removeLeftRecursion wellFormed
  have complete (symbol : Symbol) :
      symbol ∈ grammar.tabledNonterminals.filter grammar.isImmediatelyLeftRecursive ↔
        grammar.isImmediatelyLeftRecursive symbol := by
    rw [List.mem_filter]
    exact ⟨And.right, fun recursive =>
      ⟨mem_tabledNonterminals_of_isImmediatelyLeftRecursive wellFormed recursive, recursive⟩⟩
  have unwound :
      grammar.removeLeftRecursion.1.language symbol = grammar.grounded.language symbol := by
    refine le_antisymm ?_ (language_le_of_isModel
      (unwinding.isModel_grounded wellFormed complete) symbol)
    rw [← unwinding.unwoundReading_of_mem known]
    exact language_le_of_isModel (unwinding.isModel_unwoundReading wellFormed complete) symbol
  exact ⟨unwound, fun bare based => unwound.trans (language_grounded bare based symbol)⟩

/-- Sums of ones whose summands are already called by the first name with a prime. -/
def sums : Grammar :=
  { start := ⟨"Sum", .nonterminal⟩
    symbols := [⟨"Sum", .nonterminal⟩, ⟨"Sum'", .nonterminal⟩, ⟨"+", .terminal⟩, ⟨"1", .terminal⟩]
    rules :=
      [(⟨"Sum", .nonterminal⟩,
          [[.bare ⟨"Sum", .nonterminal⟩, .bare ⟨"+", .terminal⟩, .bare ⟨"Sum'", .nonterminal⟩],
            [.bare ⟨"Sum'", .nonterminal⟩]]),
        (⟨"Sum'", .nonterminal⟩, [[.bare ⟨"1", .terminal⟩]])] }

theorem language_removeLeftRecursion_sums :
    sums.WellFormed ∧ sums.isImmediatelyLeftRecursive ⟨"Sum", .nonterminal⟩ ∧
      sums.removeLeftRecursion.1.language ⟨"Sum", .nonterminal⟩ =
        sums.grounded.language ⟨"Sum", .nonterminal⟩ ∧
      sums.removeLeftRecursion.1.language ⟨"Sum", .nonterminal⟩ =
        sums.language ⟨"Sum", .nonterminal⟩ := by
  have wellFormed : sums.WellFormed := by decide
  have recursive : sums.isImmediatelyLeftRecursive ⟨"Sum", .nonterminal⟩ := by decide
  have known : (⟨"Sum", .nonterminal⟩ : Symbol) ∈ sums.symbols := by decide
  obtain ⟨grounded, unchanged⟩ := language_removeLeftRecursion wellFormed known
  refine ⟨wellFormed, recursive, grounded, unchanged ?_ ?_⟩
  · intro symbol repetition rest mem
    obtain ⟨rule, rule_mem, rfl, mem⟩ := exists_rule_of_mem_alternatives mem
    have bare : ∀ rule ∈ sums.rules, ∀ alternative ∈ rule.2, ∀ occurrence ∈ alternative,
        occurrence.repetition = .once := by decide
    exact bare rule rule_mem _ mem _ List.mem_cons_self
  · intro symbol recursive
    obtain ⟨alternative, mem, _⟩ := List.any_eq_true.1 recursive
    obtain ⟨rule, rule_mem, rfl, _⟩ := exists_rule_of_mem_alternatives mem
    have based : ∀ rule ∈ sums.rules,
        ∃ alternative ∈ sums.alternatives rule.1, ¬alternative.startsWith rule.1 := by decide
    exact based rule rule_mem

end Grammar

end VisiblyPushdown
