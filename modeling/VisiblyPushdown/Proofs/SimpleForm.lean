import VisiblyPushdown.Proofs.Reachability
import VisiblyPushdown.Proofs.SpanExtraction

/-!
# Simple form and derived words

Bringing a grammar into simple form keeps the words of every symbol. At every stage of the run the
grammar under way is a folding of the original grammar with the spans extracted so far as further
rules. What justifies the folds lasts: the rule of a nonterminal in the queue is still the one
before folding, and the rule of any other nonterminal is the one after it.
-/

namespace VisiblyPushdown

namespace SpanExtraction

variable {original : Grammar} {brackets : List TerminalPair} {extraction : SpanExtraction}
  {queue : List Symbol}

/-- The original grammar with the spans extracted so far as further rules. -/
def source (original : Grammar) (extraction : SpanExtraction) : Grammar :=
  original.unfolded extraction.spans

/--
Whether a nonterminal stands for a span for good: the span is its rule before folding, or its rule
after folding because the nonterminal is not in the queue any more.
-/
def StandsForGood (original : Grammar) (extraction : SpanExtraction) (queue : List Symbol)
    (span : Alternative) (symbol : Symbol) : Prop :=
  (extraction.source original).IsFoldTarget span symbol ∨
    symbol ∉ queue ∧ extraction.grammar.IsFoldTarget span symbol

/-- What holds of an extraction from a grammar and of its queue at every stage of the run. -/
structure InProgress (original : Grammar) (brackets : List TerminalPair)
    (extraction : SpanExtraction) (queue : List Symbol) : Prop where
  sound : extraction.IsSound
  symbols_subset : original.symbols ⊆ extraction.grammar.symbols
  span_new : ∀ entry ∈ extraction.spans, entry.1 ∉ original.symbols
  queue_nodup : queue.Nodup
  queue_mem : ∀ symbol ∈ queue, symbol ∈ extraction.grammar.symbols
  queue_isNonterminal : ∀ symbol ∈ queue, symbol.isNonterminal
  queue_reachable : ∀ symbol ∈ queue, symbol ∈ original.symbols → symbol ∈ original.reachable
  pending : ∀ symbol ∈ queue,
    extraction.grammar.alternatives symbol = (extraction.source original).alternatives symbol
  folds : ∀ symbol, FoldsEach brackets (StandsForGood original extraction queue)
    ((extraction.source original).alternatives symbol) (extraction.grammar.alternatives symbol)
  kept : ∀ symbol ∈ original.symbols, symbol ∉ original.reachable →
    extraction.grammar.alternatives symbol = original.alternatives symbol
  grammar_eq : extraction.grammar =
    { original with symbols := extraction.grammar.symbols, rules := extraction.grammar.rules }

theorem inProgress_start (brackets : List TerminalPair) (wellFormed : original.WellFormed) :
    InProgress original brackets { grammar := original } original.reachable where
  sound := ⟨wellFormed, fun _ entry_mem => absurd entry_mem List.not_mem_nil⟩
  symbols_subset := List.Subset.refl _
  span_new _ entry_mem := absurd entry_mem List.not_mem_nil
  queue_nodup := original.nodup_reachable
  queue_mem _ mem := (wellFormed.reaches_mem (Grammar.mem_reachable.1 mem)).1
  queue_isNonterminal _ mem := (wellFormed.reaches_mem (Grammar.mem_reachable.1 mem)).2
  queue_reachable _ mem _ := mem
  pending _ _ := rfl
  folds _ := .refl _
  kept _ _ _ := rfl
  grammar_eq := rfl

section Step

variable {later : SpanExtraction} {exceptions : List Symbol} {created : List (Symbol × Alternative)}
  {symbol : Symbol}

theorem Grows.source_alternatives_eq (grows : Grows extraction exceptions created later)
    (old : symbol ∉ created.map Prod.fst) :
    (later.source original).alternatives symbol =
      (extraction.source original).alternatives symbol := by
  rw [source, source, Grammar.alternatives_unfolded, Grammar.alternatives_unfolded,
    grows.lookup_eq old]

theorem source_alternatives_of_lookup {span : Alternative}
    (found : extraction.spans.lookup symbol = some span) :
    (extraction.source original).alternatives symbol = [span] := by
  rw [source, Grammar.alternatives_unfolded, found]
  rfl

theorem InProgress.source_alternatives_eq_nil
    (progress : InProgress original brackets extraction queue)
    (wellFormed : original.WellFormed) (unknown : symbol ∉ extraction.grammar.symbols) :
    (extraction.source original).alternatives symbol = [] := by
  have unknown_before : symbol ∉ original.symbols := fun known =>
    unknown (progress.symbols_subset known)
  rw [source, Grammar.alternatives_unfolded, progress.sound.lookup_eq_none unknown,
    Grammar.alternatives, wellFormed.lookup_eq_none unknown_before]
  rfl

/-- What stands for a span goes on to do so when the rule of the next nonterminal is shortened. -/
theorem InProgress.standsForGood_later (wellFormed : original.WellFormed)
    (progress : InProgress original brackets extraction (symbol :: queue))
    (grows : Grows extraction [symbol] created later) {span : Alternative} {target : Symbol}
    (stands : StandsForGood original extraction (symbol :: queue) span target) :
    StandsForGood original later (queue ++ created.map Prod.fst) span target := by
  rcases stands with target_source | ⟨unqueued, target_result⟩
  · obtain ⟨nonterminal, bulk_name, alternatives_eq⟩ := target_source
    have known : target ∈ extraction.grammar.symbols := by
      by_contra unknown
      rw [progress.source_alternatives_eq_nil wellFormed unknown] at alternatives_eq
      cases alternatives_eq
    refine .inl ⟨nonterminal, bulk_name, ?_⟩
    rwa [grows.source_alternatives_eq (grows.not_mem_created known)]
  · obtain ⟨nonterminal, bulk_name, alternatives_eq⟩ := target_result
    have known : target ∈ extraction.grammar.symbols :=
      progress.sound.wellFormed.symbol_mem (by rw [alternatives_eq]; exact List.mem_cons_self)
    rw [List.mem_cons, not_or] at unqueued
    have old := grows.not_mem_created known
    refine .inr ⟨?_, nonterminal, bulk_name, ?_⟩
    · rw [List.mem_append, not_or]
      exact ⟨unqueued.2, old⟩
    · rwa [grows.alternatives_eq target old (mt List.mem_singleton.1 unqueued.1)]

/-- What the rule of the next nonterminal is folded with stands for good afterwards. -/
theorem InProgress.standsForGood_of_chosen
    (progress : InProgress original brackets extraction (symbol :: queue))
    (grows : Grows extraction [symbol] created later) {span : Alternative} {target : Symbol}
    (nonterminal : target.isNonterminal) (bulk_name : bulk target.name = 2 + span.weight)
    (chosen : later.spans.lookup target = some span ∨
      target ≠ symbol ∧ extraction.grammar.alternatives target = [span]) :
    StandsForGood original later (queue ++ created.map Prod.fst) span target := by
  rcases chosen with found | ⟨different, alternatives_eq⟩
  · exact .inl ⟨nonterminal, bulk_name, source_alternatives_of_lookup found⟩
  · have known : target ∈ extraction.grammar.symbols :=
      progress.sound.wellFormed.symbol_mem (by rw [alternatives_eq]; exact List.mem_cons_self)
    have old := grows.not_mem_created known
    by_cases queued : target ∈ queue
    · refine .inl ⟨nonterminal, bulk_name, ?_⟩
      rwa [grows.source_alternatives_eq old,
        ← progress.pending target (List.mem_cons_of_mem symbol queued)]
    · refine .inr ⟨?_, nonterminal, bulk_name, ?_⟩
      · rw [List.mem_append, not_or]
        exact ⟨queued, old⟩
      · rwa [grows.alternatives_eq target old (mt List.mem_singleton.1 different)]

theorem InProgress.grows (wellFormed : original.WellFormed)
    (progress : InProgress original brackets extraction (symbol :: queue))
    (grows : Grows extraction [symbol] created later)
    (folds : FoldsEach brackets
      (StandsForGood original later (queue ++ created.map Prod.fst))
        (extraction.grammar.alternatives symbol) (later.grammar.alternatives symbol)) :
    InProgress original brackets later (queue ++ created.map Prod.fst) := by
  obtain ⟨symbol_unqueued, queue_nodup⟩ := List.nodup_cons.1 progress.queue_nodup
  have queue_mem (other : Symbol) (queued : other ∈ queue) :=
    progress.queue_mem other (List.mem_cons_of_mem symbol queued)
  have queue_alternatives {other : Symbol} (queued : other ∈ queue) :
      later.grammar.alternatives other = extraction.grammar.alternatives other := by
    refine grows.alternatives_eq other (grows.not_mem_created (queue_mem other queued)) ?_
    rw [List.mem_singleton]
    rintro rfl
    exact symbol_unqueued queued
  have created_alternatives {other : Symbol} (new : other ∈ created.map Prod.fst) :
      later.grammar.alternatives other = (later.source original).alternatives other := by
    obtain ⟨entry, entry_mem, rfl⟩ := List.mem_map.1 new
    rw [source_alternatives_of_lookup (grows.lookup_created progress.sound entry_mem)]
    exact (grows.created_target entry entry_mem).alternatives_eq
  exact {
    sound := grows.sound
    symbols_subset := List.Subset.trans progress.symbols_subset grows.symbols_subset
    span_new := by
      rw [grows.spans_eq, List.forall_mem_append]
      exact ⟨progress.span_new, fun entry entry_mem known =>
        grows.created_new entry entry_mem (progress.symbols_subset known)⟩
    queue_nodup := by
      rw [List.nodup_append]
      refine ⟨queue_nodup, grows.created_nodup, ?_⟩
      rintro other queued _ new rfl
      exact grows.not_mem_created (queue_mem other queued) new
    queue_mem := by
      rw [List.forall_mem_append, List.forall_mem_map]
      exact ⟨fun other queued => grows.symbols_subset (queue_mem other queued),
        fun entry entry_mem => grows.created_mem entry_mem⟩
    queue_isNonterminal := by
      rw [List.forall_mem_append, List.forall_mem_map]
      exact ⟨fun other queued =>
          progress.queue_isNonterminal other (List.mem_cons_of_mem symbol queued),
        fun entry entry_mem => (grows.created_target entry entry_mem).isNonterminal⟩
    queue_reachable := by
      rw [List.forall_mem_append]
      refine ⟨fun other queued =>
        progress.queue_reachable other (List.mem_cons_of_mem symbol queued), ?_⟩
      exact fun other new known =>
        absurd new (grows.not_mem_created (progress.symbols_subset known))
    pending := by
      rw [List.forall_mem_append]
      refine ⟨fun other queued => ?_, fun other new => created_alternatives new⟩
      rw [queue_alternatives queued,
        grows.source_alternatives_eq (grows.not_mem_created (queue_mem other queued))]
      exact progress.pending other (List.mem_cons_of_mem symbol queued)
    folds := by
      intro other
      by_cases new : other ∈ created.map Prod.fst
      · rw [created_alternatives new]
        exact .refl _
      · rw [grows.source_alternatives_eq new]
        by_cases same : other = symbol
        -- The rule was pending, so the alternatives that were folded are those before folding.
        · rw [same, ← progress.pending symbol List.mem_cons_self]
          exact folds
        · rw [grows.alternatives_eq other new (mt List.mem_singleton.1 same)]
          exact (progress.folds other).mono fun _ _ => progress.standsForGood_later wellFormed grows
    kept := by
      intro other known unreachable
      have different : other ≠ symbol := by
        rintro rfl
        exact unreachable (progress.queue_reachable other List.mem_cons_self known)
      rw [grows.alternatives_eq other (grows.not_mem_created (progress.symbols_subset known))
        (mt List.mem_singleton.1 different)]
      exact progress.kept other known unreachable
    grammar_eq := by rw [grows.grammar_eq, progress.grammar_eq] }

theorem InProgress.shortenRule (wellFormed : original.WellFormed)
    (progress : InProgress original brackets extraction (symbol :: queue)) :
    InProgress original brackets (extraction.shortenRule brackets symbol)
      (queue ++ ((extraction.shortenRule brackets symbol).spans.drop
        extraction.spans.length).map Prod.fst) := by
  obtain ⟨created, grows, folds⟩ := shortenRule_grows brackets progress.sound
    (progress.queue_mem symbol List.mem_cons_self)
    (progress.queue_isNonterminal symbol List.mem_cons_self)
  rw [grows.spans_eq, List.drop_left]
  exact progress.grows wellFormed grows (folds.mono fun _ _ ⟨nonterminal, bulk_name, chosen⟩ =>
    progress.standsForGood_of_chosen grows nonterminal bulk_name chosen)

end Step

theorem InProgress.shortenAll (wellFormed : original.WellFormed)
    (progress : InProgress original brackets extraction queue) (rules : Nat) :
    ∃ rest, InProgress original brackets (extraction.shortenAll brackets rules queue) rest := by
  induction rules generalizing extraction queue with
  | zero => exact ⟨queue, progress⟩
  | succ rules ih =>
      cases queue with
      | nil => exact ⟨[], progress⟩
      | cons symbol queue => exact ih (progress.shortenRule wellFormed)

namespace InProgress

variable (progress : InProgress original brackets extraction queue)

include progress

theorem isFolding : (extraction.source original).IsFolding brackets extraction.grammar := by
  intro symbol
  refine (progress.folds symbol).mono fun span target stands => ?_
  exact stands.imp_right And.right

theorem language_eq (wellFormed : original.WellFormed) {symbol : Symbol}
    (known : symbol ∈ original.symbols) :
    extraction.grammar.language symbol = original.language symbol := by
  rw [progress.isFolding.language_eq]
  exact Grammar.language_unfolded wellFormed progress.span_new known

end InProgress

end SpanExtraction

namespace Grammar

variable {grammar : Grammar}

theorem language_refresh (grammar : Grammar) : grammar.refresh.language = grammar.language := by
  funext symbol
  refine language_eq_of_closed (fun _ => True) ?_ (fun _ _ _ _ _ _ => trivial) trivial
  exact fun _ _ => rfl

/--
Simple form keeps the words of every symbol of the table, the rules of nonterminals that were not
reachable, and the tagging with its pairs.
-/
theorem language_toSimpleForm (wellFormed : grammar.WellFormed) :
    (∀ symbol ∈ grammar.symbols,
      grammar.toSimpleForm.1.language symbol = grammar.language symbol) ∧
    (∀ symbol ∈ grammar.symbols, ¬grammar.Reaches grammar.start symbol →
      grammar.toSimpleForm.1.alternatives symbol = grammar.alternatives symbol) ∧
    grammar.toSimpleForm.1.calls = grammar.calls ∧
    grammar.toSimpleForm.1.returns = grammar.returns ∧
    grammar.toSimpleForm.1.pairs = grammar.pairs ∧
    grammar.toSimpleForm.1.plain = grammar.plain := by
  rw [toSimpleForm]
  split
  · exact ⟨fun _ _ => rfl, fun _ _ _ => rfl, rfl, rfl, rfl, rfl⟩
  · dsimp only
    obtain ⟨rest, progress⟩ :=
      (SpanExtraction.inProgress_start grammar.brackets wellFormed).shortenAll wellFormed
        (grammar.reachable.length + grammar.callOccurrenceCount)
    generalize SpanExtraction.shortenAll _ _ _ _ = extraction at progress
    have calls_eq := congrArg calls progress.grammar_eq
    have returns_eq := congrArg returns progress.grammar_eq
    have pairs_eq := congrArg pairs progress.grammar_eq
    have plain_eq := congrArg plain progress.grammar_eq
    refine ⟨?_, ?_, calls_eq, returns_eq, pairs_eq, plain_eq⟩
    · intro symbol known
      rw [language_refresh]
      exact progress.language_eq wellFormed known
    · intro symbol known unreachable
      exact progress.kept symbol known fun reachable => unreachable (mem_reachable.1 reachable)

/-- Bracketed pairs of items, with a nonterminal that has the name of the span between brackets. -/
def tuples : Grammar :=
  { start := ⟨"Tuple", .nonterminal⟩
    symbols :=
      [⟨"Tuple", .nonterminal⟩, ⟨"<", .terminal⟩, ⟨"a", .terminal⟩, ⟨"b", .terminal⟩,
        ⟨">", .terminal⟩, ⟨"_L_a_b", .nonterminal⟩]
    rules :=
      [(⟨"Tuple", .nonterminal⟩,
          [[.bare ⟨"<", .terminal⟩, .bare ⟨"a", .terminal⟩, .bare ⟨"b", .terminal⟩,
            .bare ⟨">", .terminal⟩, ⟨⟨"_L_a_b", .nonterminal⟩, .optional⟩]]),
        (⟨"_L_a_b", .nonterminal⟩, [[.bare ⟨"b", .terminal⟩, .bare ⟨"Tuple", .nonterminal⟩]])]
    pairs := [(⟨"<", .terminal⟩, ⟨">", .terminal⟩)]
    calls := [⟨"<", .terminal⟩]
    returns := [⟨">", .terminal⟩] }

theorem language_toSimpleForm_tuples :
    tuples.WellFormed ∧ tuples.toSimpleForm.2 = [⟨"_L_a_b'", .nonterminal⟩] ∧
      tuples.toSimpleForm.1.language tuples.start = tuples.language tuples.start := by
  have wellFormed : tuples.WellFormed := by decide
  have created : tuples.toSimpleForm.2 = [⟨"_L_a_b'", .nonterminal⟩] := by decide
  exact ⟨wellFormed, created, (language_toSimpleForm wellFormed).1 _ wellFormed.start_mem⟩

end Grammar

end VisiblyPushdown
