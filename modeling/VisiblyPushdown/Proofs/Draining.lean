import VisiblyPushdown.Proofs.Interiors

/-!
# The queue of simple form

Bringing a grammar into simple form takes nonterminals from a queue and puts those created on the
way behind the others, with no bound on how long this goes on. The queue runs empty all the same.
Each visit moves occurrences of calls into rules of new nonterminals but adds none, and it takes one
away for good for every nonterminal that it creates. So there are not more of them than occurrences
of calls to begin with. And as a new nonterminal is not in the table before, no rule is visited
again.
-/

namespace VisiblyPushdown

namespace SpanExtraction

/-- The nonterminals that were created since an earlier state. -/
def createdSince (earlier later : SpanExtraction) : List Symbol :=
  (later.spans.drop earlier.spans.length).map Prod.fst

/--
Whether shortening the rules of a queue one after the other, those of new nonterminals last, comes
to an end. The visits say what is done to each rule.
-/
inductive Drains (brackets : List TerminalPair) :
    (extraction : SpanExtraction) → (queue : List Symbol) → (visits : List Visit) →
    (final : SpanExtraction) → Prop
  | done (extraction : SpanExtraction) : Drains brackets extraction [] [] extraction
  | visit {extraction final : SpanExtraction} {symbol : Symbol} {queue : List Symbol}
      {visits : List Visit} :
      Drains brackets (extraction.shortenRule brackets symbol)
        (queue ++ createdSince extraction (extraction.shortenRule brackets symbol)) visits final →
      Drains brackets extraction (symbol :: queue) (extraction.visit brackets symbol :: visits)
        final

variable {brackets : List TerminalPair} {original : Grammar} {extraction final : SpanExtraction}
  {symbol : Symbol} {queue : List Symbol} {visits : List Visit}

/-- Shortening the first rule of a queue puts new nonterminals behind the others. -/
theorem InProgress.exists_created (wellFormed : original.WellFormed)
    (progress : InProgress original brackets extraction (symbol :: queue)) :
    ∃ created, Grows extraction [symbol] created (extraction.shortenRule brackets symbol) ∧
      createdSince extraction (extraction.shortenRule brackets symbol) = created.map Prod.fst ∧
      InProgress original brackets (extraction.shortenRule brackets symbol)
        (queue ++ created.map Prod.fst) := by
  rcases shortenRule_grows brackets progress.sound
    (progress.queue_mem symbol List.mem_cons_self)
    (progress.queue_isNonterminal symbol List.mem_cons_self) with ⟨created, grows, _⟩
  have next := progress.shortenRule wellFormed
  rw [grows.spans_eq, List.drop_left] at next
  refine ⟨created, grows, ?_, next⟩
  rw [createdSince, grows.spans_eq, List.drop_left]

/-- With one step for each piece of work the run ends because its queue is empty. -/
theorem InProgress.drains (wellFormed : original.WellFormed)
    (progress : InProgress original brackets extraction queue) {rules : Nat}
    (enough : queueWork brackets extraction queue ≤ rules) :
    Drains brackets extraction queue (extraction.trace brackets rules queue)
      (extraction.shortenAll brackets rules queue) := by
  induction rules generalizing extraction queue with
  | zero =>
      cases queue with
      | nil => exact .done extraction
      | cons symbol queue => simp [queueWork, work] at enough
  | succ rules ih =>
      cases queue with
      | nil => exact .done extraction
      | cons symbol queue =>
          rcases progress.exists_created wellFormed with ⟨created, grows, created_eq, next⟩
          have less := progress.queueWork_shortenRule grows
          rw [← created_eq] at next less
          exact .visit (ih next (by omega))

namespace Drains

/-- Each visit does at least one piece of the work. -/
theorem length_le (drains : Drains brackets extraction queue visits final)
    (wellFormed : original.WellFormed) (progress : InProgress original brackets extraction queue) :
    visits.length ≤ queueWork brackets extraction queue := by
  induction drains with
  | done extraction => exact Nat.zero_le _
  | visit _ ih =>
      rcases progress.exists_created wellFormed with ⟨created, grows, created_eq, next⟩
      have less := progress.queueWork_shortenRule grows
      rw [created_eq] at ih
      have rest := ih next
      rw [List.length_cons]
      omega

/-- What is visited is what was in the queue and what is created, everything once. -/
theorem exists_created (drains : Drains brackets extraction queue visits final)
    (wellFormed : original.WellFormed) (progress : InProgress original brackets extraction queue) :
    ∃ created, final.spans = extraction.spans ++ created ∧
      visits.map Visit.symbol = queue ++ created.map Prod.fst ∧
      (visits.map Visit.symbol).Nodup ∧
      ∀ entry ∈ created, entry.1 ∉ extraction.grammar.symbols := by
  induction drains with
  | done extraction => exact ⟨[], by simp⟩
  | @visit extraction final symbol queue visits _ ih =>
      rcases progress.exists_created wellFormed with ⟨created, grows, created_eq, next⟩
      rw [created_eq] at ih
      rcases ih next with ⟨further, spans_eq, symbols_eq, nodup, further_new⟩
      refine ⟨created ++ further, ?_, ?_, ?_, ?_⟩
      · rw [spans_eq, grows.spans_eq, List.append_assoc]
      · simp [SpanExtraction.visit, symbols_eq]
      · -- A nonterminal that is taken from the queue is in the table, so nothing new is like it.
        have known := progress.queue_mem symbol List.mem_cons_self
        rw [List.map_cons, List.nodup_cons]
        refine ⟨?_, nodup⟩
        rw [symbols_eq, List.mem_append, List.mem_append, not_or, not_or]
        refine ⟨⟨(List.nodup_cons.1 progress.queue_nodup).1, grows.not_mem_created known⟩, ?_⟩
        rw [List.mem_map]
        rintro ⟨entry, entry_mem, entry_eq⟩
        refine further_new entry entry_mem (grows.symbols_subset ?_)
        rwa [entry_eq]
      · intro entry entry_mem
        rcases List.mem_append.1 entry_mem with entry_mem | entry_mem
        · exact grows.created_new entry entry_mem
        · exact fun known => further_new entry entry_mem (grows.symbols_subset known)

end Drains

/-- Whether a name for a span belongs to a nonterminal that does not stand for the span. -/
def isTaken (extraction : SpanExtraction) (span : Alternative) (name : String) : Bool :=
  (⟨name, .nonterminal⟩ : Symbol) ∈ extraction.grammar.symbols &&
    !extraction.standsFor span ⟨name, .nonterminal⟩

theorem extract_eq (extraction : SpanExtraction) (span : Alternative) :
    extraction.extract span =
      let symbol : Symbol := ⟨firstFree (extraction.isTaken span)
        extraction.grammar.symbols.length span.spanName, .nonterminal⟩
      (symbol, if symbol ∈ extraction.grammar.symbols then extraction
        else extraction.create symbol span) := by
  unfold extract
  dsimp only
  split
  · next known => exact (congrArg _ (if_pos known)).symm
  · next new => exact (congrArg _ (if_neg new)).symm

/-- Naming a span takes at most one try more than there are nonterminals in the table. -/
theorem tries_extract (extraction : SpanExtraction) (span : Alternative) :
    ∃ tries ≤ extraction.grammar.tabledNonterminals.length + 1,
      Tries (extraction.isTaken span) span.spanName tries (extraction.extract span).1.name := by
  have name_eq : (extraction.extract span).1.name = firstFree (extraction.isTaken span)
      extraction.grammar.symbols.length span.spanName := by
    rw [extract_eq]
  have covered (other : String) (taken : extraction.isTaken span other) :
      other ∈ extraction.grammar.tabledNonterminals.map Symbol.name := by
    have mem := of_decide_eq_true (Bool.and_eq_true_iff.1 taken).1
    exact List.mem_map.2 ⟨_, List.mem_filter.2 ⟨mem, rfl⟩, rfl⟩
  have enough : (extraction.grammar.tabledNonterminals.map Symbol.name).length ≤
      extraction.grammar.symbols.length := by
    rw [List.length_map]
    exact List.length_filter_le _ _
  rcases tries_firstFree (extraction.isTaken span) _ span.spanName _
    (fun other taken _ => covered other taken) enough with ⟨tries, le, ends⟩
  rw [List.length_map] at le
  exact ⟨tries, le, name_eq ▸ ends⟩

end SpanExtraction

namespace Grammar

open SpanExtraction

variable {grammar : Grammar}

theorem visits_of_calls_eq_nil (no_calls : grammar.calls = []) :
    grammar.visits = [] ∧ grammar.toSimpleForm = (grammar, []) := by
  have is_empty : grammar.calls.isEmpty := by simpa using no_calls
  rw [visits, toSimpleForm, if_pos is_empty, if_pos is_empty]
  exact ⟨rfl, rfl⟩

/-- With calls, the queue of reachable nonterminals runs empty. -/
theorem drains_visits (wellFormed : grammar.WellFormed) (calls : grammar.calls ≠ []) :
    Drains grammar.brackets { grammar } grammar.reachable grammar.visits
        (grammar.visits.foldl replay { grammar }) ∧
      grammar.toSimpleForm = ((grammar.visits.foldl replay { grammar }).grammar.refresh,
        (grammar.visits.foldl replay { grammar }).spans.map Prod.fst) := by
  have some_calls : ¬ grammar.calls.isEmpty := by simpa using calls
  have drained := (inProgress_start grammar.brackets wellFormed).drains wellFormed
    grammar.queueWork_reachable_le
  rw [visits, if_neg some_calls, foldl_replay_trace, toSimpleForm, if_neg some_calls]
  exact ⟨drained, rfl⟩

/-- The rules that are visited are those of reachable and of created nonterminals, each once. -/
theorem symbols_visits (wellFormed : grammar.WellFormed) (calls : grammar.calls ≠ []) :
    grammar.visits.map Visit.symbol = grammar.reachable ++ grammar.toSimpleForm.2 ∧
      (grammar.visits.map Visit.symbol).Nodup := by
  rcases drains_visits wellFormed calls with ⟨drains, result_eq⟩
  rcases drains.exists_created wellFormed (inProgress_start grammar.brackets wellFormed) with
    ⟨created, spans_eq, symbols_eq, nodup, _⟩
  rw [List.nil_append] at spans_eq
  exact ⟨by rw [symbols_eq, result_eq, spans_eq], nodup⟩

theorem length_created_le (wellFormed : grammar.WellFormed) (calls : grammar.calls ≠ []) :
    grammar.toSimpleForm.2.length ≤ grammar.callOccurrenceCount := by
  have visited := congrArg List.length (symbols_visits wellFormed calls).1
  have bounded := (drains_visits wellFormed calls).1.length_le wellFormed
    (inProgress_start grammar.brackets wellFormed)
  have work_le := grammar.queueWork_reachable_le
  rw [List.length_map, List.length_append] at visited
  omega

/--
Bringing a grammar into simple form comes to an end: the queue of nonterminals runs empty, and each
is visited once. What is moved is shorter than the alternative that it stands in, as its brackets
stay behind. No more nonterminals are created than there are occurrences of calls in reachable
alternatives, and for each name at most one try is made more than there are nonterminals.
-/
theorem toSimpleForm_drains (wellFormed : grammar.WellFormed) :
    (grammar.calls = [] → grammar.visits = [] ∧ grammar.toSimpleForm = (grammar, [])) ∧
    (grammar.calls ≠ [] →
      let final := grammar.visits.foldl replay { grammar }
      Drains grammar.brackets { grammar } grammar.reachable grammar.visits final ∧
        grammar.toSimpleForm = (final.grammar.refresh, final.spans.map Prod.fst) ∧
        grammar.visits.map Visit.symbol = grammar.reachable ++ grammar.toSimpleForm.2) ∧
    (grammar.visits.map Visit.symbol).Nodup ∧
    (∀ earlier visit later, grammar.visits = earlier ++ visit :: later → ∀ move ∈ visit.moves,
      move.alternative ∈ (earlier.foldl replay { grammar }).grammar.alternatives visit.symbol ∧
        move.span.length < move.alternative.length ∧
        ∃ closing after, move.behind = move.span ++ closing :: after) ∧
    grammar.toSimpleForm.2.length ≤ grammar.callOccurrenceCount ∧
    ∀ (extraction : SpanExtraction) (span : Alternative),
      ∃ tries ≤ extraction.grammar.tabledNonterminals.length + 1,
        Tries (extraction.isTaken span) span.spanName tries (extraction.extract span).1.name := by
  refine ⟨visits_of_calls_eq_nil, fun calls => ?_, ?_, fun earlier visit later split move mem => ?_,
    ?_, tries_extract⟩
  · rcases drains_visits wellFormed calls with ⟨drains, result_eq⟩
    exact ⟨drains, result_eq, (symbols_visits wellFormed calls).1⟩
  · by_cases calls : grammar.calls = []
    · rw [(visits_of_calls_eq_nil calls).1]
      exact List.nodup_nil
    · exact (symbols_visits wellFormed calls).2
  · rcases brackets_of_mem_moves split mem with ⟨alternative_mem, closing, after, behind_eq, _⟩
    refine ⟨alternative_mem, ?_, closing, after, behind_eq⟩
    have behind := congrArg List.length behind_eq
    rw [Move.alternative]
    simp only [List.length_append, List.length_cons] at behind ⊢
    omega
  · by_cases calls : grammar.calls = []
    · rw [(visits_of_calls_eq_nil calls).2]
      exact Nat.zero_le _
    · exact length_created_le wellFormed calls

/-- A bracket with a bracket inside, and a nonterminal that has the name of the inner span. -/
def nestedSpans : Grammar :=
  { start := ⟨"s", .nonterminal⟩
    symbols :=
      [⟨"s", .nonterminal⟩, ⟨"x", .nonterminal⟩, ⟨"A", .terminal⟩, ⟨"B", .terminal⟩,
        ⟨"D", .terminal⟩, ⟨"R", .terminal⟩, ⟨"_L_x_x", .nonterminal⟩]
    rules :=
      [(⟨"s", .nonterminal⟩,
          [[.bare ⟨"A", .terminal⟩, .bare ⟨"B", .terminal⟩, .bare ⟨"x", .nonterminal⟩,
            .bare ⟨"x", .nonterminal⟩, .bare ⟨"D", .terminal⟩, .bare ⟨"R", .terminal⟩]])]
    pairs := [(⟨"A", .terminal⟩, ⟨"R", .terminal⟩), (⟨"B", .terminal⟩, ⟨"D", .terminal⟩)]
    calls := [⟨"A", .terminal⟩, ⟨"B", .terminal⟩]
    returns := [⟨"R", .terminal⟩, ⟨"D", .terminal⟩] }

theorem toSimpleForm_drains_nestedSpans :
    nestedSpans.WellFormed ∧
      nestedSpans.toSimpleForm.2 =
        [⟨"_L_B_x_x_D", .nonterminal⟩, ⟨"_L_x_x'", .nonterminal⟩] ∧
      nestedSpans.callOccurrenceCount = 2 ∧
      nestedSpans.visits.map Visit.symbol =
        nestedSpans.reachable ++ nestedSpans.toSimpleForm.2 ∧
      (nestedSpans.visits.map Visit.symbol).Nodup ∧
      nestedSpans.toSimpleForm.2.length ≤ nestedSpans.callOccurrenceCount := by
  have wellFormed : nestedSpans.WellFormed := by decide
  rcases toSimpleForm_drains wellFormed with ⟨_, drains, nodup, _, bounded, _⟩
  exact ⟨wellFormed, by decide, by decide, (drains (by decide)).2.2, nodup, bounded⟩

end Grammar

end VisiblyPushdown
