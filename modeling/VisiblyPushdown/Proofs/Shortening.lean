import VisiblyPushdown.Proofs.DeadRules

/-!
# How short interiors become

After simple form at most one symbol stands between a call and its return, with two exceptions. An
interior is left longer when a nonterminal in it hides a call or a return of that very bracket: the
spans of different brackets may cross, and a span that was folded later took one end of the bracket
with it. And a rule that nothing reached before is not shortened, not even when it was chosen for a
span.

The queue runs empty: each nonterminal that is created takes an opening occurrence for good, so the
occurrences that are left bound the length of the run.
-/

namespace VisiblyPushdown

namespace Alternative

/-- The open calls behind an occurrence, or `none` where it closes more than is open. -/
def depthBehind? (call ret : Symbol) (depth : Nat) (occurrence : Occurrence) : Option Nat :=
  if occurrence.symbol = call then some (depth + 1)
  else if occurrence.symbol = ret then
    match depth with
    | 0 => none
    | depth + 1 => some depth
  else some depth

/-- Whether calls and returns of one bracket balance in an alternative. -/
def Encloses (call ret : Symbol) (alternative : Alternative) : Prop :=
  alternative.foldlM (depthBehind? call ret) 0 = some 0

variable {call ret : Symbol} {depth length : Nat} {occurrence : Occurrence}
  {alternative : Alternative}

instance : Decidable (Encloses call ret alternative) :=
  inferInstanceAs (Decidable (_ = _))

theorem matchingReturn?_cons (call ret : Symbol) (depth : Nat) (occurrence : Occurrence)
    (rest : Alternative) :
    matchingReturn? call ret depth (occurrence :: rest) =
      match depthBehind? call ret depth occurrence with
      | none => some 0
      | some depth => (matchingReturn? call ret depth rest).map (· + 1) := by
  rw [matchingReturn?.eq_def, depthBehind?.eq_def]
  dsimp only
  split
  · rfl
  · split
    · cases depth <;> rfl
    · rfl

theorem matchingReturn?_append {behind : Nat} {span : Alternative}
    (open_calls : span.foldlM (depthBehind? call ret) depth = some behind) (rest : Alternative) :
    matchingReturn? call ret depth (span ++ rest) =
      (matchingReturn? call ret behind rest).map (· + span.length) := by
  induction span generalizing depth with
  | nil =>
      cases open_calls
      simp
  | cons occurrence span ih =>
      rw [List.foldlM_cons] at open_calls
      rw [List.cons_append, matchingReturn?_cons]
      cases after : depthBehind? call ret depth occurrence with
      | none => simp [after] at open_calls
      | some next =>
          rw [after] at open_calls
          dsimp only
          rw [ih open_calls, Option.map_map]
          rfl

/-- With more open calls around it, an alternative leaves so many more open. -/
theorem foldlM_depthBehind?_add {behind : Nat}
    (open_calls : alternative.foldlM (depthBehind? call ret) depth = some behind) (outer : Nat) :
    alternative.foldlM (depthBehind? call ret) (depth + outer) = some (behind + outer) := by
  induction alternative generalizing depth with
  | nil =>
      cases open_calls
      rfl
  | cons occurrence rest ih =>
      rw [List.foldlM_cons] at open_calls ⊢
      cases after : depthBehind? call ret depth occurrence with
      | none => simp [after] at open_calls
      | some next =>
          have after_outer : depthBehind? call ret (depth + outer) occurrence =
              some (next + outer) := by
            unfold depthBehind? at after ⊢
            grind
          rw [after] at open_calls
          rw [after_outer]
          exact ih open_calls

theorem Encloses.matchingReturn?_append {span : Alternative} (encloses : Encloses call ret span)
    (depth : Nat) (rest : Alternative) :
    matchingReturn? call ret depth (span ++ rest) =
      (matchingReturn? call ret depth rest).map (· + span.length) := by
  have open_calls := foldlM_depthBehind?_add encloses depth
  rw [Nat.zero_add] at open_calls
  exact Alternative.matchingReturn?_append open_calls rest

theorem ne_of_matchingReturn? (found : matchingReturn? call ret depth alternative = some length) :
    call ≠ ret := by
  rintro rfl
  induction alternative generalizing depth length with
  | nil => cases found
  | cons occurrence rest ih =>
      unfold matchingReturn? at found
      split at found
      · rcases Option.map_eq_some_iff.1 found with ⟨_, found, _⟩
        exact ih found
      · rcases Option.map_eq_some_iff.1 found with ⟨_, found, _⟩
        exact ih found

/-- Whether a nonterminal in an interior stands for a span in which the bracket does not balance. -/
def Hides (standsFor : Alternative → Symbol → Prop) (call ret : Symbol) (interior : Alternative) :
    Prop :=
  ∃ span symbol, standsFor span symbol ∧ .bare symbol ∈ interior ∧ ¬Encloses call ret span

/-- Whether interiors are short, apart from those that hide ends of their own bracket. -/
def IsShort (brackets : List TerminalPair) (standsFor : Alternative → Symbol → Prop)
    (alternative : Alternative) : Prop :=
  ∀ opening rest, opening :: rest <:+ alternative →
    ∀ ret length, brackets.lookup opening.symbol = some ret →
      matchingReturn? opening.symbol ret 0 rest = some length →
      length ≤ 1 ∨ Hides standsFor opening.symbol ret (rest.take length)

variable {standsFor other : Alternative → Symbol → Prop} {brackets : List TerminalPair}

theorem Hides.cons (hides : Hides standsFor call ret alternative) (occurrence : Occurrence) :
    Hides standsFor call ret (occurrence :: alternative) := by
  rcases hides with ⟨span, symbol, stands, mem, unbalanced⟩
  exact ⟨span, symbol, stands, List.mem_cons_of_mem occurrence mem, unbalanced⟩

theorem IsShort.mono (short : IsShort brackets standsFor alternative)
    (weaken : ∀ span symbol, standsFor span symbol → other span symbol) :
    IsShort brackets other alternative := by
  intro opening rest suffix ret length bracketed found
  apply (short opening rest suffix ret length bracketed found).imp_right
  rintro ⟨span, symbol, stands, hidden⟩
  exact ⟨span, symbol, weaken span symbol stands, hidden⟩

theorem isShort_nil : IsShort brackets standsFor [] := by
  intro opening rest suffix
  cases List.suffix_nil.1 suffix

theorem IsShort.cons (short : IsShort brackets standsFor alternative)
    (first : ∀ ret length, brackets.lookup occurrence.symbol = some ret →
      matchingReturn? occurrence.symbol ret 0 alternative = some length →
      length ≤ 1 ∨ Hides standsFor occurrence.symbol ret (alternative.take length)) :
    IsShort brackets standsFor (occurrence :: alternative) := by
  intro opening rest suffix
  rcases List.suffix_cons_iff.1 suffix with same | suffix
  · cases same
    exact first
  · exact short opening rest suffix

end Alternative

namespace Folds

open VisiblyPushdown.Alternative

variable {brackets : List TerminalPair} {standsFor : Alternative → Symbol → Prop}
  {before after : Alternative} {call ret : Symbol}

theorem exists_eq_cons {occurrence : Occurrence}
    (folds : Folds brackets standsFor (occurrence :: before) after) :
    ∃ rest, after = occurrence :: rest := by
  cases folds with
  | keep _ _ => exact ⟨_, rfl⟩
  | fold _ _ _ => exact ⟨_, rfl⟩

/--
Folding takes no return away from its call, so an interior was at least as long before, unless the
interior hides something.
-/
theorem matchingReturn? (folds : Folds brackets standsFor before after)
    (apart : ∀ span symbol, standsFor span symbol → symbol ≠ call ∧ symbol ≠ ret)
    (long : ∀ span symbol, standsFor span symbol → 2 ≤ span.length) {depth length : Nat}
    (found : after.matchingReturn? call ret depth = some length) :
    Hides standsFor call ret (after.take length) ∨
      ∃ longer, length ≤ longer ∧ before.matchingReturn? call ret depth = some longer := by
  induction folds generalizing depth length with
  | nil => cases found
  | @keep occurrence before after _ ih =>
      rw [matchingReturn?_cons] at found
      rw [matchingReturn?_cons]
      split at found
      · cases found
        exact .inr ⟨0, Nat.le_refl _, rfl⟩
      · rcases Option.map_eq_some_iff.1 found with ⟨shorter, found_after, rfl⟩
        rcases ih found_after with hides | ⟨longer, le, found_before⟩
        · exact .inl (hides.cons occurrence)
        · exact .inr ⟨longer + 1, by omega, by simp [found_before]⟩
  | @fold opening closing span before after symbol _ stands _ ih =>
      have passed (depth : Nat) : depthBehind? call ret depth (.bare symbol) = some depth := by
        rcases apart span symbol stands with ⟨no_call, no_return⟩
        simp [depthBehind?, Occurrence.bare, no_call, no_return]
      rw [matchingReturn?_cons] at found
      rw [matchingReturn?_cons]
      split at found
      · cases found
        exact .inr ⟨0, Nat.le_refl _, rfl⟩
      · next depth _ =>
          rcases Option.map_eq_some_iff.1 found with ⟨passing, found_target, rfl⟩
          rw [matchingReturn?_cons, passed] at found_target
          rcases Option.map_eq_some_iff.1 found_target with ⟨shorter, found_after, rfl⟩
          -- What is folded here balances, or the nonterminal for it is what hides something.
          by_cases encloses : Encloses call ret span
          · rcases ih found_after with hides | ⟨longer, le, found_before⟩
            · exact .inl ((hides.cons _).cons opening)
            · have span_long := long span symbol stands
              refine .inr ⟨longer + span.length + 1, by omega, ?_⟩
              simp [encloses.matchingReturn?_append, found_before]
          · exact .inl ⟨span, symbol, stands, by simp, encloses⟩

end Folds

namespace SpanExtraction

open VisiblyPushdown.Alternative

variable {brackets : List TerminalPair} {original : Grammar} {extraction later : SpanExtraction}
  {symbol : Symbol} {queue : List Symbol} {created : List (Symbol × Alternative)}

theorem ne_of_isTerminal {target terminal : Symbol} (nonterminal : target.isNonterminal)
    (kind : terminal.isTerminal) : target ≠ terminal := by
  rintro rfl
  rw [← Symbol.not_isTerminal, kind] at nonterminal
  cases nonterminal

/-- The return behind a nonterminal that was put in for a span is the one that matches. -/
theorem matchingReturn?_target {call ret target : Symbol} (no_call : target ≠ call)
    (no_return : target ≠ ret) (different : call ≠ ret) {closing : Occurrence}
    (closes : closing.symbol = ret) (rest : Alternative) :
    matchingReturn? call ret 0 (.bare target :: closing :: rest) = some 1 := by
  subst closes
  simp [matchingReturn?, Occurrence.bare, no_call, no_return, different.symm]

section Shorten

variable
  (terminals : ∀ call ret, brackets.lookup call = some ret → call.isTerminal ∧ ret.isTerminal)

include terminals

theorem Stands.apart {span : Alternative} (stands : extraction.Stands span symbol)
    {call ret : Symbol} (bracketed : brackets.lookup call = some ret) :
    symbol ≠ call ∧ symbol ≠ ret :=
  (terminals call ret bracketed).imp (ne_of_isTerminal stands.isNonterminal)
    (ne_of_isTerminal stands.isNonterminal)

theorem isShort_shorten (sound : extraction.IsSound) {alternative : Alternative} (skip : Nat)
    (known : ∀ occurrence ∈ alternative, occurrence.symbol ∈ extraction.grammar.symbols) :
    IsShort brackets (extraction.shorten brackets skip alternative).2.Stands
      (extraction.shorten brackets skip alternative).1 := by
  induction alternative generalizing extraction skip with
  | nil => exact isShort_nil
  | cons occurrence rest ih =>
      rw [List.forall_mem_cons] at known
      cases skip with
      | succ skip => exact ih sound skip known.2
      | zero =>
          rw [shorten]
          split
          · next length found =>
              rcases extract_grows sound (two_le_length_of_spanLength? found) fun occurrence mem =>
                known.2 occurrence (List.mem_of_mem_take mem) with ⟨_, grows, stands⟩
              have known_still (occurrence : Occurrence) (mem : occurrence ∈ rest) :=
                grows.symbols_subset (known.2 occurrence mem)
              rcases shorten_grows brackets grows.sound length known_still with ⟨_, _, folds⟩
              rcases exists_drop_of_spanLength? found with ⟨closing, after, drop_eq, bracketed⟩
              rw [drop_eq] at folds
              rcases folds.exists_eq_cons with ⟨shortened, shortened_eq⟩
              apply ((ih grows.sound length known_still).cons ?_).cons
              · intro ret distance bracketed_again matching
                cases bracketed.symm.trans bracketed_again
                rcases stands.apart terminals bracketed with ⟨no_call, no_return⟩
                have apart := ne_of_matchingReturn? matching
                rw [shortened_eq, matchingReturn?_target no_call no_return apart rfl] at matching
                cases matching
                exact .inl (Nat.le_refl 1)
              · intro ret _ target_bracketed
                exact absurd rfl (stands.apart terminals target_bracketed).1
          · next short =>
              rcases shorten_grows brackets sound 0 known.2 with ⟨_, _, folds⟩
              apply (ih sound 0 known.2).cons
              intro ret length bracketed found
              rcases folds.matchingReturn? (fun _ _ stands => stands.apart terminals bracketed)
                (fun _ _ stands => stands.two_le_length) found with hides | ⟨longer, le, matching⟩
              · exact .inr hides
              · rw [List.drop_zero] at matching
                simp only [spanLength?, bracketed, matching, ite_eq_right_iff] at short
                exact .inl (by grind)

theorem isShort_shortenEach (sound : extraction.IsSound) {alternatives finished : List Alternative}
    (short : ∀ alternative ∈ finished, IsShort brackets extraction.Stands alternative)
    (known : ∀ alternative ∈ alternatives, ∀ occurrence ∈ alternative,
      occurrence.symbol ∈ extraction.grammar.symbols) :
    ∀ alternative ∈ (shortenEach brackets finished extraction alternatives).1,
      IsShort brackets (shortenEach brackets finished extraction alternatives).2.Stands
        alternative := by
  induction alternatives generalizing extraction finished with
  | nil => exact short
  | cons alternative rest ih =>
      rw [List.forall_mem_cons] at known
      rcases shorten_grows brackets sound 0 known.1 with ⟨_, grows, _⟩
      rw [shortenEach_cons]
      apply ih grows.sound
      · intro other other_mem
        rcases InsertionOrder.mem_insert.1 other_mem with old | rfl
        · exact (short other old).mono fun _ _ => grows.stands
        · exact isShort_shorten terminals sound 0 known.1
      · intro other other_mem occurrence occurrence_mem
        exact grows.symbols_subset (known.2 other other_mem occurrence occurrence_mem)

theorem isShort_shortenRule (sound : extraction.IsSound)
    (known : symbol ∈ extraction.grammar.symbols) (nonterminal : symbol.isNonterminal) :
    ∀ alternative ∈ (extraction.shortenRule brackets symbol).grammar.alternatives symbol,
      IsShort brackets (fun span target => target.isNonterminal ∧
          bulk target.name = 2 + span.weight ∧
          ((extraction.shortenRule brackets symbol).spans.lookup target = some span ∨
            target ≠ symbol ∧ extraction.grammar.alternatives target = [span]))
        alternative := by
  have sound_without : (extraction.withAlternatives symbol []).IsSound :=
    sound.withAlternatives known List.nodup_nil fun _ mem => absurd mem List.not_mem_nil
  have mentioned : ∀ alternative ∈ extraction.grammar.alternatives symbol,
      ∀ occurrence ∈ alternative,
        occurrence.symbol ∈ (extraction.withAlternatives symbol []).grammar.symbols := by
    intro alternative mem occurrence occurrence_mem
    rw [symbols_withAlternatives]
    exact sound.wellFormed.mentioned_mem mem occurrence_mem
  rcases shortenEach_grows brackets sound_without FoldsEach.nil List.nodup_nil mentioned with
    ⟨created, grows, _, _⟩
  have short := isShort_shortenEach terminals sound_without (List.forall_mem_nil _) mentioned
  rw [shortenRule_eq]
  generalize shortenEach _ _ _ _ = shortened at grows short
  dsimp only
  rw [alternatives_withAlternatives_self nonterminal]
  intro alternative mem
  apply (short alternative mem).mono
  intro span target stands
  exact ⟨stands.isNonterminal, stands.bulk_name,
    grows.chosen_of_stands sound_without nonterminal stands⟩

end Shorten

/-- Whether the rules are short that were reachable or are new, apart from those in the queue. -/
def IsShortened (original : Grammar) (brackets : List TerminalPair) (extraction : SpanExtraction)
    (queue : List Symbol) : Prop :=
  ∀ symbol ∉ queue, (symbol ∈ original.symbols → symbol ∈ original.reachable) →
    ∀ alternative ∈ extraction.grammar.alternatives symbol,
      IsShort brackets (StandsForGood original extraction queue) alternative

theorem isShortened_start (brackets : List TerminalPair) (wellFormed : original.WellFormed) :
    IsShortened original brackets { grammar := original } original.reachable := by
  intro symbol unqueued queued alternative mem
  exact absurd (queued (wellFormed.symbol_mem mem)) unqueued

theorem IsShortened.shortenRule
    (terminals : ∀ call ret, brackets.lookup call = some ret → call.isTerminal ∧ ret.isTerminal)
    (wellFormed : original.WellFormed)
    (shortened : IsShortened original brackets extraction (symbol :: queue))
    (progress : InProgress original brackets extraction (symbol :: queue))
    (grows : Grows extraction [symbol] created (extraction.shortenRule brackets symbol)) :
    IsShortened original brackets (extraction.shortenRule brackets symbol)
      (queue ++ created.map Prod.fst) := by
  have known := progress.queue_mem symbol List.mem_cons_self
  have nonterminal := progress.queue_isNonterminal symbol List.mem_cons_self
  intro other unqueued queued alternative mem
  rw [List.mem_append, not_or] at unqueued
  by_cases same : other = symbol
  · subst same
    apply (isShort_shortenRule terminals progress.sound known nonterminal alternative mem).mono
    rintro span target ⟨target_kind, bulk_name, chosen⟩
    exact progress.standsForGood_of_chosen grows target_kind bulk_name chosen
  · rw [grows.alternatives_eq other unqueued.2 (mt List.mem_singleton.1 same)] at mem
    have pending : other ∉ symbol :: queue := by
      rw [List.mem_cons, not_or]
      exact ⟨same, unqueued.1⟩
    apply (shortened other pending queued alternative mem).mono
    intro span target stands
    exact progress.standsForGood_later wellFormed grows stands

/-- The number of occurrences that may open a span. -/
def openings (brackets : List TerminalPair) (alternative : Alternative) : Nat :=
  alternative.countP fun occurrence => (brackets.lookup occurrence.symbol).isSome

/-- What is left to do for an entry of the queue: its rule, and those for the spans in it. -/
def work (brackets : List TerminalPair) (alternatives : List Alternative) : Nat :=
  1 + (alternatives.map (openings brackets)).sum

/-- What was left to do for the spans when they were created. -/
def spanWork (brackets : List TerminalPair) (extraction : SpanExtraction) : Nat :=
  (extraction.spans.map fun entry => work brackets [entry.2]).sum

theorem spanWork_extract (brackets : List TerminalPair) (extraction : SpanExtraction)
    (span : Alternative) :
    spanWork brackets (extraction.extract span).2 ≤
      spanWork brackets extraction + 1 + openings brackets span := by
  unfold extract
  dsimp only
  split
  · exact Nat.le_trans (Nat.le_add_right _ 1) (Nat.le_add_right _ _)
  · simp [spanWork, work, Nat.add_assoc]

theorem spanWork_shorten (brackets : List TerminalPair) (extraction : SpanExtraction) (skip : Nat)
    (alternative : Alternative) :
    spanWork brackets (extraction.shorten brackets skip alternative).2 ≤
      spanWork brackets extraction + openings brackets (alternative.drop skip) := by
  induction alternative generalizing extraction skip with
  | nil => exact Nat.le_add_right _ _
  | cons occurrence rest ih =>
      cases skip with
      | succ skip => exact ih extraction skip
      | zero =>
          rw [shorten]
          split
          · next length found =>
              rcases exists_drop_of_spanLength? found with ⟨_, _, _, bracketed⟩
              have extracted := spanWork_extract brackets extraction (rest.take length)
              have shortened := ih (extraction.extract (rest.take length)).2 length
              -- The occurrence in front opens this span, so the bound for the rest suffices.
              have split_eq : openings brackets rest =
                  openings brackets (rest.take length) + openings brackets (rest.drop length) := by
                rw [openings, openings, openings, ← List.countP_append, List.take_append_drop]
              have opens : openings brackets (occurrence :: rest) = openings brackets rest + 1 := by
                simp [openings, bracketed]
              rw [List.drop_zero]
              dsimp only
              omega
          · have shortened := ih extraction 0
            have more : openings brackets rest ≤ openings brackets (occurrence :: rest) := by
              simp [openings, List.countP_cons]
            rw [List.drop_zero] at shortened ⊢
            dsimp only
            omega

theorem spanWork_shortenEach (brackets : List TerminalPair) (extraction : SpanExtraction)
    (finished alternatives : List Alternative) :
    spanWork brackets (shortenEach brackets finished extraction alternatives).2 ≤
      spanWork brackets extraction + (alternatives.map (openings brackets)).sum := by
  induction alternatives generalizing extraction finished with
  | nil => exact Nat.le_refl _
  | cons alternative rest ih =>
      have first := spanWork_shorten brackets extraction 0 alternative
      have later := ih (extraction.shorten brackets 0 alternative).2
        (InsertionOrder.insert finished (extraction.shorten brackets 0 alternative).1)
      rw [shortenEach_cons, List.map_cons, List.sum_cons]
      rw [List.drop_zero] at first
      omega

theorem spanWork_shortenRule (brackets : List TerminalPair) (extraction : SpanExtraction)
    (symbol : Symbol) :
    spanWork brackets (extraction.shortenRule brackets symbol) + 1 ≤
      spanWork brackets extraction + work brackets (extraction.grammar.alternatives symbol) := by
  have shortened := spanWork_shortenEach brackets (extraction.withAlternatives symbol []) []
    (extraction.grammar.alternatives symbol)
  rw [shortenRule_eq, work]
  dsimp only [spanWork, SpanExtraction.withAlternatives] at shortened ⊢
  omega

/-- What is left to do for a queue. -/
def queueWork (brackets : List TerminalPair) (extraction : SpanExtraction) (queue : List Symbol) :
    Nat :=
  (queue.map fun symbol => work brackets (extraction.grammar.alternatives symbol)).sum

theorem InProgress.queueWork_shortenRule
    (progress : InProgress original brackets extraction (symbol :: queue))
    (grows : Grows extraction [symbol] created (extraction.shortenRule brackets symbol)) :
    queueWork brackets (extraction.shortenRule brackets symbol)
        (queue ++ created.map Prod.fst) + 1 ≤
      queueWork brackets extraction (symbol :: queue) := by
  have done := spanWork_shortenRule brackets extraction symbol
  have symbol_unqueued := (List.nodup_cons.1 progress.queue_nodup).1
  have pending : queueWork brackets (extraction.shortenRule brackets symbol) queue =
      queueWork brackets extraction queue := by
    unfold queueWork
    congr 1
    apply List.map_congr_left
    intro other queued
    have known := progress.queue_mem other (List.mem_cons_of_mem symbol queued)
    have different : other ∉ [symbol] := by
      rintro mem
      cases List.mem_singleton.1 mem
      exact symbol_unqueued queued
    rw [grows.alternatives_eq other (grows.not_mem_created known) different]
  have new : queueWork brackets (extraction.shortenRule brackets symbol) (created.map Prod.fst) =
      (created.map fun entry => work brackets [entry.2]).sum := by
    unfold queueWork
    rw [List.map_map]
    congr 1
    apply List.map_congr_left
    intro entry entry_mem
    exact congrArg (work brackets) (grows.created_target entry entry_mem).alternatives_eq
  have spans : spanWork brackets (extraction.shortenRule brackets symbol) =
      spanWork brackets extraction + (created.map fun entry => work brackets [entry.2]).sum := by
    rw [spanWork, grows.spans_eq, List.map_append, List.sum_append]
    rfl
  unfold queueWork at pending new ⊢
  rw [List.map_append, List.sum_append, List.map_cons, List.sum_cons]
  omega

/-- With one step for each piece of work the queue runs empty, and what was in it is short. -/
theorem InProgress.shortenAll_of_work_le
    (terminals : ∀ call ret, brackets.lookup call = some ret → call.isTerminal ∧ ret.isTerminal)
    (wellFormed : original.WellFormed) (progress : InProgress original brackets extraction queue)
    (shortened : IsShortened original brackets extraction queue) {rules : Nat}
    (enough : queueWork brackets extraction queue ≤ rules) :
    InProgress original brackets (extraction.shortenAll brackets rules queue) [] ∧
      IsShortened original brackets (extraction.shortenAll brackets rules queue) [] := by
  induction rules generalizing extraction queue with
  | zero =>
      cases queue with
      | nil => exact ⟨progress, shortened⟩
      | cons symbol queue => simp [queueWork, work] at enough
  | succ rules ih =>
      cases queue with
      | nil => exact ⟨progress, shortened⟩
      | cons symbol queue =>
          rcases shortenRule_grows brackets progress.sound
            (progress.queue_mem symbol List.mem_cons_self)
            (progress.queue_isNonterminal symbol List.mem_cons_self) with ⟨created, grows, _⟩
          have less := progress.queueWork_shortenRule grows
          have next := progress.shortenRule wellFormed
          have shortened_next := shortened.shortenRule terminals wellFormed progress grows
          rw [SpanExtraction.shortenAll]
          rw [grows.spans_eq, List.drop_left] at next ⊢
          exact ih next shortened_next (by omega)

end SpanExtraction

namespace Grammar

open SpanExtraction

variable {grammar : Grammar}

theorem queueWork_reachable_le (grammar : Grammar) :
    queueWork grammar.brackets { grammar } grammar.reachable ≤
      grammar.reachable.length + grammar.callOccurrenceCount := by
  have openings_le (alternative : Alternative) :
      openings grammar.brackets alternative ≤
        alternative.countP fun occurrence => occurrence.symbol ∈ grammar.calls := by
    apply List.countP_mono_left
    intro occurrence _ opens
    exact decide_eq_true (mem_calls_of_isSome_lookup_brackets _ opens)
  have counted (alternatives : List Alternative) :
      (alternatives.map (openings grammar.brackets)).sum ≤
        alternatives.flatten.countP fun occurrence => occurrence.symbol ∈ grammar.calls := by
    induction alternatives with
    | nil => exact Nat.le_refl _
    | cons alternative rest ih =>
        have first := openings_le alternative
        rw [List.map_cons, List.sum_cons, List.flatten_cons, List.countP_append]
        omega
  have queued (queue : List Symbol) :
      queueWork grammar.brackets { grammar } queue ≤ queue.length +
        (queue.flatMap grammar.alternatives).flatten.countP fun occurrence =>
          occurrence.symbol ∈ grammar.calls := by
    induction queue with
    | nil => exact Nat.le_refl _
    | cons symbol queue ih =>
        have first := counted (grammar.alternatives symbol)
        rw [List.flatMap_cons, List.flatten_append, List.countP_append, List.length_cons]
        unfold queueWork work at ih ⊢
        dsimp only at ih ⊢
        rw [List.map_cons, List.sum_cons]
        omega
  exact queued grammar.reachable

/--
Whether a grammar comes from another one by folding spans, those of new nonterminals among them, so
that in every rule that was reachable or is new at most one symbol stands between a call and the
return that matches it, unless a nonterminal in between hides an end of this bracket.
-/
structure ShortensTo (grammar : Grammar) (spans : List (Symbol × Alternative)) (folded : Grammar) :
    Prop where
  new : ∀ entry ∈ spans, entry.1 ∉ grammar.symbols
  foldsTo : grammar.FoldsTo (grammar.unfolded spans) grammar.brackets folded
  short : ∀ symbol, (symbol ∈ grammar.symbols → grammar.Reaches grammar.start symbol) →
    ∀ before opening rest, before ++ opening :: rest ∈ folded.alternatives symbol →
      opening.symbol ∈ folded.calls → ∀ ret, folded.partner? opening.symbol = some ret →
        ∀ length, Alternative.matchingReturn? opening.symbol ret 0 rest = some length →
          length ≤ 1 ∨ Alternative.Hides ((grammar.unfolded spans).StandsAround folded)
            opening.symbol ret (rest.take length)

theorem exists_shortensTo_toSimpleForm (wellFormed : grammar.WellFormed)
    (tagged : grammar.TagsTerminals) :
    ∃ spans, grammar.ShortensTo spans grammar.toSimpleForm.1 := by
  unfold toSimpleForm
  split
  · next no_calls =>
      refine ⟨[], fun _ mem => absurd mem List.not_mem_nil, tagged.foldsTo_refl, ?_⟩
      intro symbol _ before opening rest _ call_mem
      rw [List.isEmpty_iff.1 no_calls] at call_mem
      cases call_mem
  · have brackets := tagged.isTerminal_of_lookup_brackets
    rcases (inProgress_start grammar.brackets wellFormed).shortenAll_of_work_le brackets wellFormed
      (isShortened_start grammar.brackets wellFormed) grammar.queueWork_reachable_le with
      ⟨progress, shortened⟩
    dsimp only
    generalize SpanExtraction.shortenAll _ _ _ _ = extraction at progress shortened
    refine ⟨extraction.spans, progress.span_new, foldsTo_of_inProgress wellFormed tagged progress,
      ?_⟩
    intro symbol known before opening rest mem call_mem ret partner length matching
    have queued : symbol ∈ grammar.symbols → symbol ∈ grammar.reachable :=
      fun old => mem_reachable.2 (known old)
    have short := shortened symbol List.not_mem_nil queued _ mem
    have calls_eq := congrArg calls progress.grammar_eq
    have pairs_eq := congrArg pairs progress.grammar_eq
    have call_old : opening.symbol ∈ grammar.calls := calls_eq ▸ call_mem
    have bracketed : grammar.brackets.lookup opening.symbol = some ret := by
      rw [lookup_brackets, if_pos call_old, returnOf?]
      rw [partner?, partnerAmong, role, if_pos call_mem] at partner
      exact pairs_eq ▸ partner
    apply (short opening rest ⟨before, rfl⟩ ret length bracketed matching).imp_right
    rintro ⟨span, target, stands, hidden⟩
    refine ⟨span, target, stands.imp_right ?_, hidden⟩
    intro stands_folded
    have kept := stands_folded.2
    exact ⟨kept.isNonterminal, kept.bulk_name, kept.alternatives_eq⟩

end Grammar

namespace Settings

variable {grammar : Grammar}

/-- What a tagged grammar becomes when it is simplified. -/
theorem exists_shortensTo_tag (settings : Settings) (wellFormed : grammar.WellFormed)
    (simplifies : settings.simplify = true) :
    ∃ spans, (grammar.withoutLeftRecursion.tag settings.removeContradictions).ShortensTo spans
      (settings.tag grammar).grammar := by
  rw [grammar_tag, if_pos simplifies]
  exact Grammar.exists_shortensTo_toSimpleForm
    (wellFormed.withoutLeftRecursion.tag settings.removeContradictions)
    (grammar.withoutLeftRecursion.tagsTerminals_tag settings.removeContradictions)

/-- Two kinds of brackets that cross in one alternative. -/
def crossing : Description :=
  { start := some "s"
    terminals := ["A", "R", "B", "D", "X"]
    rules :=
      [("s",
          [[.bare ⟨"A", .terminal⟩, .bare ⟨"R", .terminal⟩],
            [.bare ⟨"B", .terminal⟩, .bare ⟨"D", .terminal⟩],
            [.bare ⟨"R", .terminal⟩, .bare ⟨"A", .terminal⟩, .bare ⟨"B", .terminal⟩,
              .bare ⟨"A", .terminal⟩, .bare ⟨"x", .nonterminal⟩, .bare ⟨"D", .terminal⟩,
              .bare ⟨"R", .terminal⟩]]),
        ("x", [[.bare ⟨"X", .terminal⟩]])] }

theorem exists_shortensTo_tag_crossing :
    (crossing.toGrammar "s").WellFormed ∧ ({} : Settings).simplify = true ∧
      ∃ spans, ((crossing.toGrammar "s").withoutLeftRecursion.tag true).ShortensTo spans
        (tag {} (crossing.toGrammar "s")).grammar := by
  have wellFormed := crossing.wellFormed_toGrammar "s"
  exact ⟨wellFormed, rfl, exists_shortensTo_tag {} wellFormed rfl⟩

/-- The inner `A` goes into the span of `B`, and the outer one gets the last `R` for a match. -/
theorem long_interior_crossing :
    crossing.resolve = .ok (crossing.toGrammar "s") ∧
      let final := (tag {} (crossing.toGrammar "s")).grammar
      ∃ before opening rest ret length, before ++ opening :: rest ∈ final.alternatives final.start ∧
        opening.symbol ∈ final.calls ∧ final.partner? opening.symbol = some ret ∧
        Alternative.matchingReturn? opening.symbol ret 0 rest = some length ∧ 1 < length := by
  refine ⟨by decide, [.bare ⟨"R", .terminal⟩], .bare ⟨"A", .terminal⟩,
    [.bare ⟨"B", .terminal⟩, .bare ⟨"_L_A_x", .nonterminal⟩, .bare ⟨"D", .terminal⟩,
      .bare ⟨"R", .terminal⟩], ⟨"R", .terminal⟩, 3, ?_⟩
  decide +kernel

/-- A rule that nothing reached is chosen for a span and keeps its own long interior. -/
theorem long_interior_nestedBracketsWithSpan :
    let final := (tag {} (nestedBracketsWithSpan.toGrammar "s")).grammar
    let chosen : Symbol := ⟨"_L_b_x_s_c", .nonterminal⟩
    final.Reaches final.start chosen ∧
      ∃ opening rest ret length, opening :: rest ∈ final.alternatives chosen ∧
        opening.symbol ∈ final.calls ∧ final.partner? opening.symbol = some ret ∧
        Alternative.matchingReturn? opening.symbol ret 0 rest = some length ∧ 1 < length := by
  intro final chosen
  have reachable : chosen ∈ final.reachable := by decide
  refine ⟨Grammar.mem_reachable.1 reachable, .bare ⟨"b", .terminal⟩,
    [.bare ⟨"x", .nonterminal⟩, .bare ⟨"s", .nonterminal⟩, .bare ⟨"c", .terminal⟩],
    ⟨"c", .terminal⟩, 2, ?_⟩
  decide

end Settings

end VisiblyPushdown
