import VisiblyPushdown.Proofs.Folding

/-!
# Extracting spans

What the steps of the extraction do to the grammar that is under way. Every step *grows* it: new
nonterminals with their spans come in, and the alternatives of the others are left alone. A
nonterminal that stands for a span goes on standing for it while the extraction grows, so that the
folds of an alternative are justified by the state in which its rule is put back.
-/

namespace VisiblyPushdown

namespace Alternative

theorem exists_drop_of_matchingReturn? {call ret : Symbol} {depth length : Nat}
    {alternative : Alternative}
    (found : matchingReturn? call ret depth alternative = some length) :
    ∃ closing after, alternative.drop length = closing :: after ∧ closing.symbol = ret := by
  induction alternative generalizing depth length with
  | nil => cases found
  | cons occurrence rest ih =>
      have later {depth : Nat}
          (found : (matchingReturn? call ret depth rest).map (· + 1) = some length) :
          ∃ closing after, (occurrence :: rest).drop length = closing :: after ∧
            closing.symbol = ret := by
        obtain ⟨shorter, found_later, rfl⟩ := Option.map_eq_some_iff.1 found
        exact ih found_later
      unfold matchingReturn? at found
      split at found
      · exact later found
      · split at found
        · next closes =>
            cases depth with
            | zero =>
                cases found
                exact ⟨occurrence, rest, rfl, closes⟩
            | succ depth => exact later found
        · exact later found

end Alternative

namespace SpanExtraction

variable {brackets : List TerminalPair} {extraction earlier middle later : SpanExtraction}

theorem exists_drop_of_spanLength? {symbol : Symbol} {rest : Alternative} {length : Nat}
    (found : spanLength? brackets symbol rest = some length) :
    ∃ closing after, rest.drop length = closing :: after ∧
      brackets.lookup symbol = some closing.symbol := by
  rw [spanLength?] at found
  split at found
  · next ret bracketed =>
      split at found
      · next distance matching =>
          split at found
          · cases found
            obtain ⟨closing, after, drop_eq, rfl⟩ :=
              Alternative.exists_drop_of_matchingReturn? matching
            exact ⟨closing, after, drop_eq, bracketed⟩
          · cases found
      · cases found
  · cases found

theorem two_le_length_of_spanLength? {symbol : Symbol} {rest : Alternative} {length : Nat}
    (found : spanLength? brackets symbol rest = some length) : 2 ≤ (rest.take length).length := by
  rcases exists_drop_of_spanLength? found with ⟨closing, after, drop_eq, _⟩
  have inside : length < rest.length := by
    apply Nat.lt_of_not_le
    intro beyond
    rw [List.drop_eq_nil_of_le beyond] at drop_eq
    cases drop_eq
  have long : 2 ≤ length := by
    rw [spanLength?] at found
    grind
  rw [List.length_take]
  omega

/-- Whether the grammar under way is well formed and its table has the nonterminals created. -/
structure IsSound (extraction : SpanExtraction) : Prop where
  wellFormed : extraction.grammar.WellFormed
  span_mem : ∀ entry ∈ extraction.spans, entry.1 ∈ extraction.grammar.symbols

theorem IsSound.lookup_eq_none (sound : extraction.IsSound) {symbol : Symbol}
    (unknown : symbol ∉ extraction.grammar.symbols) : extraction.spans.lookup symbol = none := by
  rw [InsertionOrder.lookup_eq_none]
  intro symbol_mem
  obtain ⟨entry, entry_mem, rfl⟩ := List.mem_map.1 symbol_mem
  exact unknown (sound.span_mem entry entry_mem)

theorem IsSound.alternatives_eq_nil (sound : extraction.IsSound) {symbol : Symbol}
    (unknown : symbol ∉ extraction.grammar.symbols) :
    extraction.grammar.alternatives symbol = [] := by
  rw [Grammar.alternatives, sound.wellFormed.lookup_eq_none unknown]
  rfl

/-- Whether a nonterminal of the table has been chosen for a span, or could be. -/
structure Stands (extraction : SpanExtraction) (span : Alternative) (symbol : Symbol) : Prop where
  two_le_length : 2 ≤ span.length
  mem : symbol ∈ extraction.grammar.symbols
  isNonterminal : symbol.isNonterminal
  bulk_name : bulk symbol.name = 2 + span.weight
  standsFor : extraction.standsFor span symbol

/--
Whether an extraction has grown into another one by the given nonterminals and their spans. The
alternatives of the other nonterminals are the same, apart from exceptions that are being rewritten.
-/
structure Grows (earlier : SpanExtraction) (exceptions : List Symbol)
    (created : List (Symbol × Alternative)) (later : SpanExtraction) : Prop where
  sound : later.IsSound
  spans_eq : later.spans = earlier.spans ++ created
  symbols_subset : earlier.grammar.symbols ⊆ later.grammar.symbols
  created_nodup : (created.map Prod.fst).Nodup
  created_new : ∀ entry ∈ created, entry.1 ∉ earlier.grammar.symbols
  created_target : ∀ entry ∈ created, later.grammar.IsFoldTarget entry.2 entry.1
  alternatives_eq : ∀ symbol ∉ created.map Prod.fst, symbol ∉ exceptions →
    later.grammar.alternatives symbol = earlier.grammar.alternatives symbol
  grammar_eq : later.grammar =
    { earlier.grammar with symbols := later.grammar.symbols, rules := later.grammar.rules }

section Grows

variable {exceptions : List Symbol} {created further : List (Symbol × Alternative)}

theorem Grows.refl (sound : extraction.IsSound) : Grows extraction [] [] extraction where
  sound := sound
  spans_eq := (List.append_nil _).symm
  symbols_subset := List.Subset.refl _
  created_nodup := List.nodup_nil
  created_new _ entry_mem := absurd entry_mem List.not_mem_nil
  created_target _ entry_mem := absurd entry_mem List.not_mem_nil
  alternatives_eq _ _ _ := rfl
  grammar_eq := rfl

theorem Grows.created_mem (grows : Grows earlier exceptions created later)
    {entry : Symbol × Alternative} (entry_mem : entry ∈ created) :
    entry.1 ∈ later.grammar.symbols := by
  refine grows.sound.span_mem entry ?_
  rw [grows.spans_eq]
  exact List.mem_append_right _ entry_mem

theorem Grows.not_mem_created (grows : Grows earlier exceptions created later) {symbol : Symbol}
    (known : symbol ∈ earlier.grammar.symbols) : symbol ∉ created.map Prod.fst := by
  intro created_mem
  obtain ⟨entry, entry_mem, rfl⟩ := List.mem_map.1 created_mem
  exact grows.created_new entry entry_mem known

theorem Grows.trans (grows : Grows earlier [] created middle)
    (grows_on : Grows middle [] further later) : Grows earlier [] (created ++ further) later where
  sound := grows_on.sound
  spans_eq := by rw [grows_on.spans_eq, grows.spans_eq, List.append_assoc]
  symbols_subset := List.Subset.trans grows.symbols_subset grows_on.symbols_subset
  created_nodup := by
    rw [List.map_append, List.nodup_append]
    refine ⟨grows.created_nodup, grows_on.created_nodup, ?_⟩
    rintro symbol created_mem other further_mem rfl
    obtain ⟨entry, entry_mem, rfl⟩ := List.mem_map.1 created_mem
    exact grows_on.not_mem_created (grows.created_mem entry_mem) further_mem
  created_new entry entry_mem := by
    rcases List.mem_append.1 entry_mem with entry_mem | entry_mem
    · exact grows.created_new entry entry_mem
    · exact fun known => grows_on.created_new entry entry_mem (grows.symbols_subset known)
  created_target entry entry_mem := by
    rcases List.mem_append.1 entry_mem with entry_mem | entry_mem
    · obtain ⟨nonterminal, bulk_name, alternatives_eq⟩ := grows.created_target entry entry_mem
      refine ⟨nonterminal, bulk_name, ?_⟩
      rwa [grows_on.alternatives_eq _ (grows_on.not_mem_created (grows.created_mem entry_mem))
        List.not_mem_nil]
    · exact grows_on.created_target entry entry_mem
  alternatives_eq symbol symbol_old unlisted := by
    rw [List.map_append, List.mem_append, not_or] at symbol_old
    rw [grows_on.alternatives_eq symbol symbol_old.2 unlisted,
      grows.alternatives_eq symbol symbol_old.1 unlisted]
  grammar_eq := by rw [grows_on.grammar_eq, grows.grammar_eq]

theorem Grows.lookup_eq (grows : Grows earlier exceptions created later) {symbol : Symbol}
    (old : symbol ∉ created.map Prod.fst) :
    later.spans.lookup symbol = earlier.spans.lookup symbol := by
  rw [grows.spans_eq, List.lookup_append, InsertionOrder.lookup_eq_none.2 old, Option.or_none]

theorem Grows.lookup_created (grows : Grows earlier exceptions created later)
    (sound : earlier.IsSound) {entry : Symbol × Alternative} (entry_mem : entry ∈ created) :
    later.spans.lookup entry.1 = some entry.2 := by
  rw [grows.spans_eq, List.lookup_append, sound.lookup_eq_none (grows.created_new entry entry_mem),
    Option.none_or]
  exact InsertionOrder.lookup_of_mem grows.created_nodup entry_mem

theorem Grows.stands (grows : Grows earlier [] created later) {span : Alternative}
    {symbol : Symbol} (stands : earlier.Stands span symbol) :
    later.Stands span symbol where
  two_le_length := stands.two_le_length
  mem := grows.symbols_subset stands.mem
  isNonterminal := stands.isNonterminal
  bulk_name := stands.bulk_name
  standsFor := by
    have old := grows.not_mem_created stands.mem
    have standsFor := stands.standsFor
    rwa [SpanExtraction.standsFor, grows.lookup_eq old, grows.alternatives_eq symbol old
      List.not_mem_nil]

end Grows

/-- A new nonterminal with a span as its only alternative. -/
def create (extraction : SpanExtraction) (symbol : Symbol) (span : Alternative) :
    SpanExtraction where
  grammar := (extraction.grammar.intern symbol).addAlternative symbol span
  spans := extraction.spans ++ [(symbol, span)]

theorem symbols_create (extraction : SpanExtraction) (symbol : Symbol) (span : Alternative) :
    (extraction.create symbol span).grammar.symbols =
      InsertionOrder.insert extraction.grammar.symbols symbol :=
  Grammar.symbols_setAlternatives _ _

theorem start_create (extraction : SpanExtraction) (symbol : Symbol) (span : Alternative) :
    (extraction.create symbol span).grammar.start = extraction.grammar.start :=
  Grammar.start_setAlternatives _ _

theorem alternatives_create {extraction : SpanExtraction} {symbol : Symbol}
    (nonterminal : symbol.isNonterminal) (span : Alternative) (other : Symbol) :
    (extraction.create symbol span).grammar.alternatives other =
      if other = symbol then InsertionOrder.insert (extraction.grammar.alternatives symbol) span
      else extraction.grammar.alternatives other := by
  rw [← Symbol.not_isTerminal, Bool.not_eq_true'] at nonterminal
  split
  · next same =>
      rw [same]
      exact Grammar.alternatives_setAlternatives_self _ nonterminal _
  · next different => exact Grammar.alternatives_setAlternatives_of_ne _ different _

theorem grows_create (sound : extraction.IsSound) {symbol : Symbol} {span : Alternative}
    (nonterminal : symbol.isNonterminal) (bulk_name : bulk symbol.name = 2 + span.weight)
    (fresh : symbol ∉ extraction.grammar.symbols)
    (known : ∀ occurrence ∈ span, occurrence.symbol ∈ extraction.grammar.symbols) :
    Grows extraction [] [(symbol, span)] (extraction.create symbol span) := by
  have not_terminal : symbol.isTerminal = false := by
    rw [← Bool.not_eq_true', Symbol.not_isTerminal]
    exact nonterminal
  have alternatives_self :
      (extraction.create symbol span).grammar.alternatives symbol = [span] := by
    rw [alternatives_create nonterminal, if_pos rfl, sound.alternatives_eq_nil fresh]
    rfl
  exact {
    sound.wellFormed := (sound.wellFormed.intern symbol).addAlternative
      (InsertionOrder.mem_insert.2 (.inr rfl)) fun occurrence occurrence_mem =>
        InsertionOrder.mem_insert.2 (.inl (known occurrence occurrence_mem))
    sound.span_mem := by
      intro entry entry_mem
      rw [symbols_create, InsertionOrder.mem_insert]
      rcases List.mem_append.1 entry_mem with old | new
      · exact .inl (sound.span_mem entry old)
      · exact .inr (List.mem_singleton.1 new ▸ rfl)
    spans_eq := rfl
    symbols_subset := fun other other_mem => by
      rw [symbols_create]
      exact InsertionOrder.mem_insert.2 (.inl other_mem)
    created_nodup := List.nodup_singleton symbol
    created_new := List.forall_mem_singleton.2 fresh
    created_target := List.forall_mem_singleton.2 ⟨nonterminal, bulk_name, alternatives_self⟩
    alternatives_eq := by
      intro other old _
      rw [List.map_singleton, List.mem_singleton] at old
      rw [alternatives_create nonterminal, if_neg old]
    grammar_eq := by
      rw [create, Grammar.addAlternative, Grammar.setAlternatives, if_neg (by simp [not_terminal])]
      rfl }

theorem extract_grows (sound : extraction.IsSound) {span : Alternative}
    (two_le_length : 2 ≤ span.length)
    (known : ∀ occurrence ∈ span, occurrence.symbol ∈ extraction.grammar.symbols) :
    ∃ created, Grows extraction [] created (extraction.extract span).2 ∧
      (extraction.extract span).2.Stands span (extraction.extract span).1 := by
  have free := taken_firstFree
    (fun name => (⟨name, .nonterminal⟩ : Symbol) ∈ extraction.grammar.symbols &&
      !extraction.standsFor span ⟨name, .nonterminal⟩)
    extraction.grammar.symbols.length span.spanName (extraction.grammar.symbols.map Symbol.name)
    (fun other taken _ => List.mem_map.2
      ⟨_, of_decide_eq_true (Bool.and_eq_true_iff.1 taken).1, rfl⟩)
    (by simp)
  have bulk_name := bulk_firstFree
    (fun name => (⟨name, .nonterminal⟩ : Symbol) ∈ extraction.grammar.symbols &&
      !extraction.standsFor span ⟨name, .nonterminal⟩)
    extraction.grammar.symbols.length span.spanName
  rw [Alternative.bulk_spanName] at bulk_name
  rw [extract]
  dsimp only
  generalize firstFree _ _ _ = name at free bulk_name
  have nonterminal : (⟨name, .nonterminal⟩ : Symbol).isNonterminal := rfl
  split
  · next mem =>
      have standsFor : extraction.standsFor span ⟨name, .nonterminal⟩ := by
        simpa [mem] using free
      exact ⟨[], .refl sound, two_le_length, mem, nonterminal, bulk_name, standsFor⟩
  · next fresh =>
      have grows := grows_create sound nonterminal bulk_name fresh known
      have created_mem := grows.created_mem List.mem_cons_self
      refine ⟨_, grows, two_le_length, created_mem, nonterminal, bulk_name, ?_⟩
      rw [standsFor, List.lookup_append, sound.lookup_eq_none fresh]
      simp

theorem shorten_grows (brackets : List TerminalPair) (sound : extraction.IsSound)
    {alternative : Alternative} (skip : Nat)
    (known : ∀ occurrence ∈ alternative, occurrence.symbol ∈ extraction.grammar.symbols) :
    ∃ created, Grows extraction [] created (extraction.shorten brackets skip alternative).2 ∧
      Folds brackets (extraction.shorten brackets skip alternative).2.Stands
        (alternative.drop skip) (extraction.shorten brackets skip alternative).1 := by
  induction alternative generalizing extraction skip with
  | nil =>
      rw [shorten, List.drop_nil]
      exact ⟨[], .refl sound, .nil⟩
  | cons occurrence rest ih =>
      rw [List.forall_mem_cons] at known
      cases skip with
      | succ skip => exact ih sound skip known.2
      | zero =>
          rw [shorten]
          split
          · next length found =>
              obtain ⟨closing, after, drop_eq, bracketed⟩ := exists_drop_of_spanLength? found
              obtain ⟨first, grows, stands⟩ :=
                extract_grows sound (two_le_length_of_spanLength? found) fun occurrence mem =>
                  known.2 occurrence (List.mem_of_mem_take mem)
              obtain ⟨further, grows_on, folds⟩ := ih grows.sound length fun occurrence mem =>
                grows.symbols_subset (known.2 occurrence mem)
              refine ⟨first ++ further, grows.trans grows_on, ?_⟩
              -- What is left behind the span starts with the return that closes it.
              have split_eq : rest = rest.take length ++ closing :: after := by
                rw [← drop_eq, List.take_append_drop]
              rw [drop_eq] at folds
              have folded := Folds.fold bracketed (grows_on.stands stands) folds
              rwa [← split_eq] at folded
          · obtain ⟨created, grows, folds⟩ := ih sound 0 known.2
            exact ⟨created, grows, .keep occurrence folds⟩

/-- Shortens the given alternatives one after the other, with those that are finished. -/
def shortenEach (brackets : List TerminalPair) (finished : List Alternative)
    (extraction : SpanExtraction) (alternatives : List Alternative) :
    List Alternative × SpanExtraction :=
  alternatives.foldl
    (fun (finished, extraction) alternative =>
      let (shortened, extraction) := extraction.shorten brackets 0 alternative
      (InsertionOrder.insert finished shortened, extraction))
    (finished, extraction)

theorem shortenEach_cons (finished : List Alternative) (alternative : Alternative)
    (rest : List Alternative) :
    shortenEach brackets finished extraction (alternative :: rest) =
      shortenEach brackets
        (InsertionOrder.insert finished (extraction.shorten brackets 0 alternative).1)
        (extraction.shorten brackets 0 alternative).2 rest :=
  rfl

theorem shortenEach_grows (brackets : List TerminalPair) (sound : extraction.IsSound)
    {sources finished : List Alternative}
    (folds : FoldsEach brackets extraction.Stands sources finished) (nodup : finished.Nodup)
    {alternatives : List Alternative}
    (known : ∀ alternative ∈ alternatives, ∀ occurrence ∈ alternative,
      occurrence.symbol ∈ extraction.grammar.symbols) :
    ∃ created,
      Grows extraction [] created (shortenEach brackets finished extraction alternatives).2 ∧
      FoldsEach brackets (shortenEach brackets finished extraction alternatives).2.Stands
        (sources ++ alternatives) (shortenEach brackets finished extraction alternatives).1 ∧
      (shortenEach brackets finished extraction alternatives).1.Nodup := by
  induction alternatives generalizing extraction sources finished with
  | nil =>
      rw [List.append_nil]
      exact ⟨[], .refl sound, folds, nodup⟩
  | cons alternative rest ih =>
      rw [List.forall_mem_cons] at known
      obtain ⟨first, grows, folds_next⟩ := shorten_grows brackets sound 0 known.1
      rw [shortenEach_cons]
      generalize extraction.shorten brackets 0 alternative = shortened at grows folds_next
      have folds_now := (folds.mono fun _ _ => grows.stands).insert folds_next
      have known_still : ∀ alternative ∈ rest, ∀ occurrence ∈ alternative,
          occurrence.symbol ∈ shortened.2.grammar.symbols :=
        fun alternative mem occurrence occurrence_mem =>
          grows.symbols_subset (known.2 alternative mem occurrence occurrence_mem)
      obtain ⟨further, grows_on, folds_all, nodup_all⟩ := ih grows.sound folds_now
        (InsertionOrder.nodup_insert nodup shortened.1) known_still
      rw [List.append_assoc] at folds_all
      exact ⟨first ++ further, grows.trans grows_on, folds_all, nodup_all⟩

/-- The extraction with other alternatives for one nonterminal of the grammar under way. -/
def withAlternatives (extraction : SpanExtraction) (symbol : Symbol)
    (alternatives : List Alternative) : SpanExtraction :=
  { extraction with grammar := extraction.grammar.setAlternatives symbol alternatives }

theorem shortenRule_eq (symbol : Symbol) :
    extraction.shortenRule brackets symbol =
      let shortened := shortenEach brackets [] (extraction.withAlternatives symbol [])
        (extraction.grammar.alternatives symbol)
      shortened.2.withAlternatives symbol shortened.1 :=
  rfl

section WithAlternatives

variable {symbol : Symbol}

theorem symbols_withAlternatives (alternatives : List Alternative) :
    (extraction.withAlternatives symbol alternatives).grammar.symbols =
      extraction.grammar.symbols :=
  Grammar.symbols_setAlternatives symbol alternatives

theorem start_withAlternatives (extraction : SpanExtraction) (symbol : Symbol)
    (alternatives : List Alternative) :
    (extraction.withAlternatives symbol alternatives).grammar.start = extraction.grammar.start :=
  Grammar.start_setAlternatives symbol alternatives

theorem alternatives_withAlternatives_self (nonterminal : symbol.isNonterminal)
    (alternatives : List Alternative) :
    (extraction.withAlternatives symbol alternatives).grammar.alternatives symbol =
      alternatives := by
  refine Grammar.alternatives_setAlternatives_self _ ?_ alternatives
  rw [← Bool.not_eq_true', Symbol.not_isTerminal]
  exact nonterminal

theorem alternatives_withAlternatives_of_ne {other : Symbol} (different : other ≠ symbol)
    (alternatives : List Alternative) :
    (extraction.withAlternatives symbol alternatives).grammar.alternatives other =
      extraction.grammar.alternatives other :=
  Grammar.alternatives_setAlternatives_of_ne _ different alternatives

theorem withAlternatives_grammar_eq (alternatives : List Alternative) :
    (extraction.withAlternatives symbol alternatives).grammar =
      { extraction.grammar with
        rules := (extraction.withAlternatives symbol alternatives).grammar.rules } := by
  rw [withAlternatives, Grammar.setAlternatives]
  split <;> rfl

theorem IsSound.withAlternatives (sound : extraction.IsSound)
    (known : symbol ∈ extraction.grammar.symbols) {alternatives : List Alternative}
    (nodup : alternatives.Nodup)
    (mentioned : ∀ alternative ∈ alternatives, ∀ occurrence ∈ alternative,
      occurrence.symbol ∈ extraction.grammar.symbols) :
    (extraction.withAlternatives symbol alternatives).IsSound where
  wellFormed := sound.wellFormed.setAlternatives known nodup mentioned
  span_mem entry entry_mem := by
    rw [symbols_withAlternatives]
    exact sound.span_mem entry entry_mem

variable {middle : SpanExtraction} {created : List (Symbol × Alternative)}

/-- Putting a rule back, with other alternatives, that was taken out before the extraction grew. -/
theorem Grows.withAlternatives
    (grows : Grows (extraction.withAlternatives symbol []) [] created middle)
    (known : symbol ∈ extraction.grammar.symbols) {alternatives : List Alternative}
    (sound : (middle.withAlternatives symbol alternatives).IsSound) :
    Grows extraction [symbol] created (middle.withAlternatives symbol alternatives) where
  sound := sound
  spans_eq := grows.spans_eq
  symbols_subset other other_mem := by
    rw [symbols_withAlternatives]
    exact grows.symbols_subset (by rwa [symbols_withAlternatives])
  created_nodup := grows.created_nodup
  created_new entry entry_mem := by
    have new := grows.created_new entry entry_mem
    rwa [symbols_withAlternatives] at new
  created_target entry entry_mem := by
    obtain ⟨nonterminal, bulk_name, alternatives_eq⟩ := grows.created_target entry entry_mem
    have different : entry.1 ≠ symbol := by
      rintro rfl
      exact grows.created_new entry entry_mem (by rwa [symbols_withAlternatives])
    refine ⟨nonterminal, bulk_name, ?_⟩
    rwa [alternatives_withAlternatives_of_ne different]
  alternatives_eq other old different := by
    rw [List.mem_singleton] at different
    rw [alternatives_withAlternatives_of_ne different,
      grows.alternatives_eq other old List.not_mem_nil,
      alternatives_withAlternatives_of_ne different]
  grammar_eq := by
    rw [withAlternatives_grammar_eq, grows.grammar_eq, withAlternatives_grammar_eq]

/-- The nonterminal whose rule is taken out stands for no span that it was not created for. -/
theorem Grows.chosen_of_stands
    (grows : Grows (extraction.withAlternatives symbol []) [] created middle)
    (sound : (extraction.withAlternatives symbol []).IsSound) (nonterminal : symbol.isNonterminal)
    {span : Alternative} {target : Symbol} (stands : middle.Stands span target) :
    middle.spans.lookup target = some span ∨
      target ≠ symbol ∧ extraction.grammar.alternatives target = [span] := by
  have standsFor := stands.standsFor
  rw [SpanExtraction.standsFor] at standsFor
  split at standsFor
  · next own found =>
      rw [of_decide_eq_true standsFor] at found
      exact .inl found
  · next unlisted =>
      have old : target ∉ created.map Prod.fst := by
        intro target_mem
        obtain ⟨entry, entry_mem, rfl⟩ := List.mem_map.1 target_mem
        rw [grows.lookup_created sound entry_mem] at unlisted
        cases unlisted
      have target_eq := of_decide_eq_true standsFor
      rw [grows.alternatives_eq target old List.not_mem_nil] at target_eq
      have different : target ≠ symbol := by
        rintro rfl
        rw [alternatives_withAlternatives_self nonterminal] at target_eq
        cases target_eq
      rw [alternatives_withAlternatives_of_ne different] at target_eq
      exact .inr ⟨different, target_eq⟩

end WithAlternatives

/--
Shortening a rule changes this rule alone. Its alternatives are folded with nonterminals that were
created for their spans or have them as rules of their own.
-/
theorem shortenRule_grows (brackets : List TerminalPair) (sound : extraction.IsSound)
    {symbol : Symbol} (known : symbol ∈ extraction.grammar.symbols)
    (nonterminal : symbol.isNonterminal) :
    ∃ created, Grows extraction [symbol] created (extraction.shortenRule brackets symbol) ∧
      FoldsEach brackets (fun span target => target.isNonterminal ∧
          bulk target.name = 2 + span.weight ∧
          ((extraction.shortenRule brackets symbol).spans.lookup target = some span ∨
            target ≠ symbol ∧ extraction.grammar.alternatives target = [span]))
        (extraction.grammar.alternatives symbol)
        ((extraction.shortenRule brackets symbol).grammar.alternatives symbol) := by
  have sound_without : (extraction.withAlternatives symbol []).IsSound :=
    sound.withAlternatives known List.nodup_nil fun _ mem => absurd mem List.not_mem_nil
  have mentioned : ∀ alternative ∈ extraction.grammar.alternatives symbol,
      ∀ occurrence ∈ alternative,
        occurrence.symbol ∈ (extraction.withAlternatives symbol []).grammar.symbols := by
    intro alternative mem occurrence occurrence_mem
    rw [symbols_withAlternatives]
    exact sound.wellFormed.mentioned_mem mem occurrence_mem
  obtain ⟨created, grows, folds, nodup⟩ :=
    shortenEach_grows brackets sound_without FoldsEach.nil List.nodup_nil mentioned
  rw [shortenRule_eq]
  generalize shortenEach _ _ _ _ = shortened at grows folds nodup
  rcases shortened with ⟨finished, middle⟩
  rw [List.nil_append] at folds
  refine ⟨created, grows.withAlternatives known ?_, ?_⟩
  · have known_still : symbol ∈ middle.grammar.symbols :=
      grows.symbols_subset (by rwa [symbols_withAlternatives])
    refine grows.sound.withAlternatives known_still nodup fun after after_mem occurrence mem => ?_
    obtain ⟨before, before_mem, folds⟩ := folds.backward after after_mem
    rcases folds.mem_after mem with old | ⟨span, target, stands, _, rfl⟩
    · exact grows.symbols_subset (mentioned before before_mem occurrence old)
    · exact stands.mem
  · rw [alternatives_withAlternatives_self nonterminal]
    exact folds.mono fun span target stands => ⟨stands.isNonterminal, stands.bulk_name,
      grows.chosen_of_stands sound_without nonterminal stands⟩

end SpanExtraction

end VisiblyPushdown
