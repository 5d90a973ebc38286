import VisiblyPushdown.Proofs.FoldedRecursion

/-!
# Occurrences of terminals

A grammar uses an occurrence when it stands in an alternative within reach of the start symbol. The
passes that rewrite rules leave the used occurrences of terminals alone, together with their marks.

Unwinding drops leading occurrences of nonterminals and adds occurrences of new ones, which stand
for what was behind the dropped ones. Folding moves the symbols of a span into a nonterminal that
stands for the span. This nonterminal may be an old one that was out of reach before, but then its
only alternative is a span of the original grammar, so nothing comes within reach that was not
used already. In the other direction a symbol of a span is found again by going into the span, as
often as the rules of spans are folded themselves; the spans get lighter on the way.
-/

namespace VisiblyPushdown

namespace Grammar

/-- Whether an occurrence stands in an alternative within reach of the start symbol. -/
def Uses (grammar : Grammar) (occurrence : Occurrence) : Prop :=
  ∃ symbol, grammar.Reaches grammar.start symbol ∧
    ∃ alternative ∈ grammar.alternatives symbol, occurrence ∈ alternative

/-- Whether a terminal stands in an alternative within reach, with or without a mark. -/
def UsesTerminal (grammar : Grammar) (terminal : Symbol) : Prop :=
  terminal.isTerminal ∧ ∃ occurrence, grammar.Uses occurrence ∧ occurrence.symbol = terminal

variable {grammar : Grammar} {symbol : Symbol} {alternative : Alternative}
  {occurrence : Occurrence}

theorem uses_iff_exists_mem_reachableAlternatives :
    grammar.Uses occurrence ↔
      ∃ alternative ∈ grammar.reachableAlternatives, occurrence ∈ alternative := by
  simp only [Uses, reachableAlternatives, List.mem_flatMap, mem_reachable]
  constructor
  · rintro ⟨symbol, reached, alternative, mem, occurrence_mem⟩
    exact ⟨alternative, ⟨symbol, reached, mem⟩, occurrence_mem⟩
  · rintro ⟨alternative, ⟨symbol, reached, mem⟩, occurrence_mem⟩
    exact ⟨symbol, reached, alternative, mem, occurrence_mem⟩

theorem mem_reachableTerminals_iff_usesTerminal {terminal : Symbol} :
    terminal ∈ grammar.reachableTerminals ↔ grammar.UsesTerminal terminal := by
  simp only [mem_reachableTerminals, UsesTerminal, uses_iff_exists_mem_reachableAlternatives]
  apply and_congr_right
  intro kind
  constructor
  · rintro ⟨alternative, mem, occurrence, occurrence_mem, rfl⟩
    exact ⟨occurrence, ⟨alternative, mem, occurrence_mem⟩, rfl⟩
  · rintro ⟨occurrence, ⟨alternative, mem, occurrence_mem⟩, rfl⟩
    exact ⟨alternative, mem, occurrence, occurrence_mem, rfl⟩

theorem Uses.reaches (uses : grammar.Uses occurrence)
    (nonterminal : occurrence.symbol.isNonterminal) :
    grammar.Reaches grammar.start occurrence.symbol := by
  rcases uses with ⟨symbol, reached, alternative, mem, occurrence_mem⟩
  exact reached.tail ⟨nonterminal, alternative, mem, occurrence, occurrence_mem, rfl⟩

/-- Tagging leaves start symbol and rules alone. -/
theorem uses_tag (grammar : Grammar) (dropRejected : Bool) (occurrence : Occurrence) :
    (grammar.tag dropRejected).Uses occurrence ↔ grammar.Uses occurrence :=
  Iff.rfl

section Unwinding

/-- Whether a symbol is another one or the new nonterminal through which that one was unwound. -/
def Continues (unwound : List Symbol) (again : Symbol → Symbol) (head symbol : Symbol) : Prop :=
  symbol = head ∨ head ∈ unwound ∧ symbol = again head

variable {original current : Grammar} {unwound : List Symbol} {again : Symbol → Symbol}

namespace IsUnwinding

variable (unwinding : original.IsUnwinding unwound again current)

include unwinding

/-- What a rule mentions after unwinding is new or comes from the rule before. -/
theorem again_or_source {head : Symbol} (known : head ∈ original.symbols)
    (continues : Continues unwound again head symbol)
    (mem : alternative ∈ current.alternatives symbol) (occurrence_mem : occurrence ∈ alternative) :
    (head ∈ unwound ∧ occurrence = .bare (again head)) ∨
      ∃ source ∈ original.alternatives head, occurrence ∈ source := by
  by_cases unwound_mem : head ∈ unwound
  · have appended {body : Alternative} (body_mem : occurrence ∈ body ++ [.bare (again head)])
        (source : occurrence ∈ body → ∃ source ∈ original.alternatives head, occurrence ∈ source) :
        (head ∈ unwound ∧ occurrence = .bare (again head)) ∨
          ∃ source ∈ original.alternatives head, occurrence ∈ source := by
      rcases List.mem_append.1 body_mem with old | last
      · exact .inr (source old)
      · exact .inl ⟨unwound_mem, List.mem_singleton.1 last⟩
    rcases continues with rfl | ⟨_, rfl⟩
    · rw [unwinding.alternatives_unwound symbol unwound_mem, mem_heads] at mem
      rcases mem with ⟨based, based_mem, _, rfl⟩ | ⟨_, rfl⟩
      · exact appended occurrence_mem fun old => ⟨based, based_mem, old⟩
      · exact .inl ⟨unwound_mem, List.mem_singleton.1 occurrence_mem⟩
    · rw [unwinding.alternatives_again head unwound_mem, mem_continuations] at mem
      rcases mem with ⟨recursive, recursive_mem, _, rfl⟩ | rfl
      · apply appended occurrence_mem
        exact fun old => ⟨recursive, recursive_mem, List.mem_of_mem_tail old⟩
      · cases occurrence_mem
  · rcases continues with rfl | ⟨unwound_mem', _⟩
    · rw [unwinding.alternatives_pending known unwound_mem] at mem
      exact .inr ⟨alternative, mem, occurrence_mem⟩
    · exact absurd unwound_mem' unwound_mem

theorem exists_reaches_original (wellFormed : original.WellFormed)
    (start_eq : current.start = original.start)
    (reached : current.Reaches current.start symbol) :
    ∃ head, original.Reaches original.start head ∧ Continues unwound again head symbol := by
  induction reached with
  | refl => exact ⟨original.start, .refl, .inl start_eq⟩
  | tail _ mentions ih =>
      rcases ih with ⟨head, head_reached, continues⟩
      rcases mentions with ⟨nonterminal, alternative, mem, occurrence, occurrence_mem, rfl⟩
      have known := (wellFormed.reaches_mem head_reached).1
      rcases unwinding.again_or_source known continues mem occurrence_mem with
        ⟨unwound_mem, rfl⟩ | ⟨source, source_mem, old⟩
      · exact ⟨head, head_reached, .inr ⟨unwound_mem, rfl⟩⟩
      · refine ⟨occurrence.symbol, head_reached.tail ?_, .inl rfl⟩
        exact ⟨nonterminal, source, source_mem, occurrence, old, rfl⟩

theorem uses_original (wellFormed : original.WellFormed)
    (start_eq : current.start = original.start) (terminal : occurrence.symbol.isTerminal)
    (uses : current.Uses occurrence) : original.Uses occurrence := by
  rcases uses with ⟨symbol, reached, alternative, mem, occurrence_mem⟩
  rcases unwinding.exists_reaches_original wellFormed start_eq reached with
    ⟨head, head_reached, continues⟩
  have known := (wellFormed.reaches_mem head_reached).1
  rcases unwinding.again_or_source known continues mem occurrence_mem with
    ⟨unwound_mem, rfl⟩ | ⟨source, source_mem, old⟩
  · have nonterminal := unwinding.again_isNonterminal head unwound_mem
    rw [← Symbol.not_isTerminal] at nonterminal
    simp_all [Occurrence.bare]
  · exact ⟨head, head_reached, source, source_mem, old⟩

theorem reaches_again {head : Symbol} (unwound_mem : head ∈ unwound) :
    current.Reaches head (again head) := by
  have mentions (alternative : Alternative) (mem : alternative ∈ original.heads head (again head))
      (last_mem : .bare (again head) ∈ alternative) : current.Reaches head (again head) := by
    rw [← unwinding.alternatives_unwound head unwound_mem] at mem
    have nonterminal := unwinding.again_isNonterminal head unwound_mem
    exact .single ⟨nonterminal, alternative, mem, _, last_mem, rfl⟩
  by_cases grounding : ∀ other ∈ original.alternatives head, other.startsWith head
  · exact mentions [.bare (again head)] (mem_heads.2 (.inr ⟨grounding, rfl⟩)) (by simp)
  · simp only [not_forall] at grounding
    rcases grounding with ⟨based, based_mem, starts⟩
    exact mentions (based ++ [.bare (again head)])
      (mem_heads.2 (.inl ⟨based, based_mem, starts, rfl⟩)) (by simp)

/-- Only leading occurrences of the head itself are lost. -/
theorem exists_current {head : Symbol} (known : head ∈ original.symbols) {source : Alternative}
    (source_mem : source ∈ original.alternatives head) (occurrence_mem : occurrence ∈ source) :
    occurrence.symbol = head ∨ ∃ symbol, current.Reaches head symbol ∧
      ∃ alternative ∈ current.alternatives symbol, occurrence ∈ alternative := by
  by_cases unwound_mem : head ∈ unwound
  · by_cases starts : source.startsWith head
    · rcases source with _ | ⟨lead, rest⟩
      · cases occurrence_mem
      · rcases List.mem_cons.1 occurrence_mem with rfl | later
        · exact .inl (by simpa [Alternative.startsWith] using starts)
        · refine .inr ⟨again head, unwinding.reaches_again unwound_mem,
            rest ++ [.bare (again head)], ?_, List.mem_append_left _ later⟩
          rw [unwinding.alternatives_again head unwound_mem, mem_continuations]
          exact .inl ⟨lead :: rest, source_mem, starts, rfl⟩
    · refine .inr ⟨head, .refl, source ++ [.bare (again head)], ?_,
        List.mem_append_left _ occurrence_mem⟩
      rw [unwinding.alternatives_unwound head unwound_mem, mem_heads]
      exact .inl ⟨source, source_mem, starts, rfl⟩
  · refine .inr ⟨head, .refl, source, ?_, occurrence_mem⟩
    rwa [unwinding.alternatives_pending known unwound_mem]

theorem reaches_current (wellFormed : original.WellFormed)
    (reached : original.Reaches original.start symbol) : current.Reaches original.start symbol := by
  induction reached with
  | refl => exact .refl
  | tail path mentions ih =>
      rcases mentions with ⟨nonterminal, source, source_mem, occurrence, occurrence_mem, rfl⟩
      rcases unwinding.exists_current (wellFormed.reaches_mem path).1 source_mem occurrence_mem with
        same | ⟨symbol, onward, alternative, mem, found⟩
      · exact same ▸ ih
      · exact (ih.trans onward).tail ⟨nonterminal, alternative, mem, occurrence, found, rfl⟩

theorem uses_current (wellFormed : original.WellFormed)
    (start_eq : current.start = original.start) (terminal : occurrence.symbol.isTerminal)
    (uses : original.Uses occurrence) : current.Uses occurrence := by
  rcases uses with ⟨head, reached, source, source_mem, occurrence_mem⟩
  rcases wellFormed.reaches_mem reached with ⟨known, nonterminal⟩
  rcases unwinding.exists_current known source_mem occurrence_mem with
    rfl | ⟨symbol, onward, alternative, mem, found⟩
  · rw [← Symbol.not_isTerminal, terminal] at nonterminal
    cases nonterminal
  · refine ⟨symbol, ?_, alternative, mem, found⟩
    rw [start_eq]
    exact (unwinding.reaches_current wellFormed reached).trans onward

end IsUnwinding

theorem uses_removeLeftRecursion (wellFormed : grammar.WellFormed)
    (terminal : occurrence.symbol.isTerminal) :
    grammar.removeLeftRecursion.1.Uses occurrence ↔ grammar.Uses occurrence := by
  rcases exists_isUnwinding_removeLeftRecursion wellFormed with ⟨again, unwinding⟩
  have start_eq := start_removeLeftRecursion grammar
  exact ⟨unwinding.uses_original wellFormed start_eq terminal,
    unwinding.uses_current wellFormed start_eq terminal⟩

theorem uses_withoutLeftRecursion (wellFormed : grammar.WellFormed)
    (terminal : occurrence.symbol.isTerminal) :
    grammar.withoutLeftRecursion.Uses occurrence ↔ grammar.Uses occurrence := by
  unfold withoutLeftRecursion
  split
  · exact uses_removeLeftRecursion wellFormed terminal
  · exact Iff.rfl

end Unwinding

section Folding

variable {original source folded : Grammar} {brackets : List TerminalPair}

/-- Whether a nonterminal stands for a span all of whose occurrences are used. -/
def StandsForUsed (original source folded : Grammar) (symbol : Symbol) : Prop :=
  ∃ span, source.StandsAround folded span symbol ∧ ∀ occurrence ∈ span, original.Uses occurrence

namespace FoldsTo

variable (foldsTo : original.FoldsTo source brackets folded)

include foldsTo

/-- What stands in a folded rule was used before, or stands for a span of that. -/
theorem uses_or_standsForUsed
    (within : original.Reaches original.start symbol ∨ StandsForUsed original source folded symbol)
    (mem : alternative ∈ folded.alternatives symbol) (occurrence_mem : occurrence ∈ alternative) :
    original.Uses occurrence ∨ ∃ target, occurrence = .bare target ∧ target.isNonterminal ∧
      StandsForUsed original source folded target := by
  rcases (foldsTo.folding symbol).backward alternative mem with ⟨before, before_mem, folds⟩
  have from_before (used : ∀ occurrence ∈ before, original.Uses occurrence) :
      original.Uses occurrence ∨ ∃ target, occurrence = .bare target ∧ target.isNonterminal ∧
        StandsForUsed original source folded target := by
    rcases folds.mem_after occurrence_mem with old | ⟨span, target, stands, subset, rfl⟩
    · exact .inl (used occurrence old)
    · refine .inr ⟨target, rfl, ?_, span, stands, fun inner inner_mem => used inner ?_⟩
      · exact stands.elim IsFoldTarget.isNonterminal IsFoldTarget.isNonterminal
      · exact subset inner_mem
  rcases within with reached | ⟨span, target | target, used⟩
  · apply from_before
    intro inner inner_mem
    rw [foldsTo.source_eq symbol reached] at before_mem
    exact ⟨symbol, reached, before, before_mem, inner_mem⟩
  · rw [target.alternatives_eq, List.mem_singleton] at before_mem
    exact from_before (before_mem ▸ used)
  -- The rule after folding is the span, and nothing of it is folded.
  · rw [target.alternatives_eq, List.mem_singleton] at mem
    exact .inl (used occurrence (mem ▸ occurrence_mem))

theorem reaches_or_standsForUsed (reached : folded.Reaches folded.start symbol) :
    original.Reaches original.start symbol ∨ StandsForUsed original source folded symbol := by
  induction reached with
  | refl => exact .inl (foldsTo.start_eq ▸ .refl)
  | tail _ mentions ih =>
      rcases mentions with ⟨nonterminal, alternative, mem, occurrence, occurrence_mem, rfl⟩
      rcases foldsTo.uses_or_standsForUsed ih mem occurrence_mem with
        uses | ⟨target, rfl, _, stands⟩
      · exact .inl (uses.reaches nonterminal)
      · exact .inr stands

theorem uses_original (terminal : occurrence.symbol.isTerminal) (uses : folded.Uses occurrence) :
    original.Uses occurrence := by
  rcases uses with ⟨symbol, reached, alternative, mem, occurrence_mem⟩
  rcases foldsTo.uses_or_standsForUsed (foldsTo.reaches_or_standsForUsed reached) mem
    occurrence_mem with uses | ⟨target, rfl, nonterminal, _⟩
  · exact uses
  · rw [← Symbol.not_isTerminal] at nonterminal
    simp_all [Occurrence.bare]

/-- The occurrences of a rule within reach are all used, by induction on the weight of the rule. -/
theorem uses_folded_of_mem_source (reached : folded.Reaches folded.start symbol)
    {before : Alternative} (before_mem : before ∈ source.alternatives symbol)
    (occurrence_mem : occurrence ∈ before) : folded.Uses occurrence := by
  induction bound : before.weight using Nat.strong_induction_on generalizing symbol before with
  | h bound_value ih =>
      rcases (foldsTo.folding symbol).forward before before_mem with ⟨after, after_mem, folds⟩
      rcases folds.mem_before occurrence_mem with
        kept | ⟨span, target, stands, target_mem, inside, lighter⟩
      · exact ⟨symbol, reached, after, after_mem, kept⟩
      · have nonterminal := stands.elim IsFoldTarget.isNonterminal IsFoldTarget.isNonterminal
        have target_reached : folded.Reaches folded.start target :=
          reached.tail ⟨nonterminal, after, after_mem, _, target_mem, rfl⟩
        rcases stands with target_source | target_folded
        · apply ih span.weight (bound ▸ lighter) target_reached _ inside rfl
          simp [target_source.alternatives_eq]
        · exact ⟨target, target_reached, span, by simp [target_folded.alternatives_eq], inside⟩

theorem reaches_folded (reached : original.Reaches original.start symbol) :
    folded.Reaches folded.start symbol := by
  induction reached with
  | refl => exact foldsTo.start_eq ▸ .refl
  | tail path mentions ih =>
      rcases mentions with ⟨nonterminal, before, before_mem, occurrence, occurrence_mem, rfl⟩
      rw [← foldsTo.source_eq _ path] at before_mem
      exact (foldsTo.uses_folded_of_mem_source ih before_mem occurrence_mem).reaches nonterminal

/-- Folding loses no occurrence, not even one of a nonterminal. -/
theorem uses_folded (uses : original.Uses occurrence) : folded.Uses occurrence := by
  rcases uses with ⟨symbol, reached, before, before_mem, occurrence_mem⟩
  rw [← foldsTo.source_eq symbol reached] at before_mem
  exact foldsTo.uses_folded_of_mem_source (foldsTo.reaches_folded reached) before_mem occurrence_mem

end FoldsTo

theorem uses_toSimpleForm (wellFormed : grammar.WellFormed) (tagged : grammar.TagsTerminals)
    (terminal : occurrence.symbol.isTerminal) :
    grammar.toSimpleForm.1.Uses occurrence ↔ grammar.Uses occurrence := by
  rcases exists_foldsTo_toSimpleForm wellFormed tagged with ⟨_, foldsTo⟩
  exact ⟨foldsTo.uses_original terminal, foldsTo.uses_folded⟩

end Folding

end Grammar

/-- An analysis neither adds nor loses an occurrence of a terminal. -/
theorem Settings.uses_analyze (settings : Settings) {grammar : Grammar}
    (wellFormed : grammar.WellFormed) {occurrence : Occurrence}
    (terminal : occurrence.symbol.isTerminal) :
    (settings.analyze grammar).grammar.Uses occurrence ↔ grammar.Uses occurrence := by
  change (settings.tag grammar).grammar.Uses occurrence ↔ _
  rw [grammar_tag, ← Grammar.uses_withoutLeftRecursion wellFormed terminal]
  split
  · have known := wellFormed.withoutLeftRecursion.tag settings.removeContradictions
    rw [Grammar.uses_toSimpleForm known (Grammar.tagsTerminals_tag _ _) terminal, Grammar.uses_tag]
  · exact Grammar.uses_tag _ _ _

theorem Settings.usesTerminal_analyze (settings : Settings) {grammar : Grammar}
    (wellFormed : grammar.WellFormed) (terminal : Symbol) :
    (settings.analyze grammar).grammar.UsesTerminal terminal ↔ grammar.UsesTerminal terminal := by
  apply and_congr_right
  intro kind
  apply exists_congr
  intro occurrence
  apply and_congr_left
  rintro rfl
  exact settings.uses_analyze wellFormed kind

end VisiblyPushdown
