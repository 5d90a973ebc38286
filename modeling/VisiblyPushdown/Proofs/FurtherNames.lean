import VisiblyPushdown.Proofs.Draining
import VisiblyPushdown.Proofs.PrimedNames

/-!
# Names of further nonterminals

Rules for further names cannot be reached from the rules of a description that declares all that it
mentions, but simple form looks for the names of spans in the whole table. It takes an old
nonterminal for a span if the name and the rule are right, and when nothing reached that nonterminal
before, its rule is not shortened in turn. Recursion behind it that the shortened rule would put
between brackets is then found to be loose.

Apart from the names that are introduced against left recursion, nothing else about further
nonterminals counts. As long as none of them has a name that is tried for a span, simple form goes
the same way with them as without them, step by step, and the verdict is the same.
-/

namespace VisiblyPushdown

theorem Alternative.prefix_spanName (span : Alternative) :
    "_L".toList <+: span.spanName.toList := by
  have extended (name : String) (span : Alternative) : name.toList <+: (span.foldl
      (fun name occurrence =>
        name ++ "_" ++ occurrence.symbol.name ++ occurrence.repetition.tag) name).toList := by
    induction span generalizing name with
    | nil => exact List.prefix_rfl
    | cons occurrence span ih =>
        have longer := ih (name ++ "_" ++ occurrence.symbol.name ++ occurrence.repetition.tag)
        simp only [String.toList_append, List.append_assoc] at longer
        exact (List.prefix_append _ _).trans longer
  exact extended "_L" span

/-- A prime at the end does not make a name begin like that of a span. -/
theorem prefix_of_prefix_primed {name : String} (begins : "_L".toList <+: (name ++ "'").toList) :
    "_L".toList <+: name.toList := by
  rw [String.toList_append, show "'".toList = ['\''] from rfl, List.prefix_concat_iff] at begins
  rcases begins with same | begins
  · have last := congrArg List.getLast? same
    rw [List.getLast?_concat] at last
    cases last
  · exact begins

namespace SpanExtraction

/-- The names that are tried for a span. -/
def triedNames (extraction : SpanExtraction) (span : Alternative) : List String :=
  VisiblyPushdown.triedNames (extraction.isTaken span) extraction.grammar.symbols.length
    span.spanName

/-- The names that are tried for the spans of some moves, one move after the other. -/
def triedForMoves (extraction : SpanExtraction) : List Move → List String
  | [] => []
  | move :: moves =>
    extraction.triedNames move.span ++ (extraction.perform move).triedForMoves moves

/-- The names that are tried in some visits, one visit after the other. -/
def triedForVisits (extraction : SpanExtraction) : List Visit → List String
  | [] => []
  | visit :: visits =>
    (extraction.withAlternatives visit.symbol []).triedForMoves visit.moves ++
      (extraction.replay visit).triedForVisits visits

theorem triedForMoves_append (extraction : SpanExtraction) (moves later : List Move) :
    extraction.triedForMoves (moves ++ later) =
      extraction.triedForMoves moves ++ (moves.foldl perform extraction).triedForMoves later := by
  induction moves generalizing extraction with
  | nil => rfl
  | cons move moves ih =>
      rw [List.cons_append, triedForMoves, triedForMoves, ih, List.append_assoc, List.foldl_cons]

theorem prefix_of_mem_triedForMoves {extraction : SpanExtraction} {moves : List Move}
    {name : String} (tried : name ∈ extraction.triedForMoves moves) :
    "_L".toList <+: name.toList := by
  induction moves generalizing extraction with
  | nil => cases tried
  | cons move moves ih =>
      rcases List.mem_append.1 tried with first | later
      · exact move.span.prefix_spanName.trans (prefix_of_mem_triedNames first)
      · exact ih later

theorem prefix_of_mem_triedForVisits {extraction : SpanExtraction} {visits : List Visit}
    {name : String} (tried : name ∈ extraction.triedForVisits visits) :
    "_L".toList <+: name.toList := by
  induction visits generalizing extraction with
  | nil => cases tried
  | cons visit visits ih =>
      rcases List.mem_append.1 tried with first | later
      · exact prefix_of_mem_triedForMoves first
      · exact ih later

/--
Whether two runs agree about everything but some further symbols, of which the first run knows none.
-/
structure Agree (further : Symbol → Prop) (left right : SpanExtraction) : Prop where
  start_eq : right.grammar.start = left.grammar.start
  spans_eq : right.spans = left.spans
  nodup : left.grammar.symbols.Nodup
  known : ∀ symbol ∈ left.grammar.symbols, ¬further symbol
  span_mem : ∀ entry ∈ left.spans, entry.1 ∈ left.grammar.symbols
  mem_iff : ∀ symbol, ¬further symbol →
    (symbol ∈ right.grammar.symbols ↔ symbol ∈ left.grammar.symbols)
  alternatives_eq : ∀ symbol, ¬further symbol →
    right.grammar.alternatives symbol = left.grammar.alternatives symbol

namespace Agree

variable {further : Symbol → Prop} {left right : SpanExtraction} {brackets : List TerminalPair}
  (agree : Agree further left right)

include agree

theorem symbols_subset : left.grammar.symbols ⊆ right.grammar.symbols :=
  fun symbol mem => (agree.mem_iff symbol (agree.known symbol mem)).2 mem

theorem isTaken_eq (span : Alternative) {name : String} (apart : ¬further ⟨name, .nonterminal⟩) :
    right.isTaken span name = left.isTaken span name := by
  rw [isTaken, isTaken, standsFor, standsFor, agree.spans_eq, agree.alternatives_eq _ apart]
  simp only [agree.mem_iff _ apart]

theorem withAlternatives (symbol : Symbol) (alternatives : List Alternative) :
    Agree further (left.withAlternatives symbol alternatives)
      (right.withAlternatives symbol alternatives) where
  start_eq := by
    rw [start_withAlternatives, start_withAlternatives]
    exact agree.start_eq
  spans_eq := agree.spans_eq
  nodup := by
    rw [symbols_withAlternatives]
    exact agree.nodup
  known := by
    rw [symbols_withAlternatives]
    exact agree.known
  span_mem := by
    rw [symbols_withAlternatives]
    exact agree.span_mem
  mem_iff := by
    rw [symbols_withAlternatives, symbols_withAlternatives]
    exact agree.mem_iff
  alternatives_eq := by
    intro other apart
    by_cases same : other = symbol
    · subst same
      by_cases nonterminal : other.isNonterminal
      · rw [alternatives_withAlternatives_self nonterminal,
          alternatives_withAlternatives_self nonterminal]
      · rw [← Symbol.not_isTerminal, Bool.not_eq_true', Bool.not_eq_false] at nonterminal
        simpa [SpanExtraction.withAlternatives, Grammar.setAlternatives, nonterminal] using
          agree.alternatives_eq other apart
    · rw [alternatives_withAlternatives_of_ne same, alternatives_withAlternatives_of_ne same]
      exact agree.alternatives_eq other apart

theorem create {symbol : Symbol} (nonterminal : symbol.isNonterminal) (apart : ¬further symbol)
    (span : Alternative) :
    Agree further (left.create symbol span) (right.create symbol span) where
  start_eq := by
    rw [start_create, start_create]
    exact agree.start_eq
  spans_eq := congrArg (· ++ [(symbol, span)]) agree.spans_eq
  nodup := by
    rw [symbols_create]
    exact InsertionOrder.nodup_insert agree.nodup symbol
  known := by
    intro other mem
    rw [symbols_create, InsertionOrder.mem_insert] at mem
    rcases mem with old | rfl
    · exact agree.known other old
    · exact apart
  span_mem := by
    intro entry mem
    rw [symbols_create, InsertionOrder.mem_insert]
    rcases List.mem_append.1 mem with old | new
    · exact .inl (agree.span_mem entry old)
    · exact .inr (List.mem_singleton.1 new ▸ rfl)
  mem_iff := by
    intro other other_apart
    rw [symbols_create, symbols_create, InsertionOrder.mem_insert, InsertionOrder.mem_insert,
      agree.mem_iff other other_apart]
  alternatives_eq := by
    intro other other_apart
    rw [alternatives_create nonterminal, alternatives_create nonterminal,
      agree.alternatives_eq symbol apart, agree.alternatives_eq other other_apart]

/-- A span gets the same nonterminal, when no further name is tried for it. -/
theorem extract (span : Alternative)
    (untried : ∀ name ∈ left.triedNames span, ¬further ⟨name, .nonterminal⟩) :
    (right.extract span).1 = (left.extract span).1 ∧
      Agree further (left.extract span).2 (right.extract span).2 := by
  have free : left.isTaken span (firstFree (left.isTaken span) left.grammar.symbols.length
      span.spanName) = false := by
    rcases left.tries_extract span with ⟨_, _, ends⟩
    rw [extract_eq] at ends
    exact ends.taken_eq_false
  have found_eq : firstFree (right.isTaken span) right.grammar.symbols.length span.spanName =
      firstFree (left.isTaken span) left.grammar.symbols.length span.spanName :=
    firstFree_congr (fun name tried => agree.isTaken_eq span (untried name tried)) free
      (agree.nodup.subperm agree.symbols_subset).length_le
  have apart := untried _ (firstFree_mem_triedNames _ _ _)
  rw [extract_eq, extract_eq, found_eq]
  dsimp only
  refine ⟨rfl, ?_⟩
  generalize firstFree _ _ _ = name at apart
  have mem_iff := agree.mem_iff _ apart
  by_cases known : (⟨name, .nonterminal⟩ : Symbol) ∈ left.grammar.symbols
  · rwa [if_pos known, if_pos (mem_iff.2 known)]
  · rw [if_neg known, if_neg (mt mem_iff.1 known)]
    exact agree.create rfl apart span

omit agree in
/-- An alternative is shortened in the same way, when no further name is tried for its spans. -/
theorem shorten (agree : Agree further left right) (before : Alternative) (skip : Nat)
    (alternative : Alternative)
    (untried : ∀ name ∈ left.triedForMoves (movesOf brackets before skip alternative),
      ¬further ⟨name, .nonterminal⟩) :
    (right.shorten brackets skip alternative).1 = (left.shorten brackets skip alternative).1 ∧
      Agree further (left.shorten brackets skip alternative).2
        (right.shorten brackets skip alternative).2 := by
  induction alternative generalizing left right before skip with
  | nil => exact ⟨rfl, agree⟩
  | cons occurrence rest ih =>
      cases skip with
      | succ skip => exact ih agree _ skip untried
      | zero =>
          cases found : spanLength? brackets occurrence.symbol rest with
          | none =>
              simp only [movesOf, SpanExtraction.shorten, found] at untried ⊢
              rcases ih agree _ 0 untried with ⟨shortened_eq, later⟩
              exact ⟨congrArg _ shortened_eq, later⟩
          | some length =>
              simp only [movesOf, SpanExtraction.shorten, found] at untried ⊢
              rw [triedForMoves, List.forall_mem_append] at untried
              rcases agree.extract (rest.take length) untried.1 with ⟨symbol_eq, next⟩
              rcases ih next _ length untried.2 with ⟨shortened_eq, later⟩
              rw [symbol_eq, shortened_eq]
              exact ⟨rfl, later⟩

omit agree in
theorem shortenEach (agree : Agree further left right) (finished alternatives : List Alternative)
    (untried : ∀ name ∈ left.triedForMoves (alternatives.flatMap (movesOf brackets [] 0)),
      ¬further ⟨name, .nonterminal⟩) :
    (SpanExtraction.shortenEach brackets finished right alternatives).1 =
        (SpanExtraction.shortenEach brackets finished left alternatives).1 ∧
      Agree further (SpanExtraction.shortenEach brackets finished left alternatives).2
        (SpanExtraction.shortenEach brackets finished right alternatives).2 := by
  induction alternatives generalizing left right finished with
  | nil => exact ⟨rfl, agree⟩
  | cons alternative rest ih =>
      rw [List.flatMap_cons, triedForMoves_append, foldl_perform_movesOf, List.forall_mem_append]
        at untried
      rcases agree.shorten [] 0 alternative untried.1 with ⟨shortened_eq, next⟩
      rw [shortenEach_cons, shortenEach_cons, shortened_eq]
      exact ih next _ untried.2

/-- A rule is shortened in the same way, when no further name is tried for its spans. -/
theorem shortenRule {symbol : Symbol} (apart : ¬further symbol)
    (untried : ∀ name ∈ (left.withAlternatives symbol []).triedForMoves
      (left.visit brackets symbol).moves, ¬further ⟨name, .nonterminal⟩) :
    Agree further (left.shortenRule brackets symbol) (right.shortenRule brackets symbol) := by
  rcases (agree.withAlternatives symbol []).shortenEach [] (left.grammar.alternatives symbol)
    untried with ⟨shortened_eq, later⟩
  rw [shortenRule_eq, shortenRule_eq, agree.alternatives_eq symbol apart]
  dsimp only
  rw [shortened_eq]
  exact later.withAlternatives symbol _

omit agree in
/-- The whole run goes the same way, when no further name is tried in it. -/
theorem shortenAll (agree : Agree further left right) (rules : Nat) (queue : List Symbol)
    (apart : ∀ symbol ∈ queue, ¬further symbol)
    (untried : ∀ name ∈ left.triedForVisits (left.trace brackets rules queue),
      ¬further ⟨name, .nonterminal⟩) :
    Agree further (left.shortenAll brackets rules queue)
      (right.shortenAll brackets rules queue) := by
  induction rules generalizing left right queue with
  | zero => exact agree
  | succ rules ih =>
      cases queue with
      | nil => exact agree
      | cons symbol queue =>
          rw [List.forall_mem_cons] at apart
          rw [trace, triedForVisits, replay_visit, List.forall_mem_append] at untried
          have next := agree.shortenRule apart.1 untried.1
          rw [SpanExtraction.shortenAll, SpanExtraction.shortenAll, next.spans_eq, agree.spans_eq]
          refine ih next _ ?_ untried.2
          rw [List.forall_mem_append, List.forall_mem_map]
          refine ⟨apart.2, fun entry mem => ?_⟩
          exact next.known _ (next.span_mem entry (List.mem_of_mem_drop mem))

end Agree

end SpanExtraction

namespace Grammar

open SpanExtraction

variable {part whole : Grammar}

/-- The names that are tried when a grammar is brought into simple form. -/
def triedNames (grammar : Grammar) : List String :=
  SpanExtraction.triedForVisits { grammar } grammar.visits

/-- Whether every name that is tried is in the own table if another grammar has it in its table. -/
def TriesOwnNames (part whole : Grammar) : Prop :=
  ∀ name ∈ part.triedNames, (⟨name, .nonterminal⟩ : Symbol) ∈ whole.symbols →
    (⟨name, .nonterminal⟩ : Symbol) ∈ part.symbols

instance (part whole : Grammar) : Decidable (part.TriesOwnNames whole) :=
  inferInstanceAs (Decidable (∀ name ∈ part.triedNames,
    (⟨name, .nonterminal⟩ : Symbol) ∈ whole.symbols →
      (⟨name, .nonterminal⟩ : Symbol) ∈ part.symbols))

theorem symbols_tag (grammar : Grammar) (dropRejected : Bool) :
    (grammar.tag dropRejected).symbols = grammar.symbols :=
  rfl

theorem IsTaggedLike.brackets_eq (like : part.IsTaggedLike whole) :
    part.brackets = whole.brackets := by
  rw [brackets, brackets, like.pairs_eq, like.calls_eq]

namespace IsPartOf

variable (partOf : part.IsPartOf whole) (wellFormed : part.WellFormed)

include partOf wellFormed

theorem reachable_eq : whole.reachable = part.reachable := by
  have pairs := (partOf.correspond wellFormed).reachable
  have same := pairs.imp fun _ _ pair => pair.1
  rw [List.forall₂_eq_eq_eq] at same
  exact same.symm

theorem callOccurrenceCount_eq (like : part.IsTaggedLike whole) :
    whole.callOccurrenceCount = part.callOccurrenceCount := by
  have alternatives_eq : whole.reachableAlternatives = part.reachableAlternatives := by
    rw [reachableAlternatives, partOf.reachable_eq wellFormed, reachableAlternatives]
    apply List.flatMap_congr
    intro symbol mem
    exact partOf.alternatives_eq symbol (wellFormed.reaches_mem (mem_reachable.1 mem)).1
  rw [callOccurrenceCount, callOccurrenceCount, alternatives_eq, like.calls_eq]

/-- At the start, two runs agree about everything but the further symbols. -/
theorem agree (whole_wellFormed : whole.WellFormed) :
    Agree (fun symbol => symbol ∈ whole.symbols ∧ symbol ∉ part.symbols) { grammar := part }
      { grammar := whole } where
  start_eq := partOf.start_eq.symm
  spans_eq := rfl
  nodup := wellFormed.symbols_nodup
  known _ mem further := further.2 mem
  span_mem _ mem := absurd mem List.not_mem_nil
  mem_iff symbol apart := by
    refine ⟨fun mem => ?_, fun mem => partOf.symbols_subset mem⟩
    by_contra new
    exact apart ⟨mem, new⟩
  alternatives_eq symbol apart := by
    by_cases known : symbol ∈ part.symbols
    · exact partOf.alternatives_eq symbol known
    · have unknown : symbol ∉ whole.symbols := fun mem => apart ⟨mem, known⟩
      rw [alternatives, alternatives, wellFormed.lookup_eq_none known,
        whole_wellFormed.lookup_eq_none unknown]

/-- Simple form keeps a grammar part of another one, when no further name is tried. -/
theorem toSimpleForm (whole_wellFormed : whole.WellFormed) (like : part.IsTaggedLike whole)
    (untried : part.TriesOwnNames whole) :
    part.toSimpleForm.1.IsPartOf whole.toSimpleForm.1 := by
  rw [TriesOwnNames, Grammar.triedNames, visits] at untried
  rw [Grammar.toSimpleForm, Grammar.toSimpleForm, ← like.calls_eq]
  split
  · exact partOf
  · next calls =>
      rw [if_neg calls] at untried
      have run := (partOf.agree wellFormed whole_wellFormed).shortenAll _ _
        (fun symbol mem further => further.2 (wellFormed.reaches_mem (mem_reachable.1 mem)).1)
        (fun name tried further => further.2 (untried name tried further.1))
      dsimp only
      rw [partOf.reachable_eq wellFormed, partOf.callOccurrenceCount_eq wellFormed like,
        ← like.brackets_eq]
      exact ⟨run.start_eq.symm, run.symbols_subset,
        fun symbol mem => run.alternatives_eq symbol (run.known symbol mem)⟩

/-- Whether recursion is visible is the same in simple form, when no further name is tried. -/
theorem exists_correspondTagged_toSimpleForm (whole_wellFormed : whole.WellFormed)
    (like : part.IsTaggedLike whole) (terminals : part.TagsTerminals)
    (whole_terminals : whole.TagsTerminals)
    (untried : part.TriesOwnNames whole) :
    ∃ related, CorrespondTagged related part.toSimpleForm.1 whole.toSimpleForm.1 := by
  have simple := partOf.toSimpleForm wellFormed whole_wellFormed like untried
  rcases exists_foldsTo_toSimpleForm wellFormed terminals with ⟨_, folds⟩
  rcases exists_foldsTo_toSimpleForm whole_wellFormed whole_terminals with ⟨_, whole_folds⟩
  refine ⟨_, simple.correspond wellFormed.toSimpleForm, ?_, ?_, ?_, ?_⟩
  · rw [folds.calls_eq, whole_folds.calls_eq, like.calls_eq]
  · rw [folds.returns_eq, whole_folds.returns_eq, like.returns_eq]
  · rw [folds.calls_eq]
    exact terminals.calls
  · rw [folds.returns_eq]
    exact terminals.returns

omit wellFormed in
theorem tag (dropRejected : Bool) :
    (part.tag dropRejected).IsPartOf (whole.tag dropRejected) :=
  ⟨partOf.start_eq, partOf.symbols_subset, partOf.alternatives_eq⟩

end IsPartOf

end Grammar

namespace Settings

variable {original extended : Description} {part whole : Grammar}

/-- Without simplification, further nonterminals do not change the verdict. -/
theorem verdict_unsimplified {settings : Settings} (plain : settings.simplify = false)
    (partOf : part.IsPartOf whole) (wellFormed : part.WellFormed)
    (whole_wellFormed : whole.WellFormed) :
    (settings.analyze whole).verdict = (settings.analyze part).verdict := by
  rcases partOf.exists_correspond_withoutLeftRecursion wellFormed whole_wellFormed with
    ⟨related, correspond⟩
  have tagged := correspond.tag settings.removeContradictions
  have unsimplified (grammar : Grammar) : (settings.tag grammar).grammar =
      grammar.withoutLeftRecursion.tag settings.removeContradictions := by
    simp [grammar_tag, plain]
  rw [verdict_eq, verdict_eq, unsimplified, unsimplified,
    tagged.toCorrespond.reachable.length_eq, propext tagged.recursesVisibly_iff]

/--
Further nonterminals do not change the verdict on a simplified grammar, when left recursion is
removed through nonterminals of the same names and no further name is tried for a span.
-/
theorem verdict_simplified {settings : Settings} (simplifies : settings.simplify = true)
    (wellFormed : part.WellFormed) (whole_wellFormed : whole.WellFormed)
    (partOf : part.withoutLeftRecursion.IsPartOf whole.withoutLeftRecursion)
    (untried : (part.withoutLeftRecursion.tag settings.removeContradictions).TriesOwnNames
      (whole.withoutLeftRecursion.tag settings.removeContradictions)) :
    (settings.analyze whole).verdict = (settings.analyze part).verdict := by
  have known := wellFormed.withoutLeftRecursion
  have whole_known := whole_wellFormed.withoutLeftRecursion
  have like := (partOf.correspond known).isTaggedLike_tag settings.removeContradictions
  rcases (partOf.tag settings.removeContradictions).exists_correspondTagged_toSimpleForm
    (known.tag _) (whole_known.tag _) like (Grammar.tagsTerminals_tag _ _)
    (Grammar.tagsTerminals_tag _ _) untried with ⟨related, tagged⟩
  rw [verdict_eq, verdict_eq, grammar_tag, grammar_tag, if_pos simplifies, if_pos simplifies,
    tagged.toCorrespond.reachable.length_eq, propext tagged.recursesVisibly_iff]

/--
Rules for further names change neither the answer whether there is left recursion nor the tagging,
and without simplification they do not change the verdict. With simplification they do not change it
either, when left recursion is removed through nonterminals of the same names and no further name is
tried for a span.
-/
theorem analyze_of_extends (settings : Settings) (extension : extended.Extends original)
    (resolved : original.resolve = .ok part) (whole_resolved : extended.resolve = .ok whole) :
    let analysis := settings.analyze part
    let extendedAnalysis := settings.analyze whole
    extendedAnalysis.hadLeftRecursion = analysis.hadLeftRecursion ∧
      extendedAnalysis.grammar.calls = analysis.grammar.calls ∧
      extendedAnalysis.grammar.returns = analysis.grammar.returns ∧
      (settings.simplify = false → extendedAnalysis.verdict = analysis.verdict) ∧
      (settings.simplify = true →
        part.withoutLeftRecursion.IsPartOf whole.withoutLeftRecursion →
        (part.withoutLeftRecursion.tag settings.removeContradictions).TriesOwnNames
          (whole.withoutLeftRecursion.tag settings.removeContradictions) →
        extendedAnalysis.verdict = analysis.verdict) := by
  intro analysis extendedAnalysis
  have partOf := extension.isPartOf resolved whole_resolved
  have wellFormed := Description.wellFormed_resolve resolved
  have whole_wellFormed := Description.wellFormed_resolve whole_resolved
  rcases partOf.exists_correspond_withoutLeftRecursion wellFormed whole_wellFormed with
    ⟨related, correspond⟩
  have tagged := correspond.tag settings.removeContradictions
  refine ⟨(partOf.correspond wellFormed).isLeftRecursive_eq.symm, ?_, ?_, ?_, ?_⟩
  · rw [(settings.calls_analyze wellFormed).1, (settings.calls_analyze whole_wellFormed).1]
    exact tagged.calls_eq.symm
  · rw [(settings.calls_analyze wellFormed).2, (settings.calls_analyze whole_wellFormed).2]
    exact tagged.returns_eq.symm
  · exact fun plain => verdict_unsimplified plain partOf wellFormed whole_wellFormed
  · exact fun simplifies => verdict_simplified simplifies wellFormed whole_wellFormed

/-- Nested brackets with a rule that nothing reaches, under a name that is tried for no span. -/
def nestedBracketsWithSpare : Description :=
  { nestedBrackets with
    rules := nestedBrackets.rules ++
      [("_L_b_x", [[.bare ⟨"b", .terminal⟩, .bare ⟨"x", .nonterminal⟩]])] }

theorem analyze_nestedBrackets :
    let analysis := analyze { simplify := false } (nestedBrackets.toGrammar "s")
    let extendedAnalysis := analyze { simplify := false } (nestedBracketsWithSpan.toGrammar "s")
    (analysis.grammar.calls = [⟨"b", .terminal⟩, ⟨"a", .terminal⟩] ∧
      extendedAnalysis.hadLeftRecursion = analysis.hadLeftRecursion ∧
      extendedAnalysis.grammar.calls = analysis.grammar.calls ∧
      extendedAnalysis.grammar.returns = analysis.grammar.returns ∧
      extendedAnalysis.verdict = analysis.verdict) ∧
    ((nestedBrackets.toGrammar "s").withoutLeftRecursion.tag true).triedNames =
      ["_L_b_x_s_c", "_L_x_s"] ∧
    (analyze {} (nestedBracketsWithSpare.toGrammar "s")).verdict =
      (analyze {} (nestedBrackets.toGrammar "s")).verdict := by
  intro analysis extendedAnalysis
  have resolved : nestedBrackets.resolve = .ok (nestedBrackets.toGrammar "s") := by decide
  have whole_resolved :
      nestedBracketsWithSpan.resolve = .ok (nestedBracketsWithSpan.toGrammar "s") := by
    decide
  have spare_resolved :
      nestedBracketsWithSpare.resolve = .ok (nestedBracketsWithSpare.toGrammar "s") := by
    decide
  have spare_extends : nestedBracketsWithSpare.Extends nestedBrackets := by
    constructor <;> decide
  have tagged : analysis.grammar.calls = [⟨"b", .terminal⟩, ⟨"a", .terminal⟩] := by decide
  rcases analyze_of_extends { simplify := false } extends_nestedBrackets resolved whole_resolved
    with ⟨left_recursion, calls, returns, verdict, _⟩
  rcases analyze_of_extends {} spare_extends resolved spare_resolved with
    ⟨_, _, _, _, spare_verdict⟩
  refine ⟨⟨tagged, left_recursion, calls, returns, verdict rfl⟩, by decide, ?_⟩
  exact spare_verdict rfl (by constructor <;> decide) (by decide)

/-- The rule that nothing reaches is taken for a span and left long, so the verdict changes. -/
theorem verdict_changes_nestedBrackets :
    nestedBracketsWithSpan.Extends nestedBrackets ∧
      nestedBrackets.resolve = .ok (nestedBrackets.toGrammar "s") ∧
      nestedBracketsWithSpan.resolve = .ok (nestedBracketsWithSpan.toGrammar "s") ∧
      (analyze {} (nestedBrackets.toGrammar "s")).verdict = .visiblyPushdown ∧
      (analyze {} (nestedBracketsWithSpan.toGrammar "s")).verdict = .notVisiblyPushdown := by
  refine ⟨extends_nestedBrackets, ?_⟩
  decide

/--
Further names that do not begin like the names of spans leave the verdict as it is, with any
settings. If there is left recursion, no name of a nonterminal may be the name of another one with a
prime.
-/
theorem verdict_of_extends (settings : Settings) (extension : extended.Extends original)
    (resolved : original.resolve = .ok part) (whole_resolved : extended.resolve = .ok whole)
    (unprimed : part.isLeftRecursive → whole.IsUnprimed)
    (unlike : ∀ name, extended.declaresNonterminal name → ¬original.declaresNonterminal name →
      ¬"_L".toList <+: name.toList) :
    (settings.analyze whole).verdict = (settings.analyze part).verdict := by
  have partOf := extension.isPartOf resolved whole_resolved
  have wellFormed := Description.wellFormed_resolve resolved
  have whole_wellFormed := Description.wellFormed_resolve whole_resolved
  have further {symbol : Symbol} (mem : symbol ∈ whole.symbols) (unknown : symbol ∉ part.symbols)
      (nonterminal : symbol.isNonterminal) : ¬"_L".toList <+: symbol.name.toList := by
    rcases symbol with ⟨name, kind⟩
    cases of_decide_eq_true nonterminal
    exact unlike name (Description.declares_of_mem_symbols whole_resolved mem)
      (mt (Description.mem_symbols_of_declaresNonterminal resolved) unknown)
  cases simplifies : settings.simplify with
  | false => exact verdict_unsimplified simplifies partOf wellFormed whole_wellFormed
  | true =>
      apply verdict_simplified simplifies wellFormed whole_wellFormed
        (partOf.withoutLeftRecursion wellFormed whole_wellFormed unprimed)
      intro name tried mem
      rw [Grammar.symbols_tag] at mem ⊢
      have begins := SpanExtraction.prefix_of_mem_triedForVisits tried
      rcases partOf.mem_or_further wellFormed whole_wellFormed unprimed mem with
        known | ⟨whole_mem, unknown⟩ | ⟨old, old_mem, unknown, nonterminal, primed_eq⟩
      · exact known
      · exact absurd begins (further whole_mem unknown rfl)
      · have name_eq : name = old.name ++ "'" := congrArg Symbol.name primed_eq
        rw [name_eq] at begins
        exact absurd (prefix_of_prefix_primed begins) (further old_mem unknown nonterminal)

end Settings

end VisiblyPushdown
