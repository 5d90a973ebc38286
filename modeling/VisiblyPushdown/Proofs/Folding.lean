import VisiblyPushdown.Grammar.SimpleForm
import VisiblyPushdown.Proofs.FreshName
import VisiblyPushdown.Proofs.Language
import VisiblyPushdown.Proofs.WellFormed

/-!
# Folded grammars

A grammar is folded when spans in its alternatives are replaced by nonterminals that stand for them.
A nonterminal may stand for a span because of its rule before folding or because of its rule after
it, so the two grammars are compared with a measure that keeps folds from justifying each other in a
circle. The measure is the weight of the span, which can be read off the nonterminal's name whatever
primes that name has. Folding never makes an alternative lighter, and a span that is folded inside
another one, or inside the rule of a nonterminal that stands for it, weighs less.
-/

namespace VisiblyPushdown

namespace Alternative

/-- What the occurrences of an alternative add to the bulk of a span's name. -/
def weight : Alternative → Nat
  | [] => 0
  | occurrence :: rest =>
    1 + bulk occurrence.symbol.name + bulk occurrence.repetition.tag + weight rest

@[simp]
theorem weight_nil : weight [] = 0 :=
  rfl

@[simp]
theorem weight_cons (occurrence : Occurrence) (rest : Alternative) :
    weight (occurrence :: rest) =
      1 + bulk occurrence.symbol.name + bulk occurrence.repetition.tag + weight rest :=
  rfl

@[simp]
theorem weight_append (left right : Alternative) :
    weight (left ++ right) = weight left + weight right := by
  induction left with
  | nil => simp
  | cons occurrence rest ih =>
      rw [List.cons_append, weight_cons, weight_cons, ih]
      omega

theorem bulk_spanName (span : Alternative) : bulk span.spanName = 2 + weight span := by
  have extended (name : String) :
      bulk (span.foldl (fun name occurrence =>
        name ++ "_" ++ occurrence.symbol.name ++ occurrence.repetition.tag) name) =
          bulk name + weight span := by
    induction span generalizing name with
    | nil => rfl
    | cons occurrence rest ih =>
        have underscore : bulk "_" = 1 := rfl
        rw [List.foldl_cons, ih, bulk_append, bulk_append, bulk_append, weight_cons, underscore]
        omega
  rw [spanName, extended]
  rfl

end Alternative

/--
An alternative, and the same with some of its spans between a call and the next occurrence of its
return replaced by nonterminals that stand for them.
-/
inductive Folds (brackets : List TerminalPair) (standsFor : Alternative → Symbol → Prop) :
    Alternative → Alternative → Prop where
  | nil : Folds brackets standsFor [] []
  | keep (occurrence : Occurrence) {before after : Alternative}
      (folds : Folds brackets standsFor before after) :
      Folds brackets standsFor (occurrence :: before) (occurrence :: after)
  | fold {opening closing : Occurrence} {span before after : Alternative} {symbol : Symbol}
      (bracketed : brackets.lookup opening.symbol = some closing.symbol)
      (stands : standsFor span symbol)
      (folds : Folds brackets standsFor (closing :: before) after) :
      Folds brackets standsFor (opening :: (span ++ closing :: before))
        (opening :: .bare symbol :: after)

namespace Folds

variable {brackets : List TerminalPair} {standsFor other : Alternative → Symbol → Prop}
  {before after : Alternative}

theorem refl (alternative : Alternative) : Folds brackets standsFor alternative alternative := by
  induction alternative with
  | nil => exact .nil
  | cons occurrence _ ih => exact .keep occurrence ih

theorem mono (folds : Folds brackets standsFor before after)
    (weaken : ∀ span symbol, standsFor span symbol → other span symbol) :
    Folds brackets other before after := by
  induction folds with
  | nil => exact .nil
  | keep occurrence _ ih => exact .keep occurrence ih
  | fold bracketed stands _ ih => exact .fold bracketed (weaken _ _ stands) ih

theorem mem_after (folds : Folds brackets standsFor before after) {occurrence : Occurrence}
    (occurrence_mem : occurrence ∈ after) :
    occurrence ∈ before ∨
      ∃ span symbol, standsFor span symbol ∧ span ⊆ before ∧ occurrence = .bare symbol := by
  induction folds with
  | nil => exact .inl occurrence_mem
  | keep kept _ ih =>
      rcases List.mem_cons.1 occurrence_mem with rfl | later
      · exact .inl List.mem_cons_self
      · rcases ih later with old | ⟨span, symbol, stands, subset, rfl⟩
        · exact .inl (List.mem_cons_of_mem kept old)
        · exact .inr ⟨span, symbol, stands, List.subset_cons_of_subset kept subset, rfl⟩
  | @fold opening closing span before _ symbol bracketed stands _ ih =>
      have behind : closing :: before ⊆ opening :: (span ++ closing :: before) := by simp
      rcases List.mem_cons.1 occurrence_mem with rfl | later
      · exact .inl List.mem_cons_self
      · rcases List.mem_cons.1 later with rfl | later
        · exact .inr ⟨span, symbol, stands, by simp, rfl⟩
        · rcases ih later with old | ⟨inner, target, stands, subset, rfl⟩
          · exact .inl (behind old)
          · exact .inr ⟨inner, target, stands, List.Subset.trans subset behind, rfl⟩

/-- An occurrence is kept, or it is in a span that is folded. -/
theorem mem_before (folds : Folds brackets standsFor before after) {occurrence : Occurrence}
    (occurrence_mem : occurrence ∈ before) :
    occurrence ∈ after ∨ ∃ span symbol, standsFor span symbol ∧ .bare symbol ∈ after ∧
      occurrence ∈ span ∧ span.weight < before.weight := by
  induction folds with
  | nil => exact .inl occurrence_mem
  | keep kept _ ih =>
      rcases List.mem_cons.1 occurrence_mem with rfl | later
      · exact .inl List.mem_cons_self
      · rcases ih later with old | ⟨span, symbol, stands, target_mem, inside, lighter⟩
        · exact .inl (List.mem_cons_of_mem kept old)
        · refine .inr ⟨span, symbol, stands, List.mem_cons_of_mem kept target_mem, inside, ?_⟩
          rw [Alternative.weight_cons]
          omega
  | @fold opening closing span before after symbol bracketed stands _ ih =>
      rw [Alternative.weight_cons, Alternative.weight_append]
      simp only [List.mem_cons, List.mem_append] at occurrence_mem
      rcases occurrence_mem with rfl | inside | later
      · exact .inl List.mem_cons_self
      · refine .inr ⟨span, symbol, stands, by simp, inside, ?_⟩
        omega
      · rcases ih (List.mem_cons.2 later) with
          old | ⟨inner, target, stands, target_mem, inside, lighter⟩
        · exact .inl (List.mem_cons_of_mem _ (List.mem_cons_of_mem _ old))
        · refine .inr ⟨inner, target, stands, ?_, inside, by omega⟩
          exact List.mem_cons_of_mem _ (List.mem_cons_of_mem _ target_mem)

theorem weight_le (folds : Folds brackets standsFor before after)
    (named : ∀ span symbol, standsFor span symbol → bulk symbol.name = 2 + span.weight) :
    before.weight ≤ after.weight := by
  induction folds with
  | nil => exact Nat.le_refl _
  | keep _ _ ih =>
      rw [Alternative.weight_cons, Alternative.weight_cons]
      omega
  | fold _ stands _ ih =>
      have symbol_bulk := named _ _ stands
      simp only [Alternative.weight_cons, Alternative.weight_append, Occurrence.bare] at ih ⊢
      omega

/--
A folded alternative is read like the one before, if nonterminals for lighter spans are read like
those.
-/
theorem reading_eq (folds : Folds brackets standsFor before after)
    {meaning : Symbol → Language Symbol}
    (same : ∀ span symbol, standsFor span symbol → span.weight < before.weight →
      meaning symbol = span.reading meaning) :
    before.reading meaning = after.reading meaning := by
  induction folds with
  | nil => rfl
  | keep occurrence _ ih =>
      rw [Alternative.reading_cons, Alternative.reading_cons, ih]
      intro span symbol stands lighter
      refine same span symbol stands ?_
      rw [Alternative.weight_cons]
      omega
  | @fold opening closing span before after symbol _ stands _ ih =>
      simp only [Alternative.weight_cons, Alternative.weight_append] at same ih
      rw [Alternative.reading_cons, Alternative.reading_append, ih, Alternative.reading_cons,
        Alternative.reading_cons, Alternative.reading_bare, same span symbol stands (by omega)]
      intro span symbol stands lighter
      exact same span symbol stands (by omega)

end Folds

/-- Whether each of some alternatives is folded into one of others, which all come from them. -/
structure FoldsEach (brackets : List TerminalPair) (standsFor : Alternative → Symbol → Prop)
    (sources results : List Alternative) : Prop where
  forward : ∀ before ∈ sources, ∃ after ∈ results, Folds brackets standsFor before after
  backward : ∀ after ∈ results, ∃ before ∈ sources, Folds brackets standsFor before after

namespace FoldsEach

variable {brackets : List TerminalPair} {standsFor other : Alternative → Symbol → Prop}
  {sources results : List Alternative}

theorem nil : FoldsEach brackets standsFor [] [] :=
  ⟨fun _ mem => absurd mem List.not_mem_nil, fun _ mem => absurd mem List.not_mem_nil⟩

theorem refl (alternatives : List Alternative) :
    FoldsEach brackets standsFor alternatives alternatives :=
  ⟨fun before mem => ⟨before, mem, .refl before⟩, fun after mem => ⟨after, mem, .refl after⟩⟩

theorem mono (folds : FoldsEach brackets standsFor sources results)
    (weaken : ∀ span symbol, standsFor span symbol → other span symbol) :
    FoldsEach brackets other sources results where
  forward before before_mem := by
    obtain ⟨after, after_mem, folds⟩ := folds.forward before before_mem
    exact ⟨after, after_mem, folds.mono weaken⟩
  backward after after_mem := by
    obtain ⟨before, before_mem, folds⟩ := folds.backward after after_mem
    exact ⟨before, before_mem, folds.mono weaken⟩

theorem insert (folds : FoldsEach brackets standsFor sources results) {before after : Alternative}
    (folds_last : Folds brackets standsFor before after) :
    FoldsEach brackets standsFor (sources ++ [before]) (InsertionOrder.insert results after) where
  forward other other_mem := by
    rcases List.mem_append.1 other_mem with old | last
    · obtain ⟨result, result_mem, folds⟩ := folds.forward other old
      exact ⟨result, InsertionOrder.mem_insert.2 (.inl result_mem), folds⟩
    · obtain rfl := List.mem_singleton.1 last
      exact ⟨after, InsertionOrder.mem_insert.2 (.inr rfl), folds_last⟩
  backward result result_mem := by
    rcases InsertionOrder.mem_insert.1 result_mem with old | rfl
    · obtain ⟨source, source_mem, folds⟩ := folds.backward result old
      exact ⟨source, List.mem_append_left _ source_mem, folds⟩
    · exact ⟨before, List.mem_append_right _ List.mem_cons_self, folds_last⟩

end FoldsEach

namespace Grammar

/-- Whether a nonterminal has a span as its only alternative, and a name that tells its weight. -/
structure IsFoldTarget (grammar : Grammar) (span : Alternative) (symbol : Symbol) : Prop where
  isNonterminal : symbol.isNonterminal
  bulk_name : bulk symbol.name = 2 + span.weight
  alternatives_eq : grammar.alternatives symbol = [span]

variable {source folded : Grammar} {brackets : List TerminalPair}

/-- Whether a nonterminal stands for a span before or after folding. -/
def StandsAround (source folded : Grammar) (span : Alternative) (symbol : Symbol) : Prop :=
  source.IsFoldTarget span symbol ∨ folded.IsFoldTarget span symbol

theorem StandsAround.bulk_name {span : Alternative} {symbol : Symbol}
    (stands : source.StandsAround folded span symbol) : bulk symbol.name = 2 + span.weight :=
  stands.elim IsFoldTarget.bulk_name IsFoldTarget.bulk_name

/--
Whether one grammar comes from another by folding, each fold with a nonterminal that stands for the
span in one of the two grammars.
-/
def IsFolding (source : Grammar) (brackets : List TerminalPair) (folded : Grammar) : Prop :=
  ∀ symbol, FoldsEach brackets (source.StandsAround folded) (source.alternatives symbol)
    (folded.alternatives symbol)

theorem language_eq_reading {grammar : Grammar} {symbol : Symbol} {span : Alternative}
    (nonterminal : symbol.isNonterminal) (nonempty : grammar.alternatives symbol ≠ [])
    (same : ∀ alternative ∈ grammar.alternatives symbol,
      alternative.reading grammar.language = span.reading grammar.language) :
    grammar.language symbol = span.reading grammar.language := by
  ext word
  rw [mem_language_of_isNonterminal nonterminal]
  constructor
  · rintro ⟨alternative, mem, word_mem⟩
    exact same alternative mem ▸ word_mem
  · intro word_mem
    obtain ⟨alternative, mem⟩ := List.exists_mem_of_ne_nil _ nonempty
    exact ⟨alternative, mem, (same alternative mem).symm ▸ word_mem⟩

theorem IsFoldTarget.language_eq {grammar : Grammar} {span : Alternative} {symbol : Symbol}
    (target : grammar.IsFoldTarget span symbol) :
    grammar.language symbol = span.reading grammar.language := by
  have alternatives_eq := target.alternatives_eq
  refine language_eq_reading target.isNonterminal (by simp [alternatives_eq]) ?_
  intro alternative mem
  rw [alternatives_eq, List.mem_singleton] at mem
  rw [mem]

namespace IsFolding

variable (folding : source.IsFolding brackets folded)

include folding

/-- Before folding, a fold target has the words of its span. -/
theorem language_source_target {span : Alternative} {symbol : Symbol}
    (stands : source.StandsAround folded span symbol) :
    source.language symbol = span.reading source.language := by
  induction bound : span.weight using Nat.strong_induction_on generalizing span symbol with
  | h bound_value ih =>
      rcases stands with target | target
      · exact target.language_eq
      · have alternatives_eq := target.alternatives_eq
        refine language_eq_reading target.isNonterminal ?_ ?_
        · obtain ⟨before, before_mem, _⟩ :=
            (folding symbol).backward span (by simp [alternatives_eq])
          exact List.ne_nil_of_mem before_mem
        · intro before before_mem
          obtain ⟨after, after_mem, folds⟩ := (folding symbol).forward before before_mem
          rw [alternatives_eq, List.mem_singleton] at after_mem
          subst after_mem
          -- The spans folded in this rule weigh less than the alternative before, which folding has
          -- made no lighter.
          have heavier := folds.weight_le fun _ _ => StandsAround.bulk_name
          refine folds.reading_eq fun inner target stands lighter => ?_
          exact ih inner.weight (by omega) stands rfl

/-- After folding, a fold target has the words of its span. -/
theorem language_folded_target {span : Alternative} {symbol : Symbol}
    (stands : source.StandsAround folded span symbol) :
    folded.language symbol = span.reading folded.language := by
  induction bound : span.weight using Nat.strong_induction_on generalizing span symbol with
  | h bound_value ih =>
      rcases stands with target | target
      · have alternatives_eq := target.alternatives_eq
        refine language_eq_reading target.isNonterminal ?_ ?_
        · obtain ⟨after, after_mem, _⟩ :=
            (folding symbol).forward span (by simp [alternatives_eq])
          exact List.ne_nil_of_mem after_mem
        · intro after after_mem
          obtain ⟨before, before_mem, folds⟩ := (folding symbol).backward after after_mem
          rw [alternatives_eq, List.mem_singleton] at before_mem
          subst before_mem
          refine (folds.reading_eq fun inner target stands lighter => ?_).symm
          exact ih inner.weight (by omega) stands rfl
      · exact target.language_eq

/-- Folding changes no language. -/
theorem language_eq : folded.language = source.language := by
  funext symbol
  refine le_antisymm (language_le_of_isModel ?_ symbol) (language_le_of_isModel ?_ symbol)
  · refine ⟨source.isModel_language.terminal_mem, ?_⟩
    intro symbol after nonterminal after_mem
    obtain ⟨before, before_mem, folds⟩ := (folding symbol).backward after after_mem
    rw [← folds.reading_eq fun _ _ stands _ => folding.language_source_target stands]
    exact source.isModel_language.reading_le nonterminal before_mem
  · refine ⟨folded.isModel_language.terminal_mem, ?_⟩
    intro symbol before nonterminal before_mem
    obtain ⟨after, after_mem, folds⟩ := (folding symbol).forward before before_mem
    rw [folds.reading_eq fun _ _ stands _ => folding.language_folded_target stands]
    exact folded.isModel_language.reading_le nonterminal after_mem

end IsFolding

section Unfolded

variable {original : Grammar} {spans : List (Symbol × Alternative)} {symbol : Symbol}

/-- A grammar with further nonterminals, each with a span as its only alternative. -/
def unfolded (original : Grammar) (spans : List (Symbol × Alternative)) : Grammar :=
  { original with rules := spans.map (fun entry => (entry.1, [entry.2])) ++ original.rules }

theorem alternatives_unfolded (symbol : Symbol) :
    (original.unfolded spans).alternatives symbol =
      ((spans.lookup symbol).map ([·])).getD (original.alternatives symbol) := by
  have own := InsertionOrder.lookup_map_value spans (fun _ span => [span]) symbol
  rw [alternatives, unfolded, List.lookup_append, own, alternatives]
  cases spans.lookup symbol <;> rfl

/-- New nonterminals do not change the languages of the old symbols. -/
theorem language_unfolded (wellFormed : original.WellFormed)
    (new : ∀ entry ∈ spans, entry.1 ∉ original.symbols) (known : symbol ∈ original.symbols) :
    (original.unfolded spans).language symbol = original.language symbol := by
  refine (language_eq_of_closed (· ∈ original.symbols) ?_ ?_ known).symm
  · intro symbol known
    have unlisted : spans.lookup symbol = none := by
      rw [InsertionOrder.lookup_eq_none]
      intro symbol_mem
      obtain ⟨entry, entry_mem, rfl⟩ := List.mem_map.1 symbol_mem
      exact new entry entry_mem known
    rw [alternatives_unfolded, unlisted]
    rfl
  · intro symbol _ alternative mem occurrence
    exact wellFormed.mentioned_mem mem

end Unfolded

end Grammar

end VisiblyPushdown
