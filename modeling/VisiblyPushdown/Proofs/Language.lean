import Mathlib.Computability.Language
import Mathlib.Order.CompletePartialOrder
import VisiblyPushdown.Grammar.Basic

/-!
# Derived words

A sequence of occurrences derives a word by leftmost replacement: an occurrence under a mark is
replaced by the copies that the mark allows, a nonterminal by one of its alternatives, and a
terminal is read. The language of a symbol is the set of words that its bare occurrence derives.

Given a language for each symbol, an alternative is read as a product. `reading_language` says that
reading with the languages of the grammar is derivation, and `language_le_of_isModel` that these
languages are the least ones that contain each terminal's own word and are closed under the rules.
Inclusions between the languages of two grammars are proved with it, without looking into
derivations.
-/

namespace VisiblyPushdown

open Computability

namespace Grammar

/-- Whether a sequence of occurrences can be turned into a word of terminals, from left to right. -/
inductive Derives (grammar : Grammar) : Alternative → List Symbol → Prop where
  | nil : Derives grammar [] []
  | read {symbol : Symbol} {rest : Alternative} {word : List Symbol} (terminal : symbol.isTerminal)
      (derives : Derives grammar rest word) :
      Derives grammar (.bare symbol :: rest) (symbol :: word)
  | expand {symbol : Symbol} {alternative rest : Alternative} {word : List Symbol}
      (nonterminal : symbol.isNonterminal) (mem : alternative ∈ grammar.alternatives symbol)
      (derives : Derives grammar (alternative ++ rest) word) :
      Derives grammar (.bare symbol :: rest) word
  | skipOptional {symbol : Symbol} {rest : Alternative} {word : List Symbol}
      (derives : Derives grammar rest word) : Derives grammar (⟨symbol, .optional⟩ :: rest) word
  | takeOptional {symbol : Symbol} {rest : Alternative} {word : List Symbol}
      (derives : Derives grammar (.bare symbol :: rest) word) :
      Derives grammar (⟨symbol, .optional⟩ :: rest) word
  | skipStar {symbol : Symbol} {rest : Alternative} {word : List Symbol}
      (derives : Derives grammar rest word) : Derives grammar (⟨symbol, .star⟩ :: rest) word
  | takeStar {symbol : Symbol} {rest : Alternative} {word : List Symbol}
      (derives : Derives grammar (.bare symbol :: ⟨symbol, .star⟩ :: rest) word) :
      Derives grammar (⟨symbol, .star⟩ :: rest) word
  | takePlus {symbol : Symbol} {rest : Alternative} {word : List Symbol}
      (derives : Derives grammar (.bare symbol :: ⟨symbol, .star⟩ :: rest) word) :
      Derives grammar (⟨symbol, .plus⟩ :: rest) word

/-- The words of terminals that a symbol derives. -/
def language (grammar : Grammar) (symbol : Symbol) : Language Symbol :=
  {word | grammar.Derives [.bare symbol] word}

end Grammar

/-- The words of an occurrence when each symbol stands for the words of a given language. -/
def Occurrence.reading (meaning : Symbol → Language Symbol) (occurrence : Occurrence) :
    Language Symbol :=
  match occurrence.repetition with
  | .once => meaning occurrence.symbol
  | .optional => 1 + meaning occurrence.symbol
  | .star => (meaning occurrence.symbol)∗
  | .plus => meaning occurrence.symbol * (meaning occurrence.symbol)∗

namespace Alternative

/-- The words of an alternative when each symbol stands for the words of a given language. -/
def reading (meaning : Symbol → Language Symbol) (alternative : Alternative) : Language Symbol :=
  (alternative.map (Occurrence.reading meaning)).prod

variable {meaning other : Symbol → Language Symbol}

@[simp]
theorem reading_nil : reading meaning [] = 1 :=
  rfl

@[simp]
theorem reading_cons (occurrence : Occurrence) (rest : Alternative) :
    reading meaning (occurrence :: rest) = occurrence.reading meaning * reading meaning rest := by
  simp [reading]

@[simp]
theorem reading_append (left right : Alternative) :
    reading meaning (left ++ right) = reading meaning left * reading meaning right := by
  simp [reading]

@[simp]
theorem reading_bare (symbol : Symbol) :
    (Occurrence.bare symbol).reading meaning = meaning symbol :=
  rfl

theorem reading_mono {alternative : Alternative}
    (le : ∀ occurrence ∈ alternative, meaning occurrence.symbol ≤ other occurrence.symbol) :
    reading meaning alternative ≤ reading other alternative := by
  induction alternative with
  | nil => exact le_rfl
  | cons occurrence rest ih =>
      rw [List.forall_mem_cons] at le
      rw [reading_cons, reading_cons]
      refine mul_le_mul' ?_ (ih le.2)
      rcases occurrence with ⟨symbol, _ | _ | _ | _⟩
      · exact le.1
      · exact add_le_add le_rfl le.1
      · exact kstar_mono le.1
      · exact mul_le_mul' le.1 (kstar_mono le.1)

theorem reading_congr {alternative : Alternative}
    (same : ∀ occurrence ∈ alternative, meaning occurrence.symbol = other occurrence.symbol) :
    reading meaning alternative = reading other alternative :=
  le_antisymm (reading_mono fun occurrence occurrence_mem => (same occurrence occurrence_mem).le)
    (reading_mono fun occurrence occurrence_mem => (same occurrence occurrence_mem).ge)

end Alternative

namespace Grammar

variable {grammar : Grammar}

/-- Whether languages contain the terminals' own words and are closed under the rules. -/
structure IsModel (grammar : Grammar) (meaning : Symbol → Language Symbol) : Prop where
  terminal_mem {symbol : Symbol} : symbol.isTerminal → [symbol] ∈ meaning symbol
  reading_le {symbol : Symbol} {alternative : Alternative} : symbol.isNonterminal →
    alternative ∈ grammar.alternatives symbol →
      Alternative.reading meaning alternative ≤ meaning symbol

theorem Derives.append {left right : Alternative} {leftWord rightWord : List Symbol}
    (left_derives : grammar.Derives left leftWord)
    (right_derives : grammar.Derives right rightWord) :
    grammar.Derives (left ++ right) (leftWord ++ rightWord) := by
  induction left_derives with
  | nil => exact right_derives
  | read terminal _ ih => exact .read terminal ih
  | expand nonterminal mem _ ih => exact .expand nonterminal mem (List.append_assoc _ _ _ ▸ ih)
  | skipOptional _ ih => exact .skipOptional ih
  | takeOptional _ ih => exact .takeOptional ih
  | skipStar _ ih => exact .skipStar ih
  | takeStar _ ih => exact .takeStar ih
  | takePlus _ ih => exact .takePlus ih

/-- What is derived is read in every model. -/
theorem Derives.mem_reading {meaning : Symbol → Language Symbol} (model : grammar.IsModel meaning)
    {form : Alternative} {word : List Symbol} (derives : grammar.Derives form word) :
    word ∈ Alternative.reading meaning form := by
  induction derives with
  | nil => exact Language.nil_mem_one
  | read terminal _ ih =>
      rw [Alternative.reading_cons, Alternative.reading_bare]
      exact Language.append_mem_mul (model.terminal_mem terminal) ih
  | expand nonterminal mem _ ih =>
      rw [Alternative.reading_append] at ih
      rw [Alternative.reading_cons, Alternative.reading_bare]
      exact mul_le_mul' (model.reading_le nonterminal mem) le_rfl ih
  | skipOptional _ ih =>
      rw [Alternative.reading_cons]
      exact Language.append_mem_mul ((Language.mem_add 1 (meaning _) []).2 (.inl rfl)) ih
  | takeOptional _ ih =>
      rw [Alternative.reading_cons, Alternative.reading_bare] at ih
      rw [Alternative.reading_cons]
      obtain ⟨first, first_mem, later, later_mem, rfl⟩ := Language.mem_mul.1 ih
      exact Language.append_mem_mul ((Language.mem_add _ _ _).2 (.inr first_mem)) later_mem
  | skipStar _ ih =>
      rw [Alternative.reading_cons]
      exact Language.append_mem_mul (Language.nil_mem_kstar _) ih
  | takeStar _ ih =>
      rw [Alternative.reading_cons, Alternative.reading_cons, ← mul_assoc] at ih
      rw [Alternative.reading_cons]
      obtain ⟨first, first_mem, later, later_mem, rfl⟩ := Language.mem_mul.1 ih
      exact Language.append_mem_mul
        (Set.mem_of_subset_of_mem (mul_kstar_le_kstar (a := meaning _)) first_mem) later_mem
  | takePlus _ ih =>
      rw [Alternative.reading_cons, Alternative.reading_cons, ← mul_assoc] at ih
      rw [Alternative.reading_cons]
      exact ih

theorem derives_of_mem_kstar {symbol : Symbol} {word : List Symbol}
    (word_mem : word ∈ (grammar.language symbol)∗) : grammar.Derives [⟨symbol, .star⟩] word := by
  obtain ⟨words, rfl, words_mem⟩ := Language.mem_kstar.1 word_mem
  induction words with
  | nil => exact .skipStar .nil
  | cons first words ih =>
      rw [List.forall_mem_cons] at words_mem
      have later := ih words_mem.2 (Language.join_mem_kstar words_mem.2)
      exact .takeStar (Derives.append words_mem.1 later)

theorem derives_of_mem_occurrence_reading {occurrence : Occurrence} {word : List Symbol}
    (word_mem : word ∈ occurrence.reading grammar.language) :
    grammar.Derives [occurrence] word := by
  rcases occurrence with ⟨symbol, _ | _ | _ | _⟩
  · exact word_mem
  · rcases word_mem with rfl | word_mem
    · exact .skipOptional .nil
    · exact .takeOptional word_mem
  · exact derives_of_mem_kstar word_mem
  · obtain ⟨first, first_mem, later, later_mem, rfl⟩ := Language.mem_mul.1 word_mem
    exact .takePlus (Derives.append first_mem (derives_of_mem_kstar later_mem))

theorem derives_of_mem_reading {form : Alternative} {word : List Symbol}
    (word_mem : word ∈ Alternative.reading grammar.language form) : grammar.Derives form word := by
  induction form generalizing word with
  | nil =>
      obtain rfl := (Language.mem_one word).1 word_mem
      exact .nil
  | cons occurrence rest ih =>
      rw [Alternative.reading_cons] at word_mem
      obtain ⟨first, first_mem, later, later_mem, rfl⟩ := Language.mem_mul.1 word_mem
      exact (derives_of_mem_occurrence_reading first_mem).append (ih later_mem)

theorem isModel_language (grammar : Grammar) : grammar.IsModel grammar.language where
  terminal_mem terminal := .read terminal .nil
  reading_le {_ alternative} nonterminal mem _ word_mem :=
    .expand nonterminal mem ((List.append_nil alternative).symm ▸ derives_of_mem_reading word_mem)

theorem reading_language {form : Alternative} {word : List Symbol} :
    word ∈ Alternative.reading grammar.language form ↔ grammar.Derives form word :=
  ⟨derives_of_mem_reading, Derives.mem_reading grammar.isModel_language⟩

/-- The languages of a grammar are contained in every model. -/
theorem language_le_of_isModel {meaning : Symbol → Language Symbol}
    (model : grammar.IsModel meaning) (symbol : Symbol) :
    grammar.language symbol ≤ meaning symbol := by
  intro word word_mem
  have read := Derives.mem_reading model word_mem
  rwa [Alternative.reading_cons, Alternative.reading_nil, mul_one] at read

/-- A grammar with fewer alternatives derives no further words. -/
theorem language_mono {other : Grammar}
    (subset : ∀ symbol, grammar.alternatives symbol ⊆ other.alternatives symbol) (symbol : Symbol) :
    grammar.language symbol ≤ other.language symbol :=
  language_le_of_isModel
    { terminal_mem := other.isModel_language.terminal_mem
      reading_le := fun nonterminal mem =>
        other.isModel_language.reading_le nonterminal (subset _ mem) } symbol

theorem language_of_isTerminal {symbol : Symbol} (terminal : symbol.isTerminal) :
    grammar.language symbol = ({[symbol]} : Set (List Symbol)) := by
  ext word
  constructor
  · intro derives
    cases derives with
    | read _ derives => cases derives; rfl
    | expand nonterminal =>
        rw [← Symbol.not_isTerminal, terminal] at nonterminal
        cases nonterminal
  · rintro rfl
    exact grammar.isModel_language.terminal_mem terminal

/-- A word of a nonterminal is read by one of its alternatives. -/
theorem mem_language_of_isNonterminal {symbol : Symbol} (nonterminal : symbol.isNonterminal)
    {word : List Symbol} :
    word ∈ grammar.language symbol ↔
      ∃ alternative ∈ grammar.alternatives symbol,
        word ∈ Alternative.reading grammar.language alternative := by
  constructor
  · intro derives
    cases derives with
    | read terminal =>
        rw [← Symbol.not_isTerminal, terminal] at nonterminal
        cases nonterminal
    | expand _ mem derives =>
        rw [List.append_nil] at derives
        exact ⟨_, mem, reading_language.2 derives⟩
  · rintro ⟨alternative, mem, word_mem⟩
    exact grammar.isModel_language.reading_le nonterminal mem word_mem

/-- Only the alternatives of symbols that can be met count for the language of a symbol. -/
theorem language_le_of_closed {other : Grammar} (met : Symbol → Prop)
    (subset : ∀ symbol, met symbol → grammar.alternatives symbol ⊆ other.alternatives symbol)
    (closed : ∀ symbol, met symbol → ∀ alternative ∈ grammar.alternatives symbol,
      ∀ occurrence ∈ alternative, met occurrence.symbol)
    {symbol : Symbol} (met_symbol : met symbol) :
    grammar.language symbol ≤ other.language symbol := by
  let meaning (symbol : Symbol) : Language Symbol :=
    {word | met symbol → word ∈ other.language symbol}
  have model : grammar.IsModel meaning := by
    refine ⟨fun terminal _ => other.isModel_language.terminal_mem terminal, ?_⟩
    intro symbol alternative nonterminal mem word word_mem met_symbol
    refine other.isModel_language.reading_le nonterminal (subset symbol met_symbol mem) ?_
    refine Alternative.reading_mono (fun occurrence occurrence_mem => ?_) word_mem
    exact fun _ read => read (closed symbol met_symbol alternative mem occurrence occurrence_mem)
  exact fun word word_mem => language_le_of_isModel model symbol word_mem met_symbol

theorem language_eq_of_closed {other : Grammar} (met : Symbol → Prop)
    (same : ∀ symbol, met symbol → grammar.alternatives symbol = other.alternatives symbol)
    (closed : ∀ symbol, met symbol → ∀ alternative ∈ grammar.alternatives symbol,
      ∀ occurrence ∈ alternative, met occurrence.symbol)
    {symbol : Symbol} (met_symbol : met symbol) :
    grammar.language symbol = other.language symbol := by
  refine le_antisymm ?_ ?_
  · exact language_le_of_closed met
      (fun symbol met_symbol => (same symbol met_symbol) ▸ List.Subset.refl _) closed met_symbol
  · refine language_le_of_closed met
      (fun symbol met_symbol => (same symbol met_symbol) ▸ List.Subset.refl _) ?_ met_symbol
    intro symbol met_symbol alternative mem
    exact closed symbol met_symbol alternative (same symbol met_symbol ▸ mem)

end Grammar

end VisiblyPushdown
