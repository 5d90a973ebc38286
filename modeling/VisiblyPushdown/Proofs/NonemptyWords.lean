import VisiblyPushdown.Grammar.Description
import VisiblyPushdown.Proofs.Language
import VisiblyPushdown.Proofs.Reachability

/-!
# Nonempty words

Whether a nonterminal can derive a word that is not empty is judged by the terminals that are within
reach. A derivation of a nonempty word reads a terminal somewhere, and every terminal that is read
is within reach, so the judgement misses nothing. Conversely a path to a terminal can be followed by
a derivation when every symbol beside the path has some word, so that the alternatives on the path
can be completed. A nonterminal without a word is therefore the only reason why the judgement can be
wrong.
-/

namespace VisiblyPushdown

theorem Symbol.isTerminal_or_isNonterminal (symbol : Symbol) :
    symbol.isTerminal ∨ symbol.isNonterminal := by
  rcases symbol with ⟨_, _ | _⟩
  · exact .inl rfl
  · exact .inr rfl

namespace Grammar

variable {grammar : Grammar} {symbol other : Symbol} {alternative form : Alternative}
  {word : List Symbol}

theorem canDeriveNonempty_iff :
    grammar.canDeriveNonempty symbol ↔ ∃ reached, grammar.Reaches symbol reached ∧
      ∃ alternative ∈ grammar.alternatives reached, ∃ occurrence ∈ alternative,
        occurrence.symbol.isTerminal := by
  simp [canDeriveNonempty, mem_reachableFrom]

theorem canDeriveNonempty_of_mem (mem : alternative ∈ grammar.alternatives symbol)
    (found : ∃ inside ∈ alternative.map Occurrence.symbol,
      inside.isTerminal ∨ grammar.canDeriveNonempty inside) :
    grammar.canDeriveNonempty symbol := by
  rcases found with ⟨_, inside_mem, nonempty⟩
  rcases List.mem_map.1 inside_mem with ⟨occurrence, occurrence_mem, rfl⟩
  rw [canDeriveNonempty_iff]
  by_cases terminal : occurrence.symbol.isTerminal
  · exact ⟨symbol, .refl, alternative, mem, occurrence, occurrence_mem, terminal⟩
  · have nonterminal := occurrence.symbol.isTerminal_or_isNonterminal.resolve_left terminal
    rcases canDeriveNonempty_iff.1 (nonempty.resolve_left terminal) with ⟨reached, path, found⟩
    exact ⟨reached, .head ⟨nonterminal, alternative, mem, occurrence, occurrence_mem, rfl⟩ path,
      found⟩

/-- What derives a nonempty word has a symbol that is a terminal or has one within reach. -/
theorem Derives.exists_canDeriveNonempty (derives : grammar.Derives form word)
    (nonempty : word ≠ []) :
    ∃ inside ∈ form.map Occurrence.symbol,
      inside.isTerminal ∨ grammar.canDeriveNonempty inside := by
  induction derives with
  | nil => exact absurd rfl nonempty
  | read terminal _ _ => exact ⟨_, List.mem_cons_self, .inl terminal⟩
  | @expand symbol alternative rest _ _ mem _ ih =>
      rcases ih nonempty with ⟨inside, inside_mem, found⟩
      rw [List.map_append, List.mem_append] at inside_mem
      rcases inside_mem with expanded | later
      · exact ⟨symbol, List.mem_cons_self,
          .inr (canDeriveNonempty_of_mem mem ⟨inside, expanded, found⟩)⟩
      · exact ⟨inside, List.mem_cons_of_mem _ later, found⟩
  | skipOptional _ ih | skipStar _ ih =>
      rcases ih nonempty with ⟨inside, later, found⟩
      exact ⟨inside, List.mem_cons_of_mem _ later, found⟩
  | takeOptional _ ih => exact ih nonempty
  | takeStar _ ih | takePlus _ ih =>
      rcases ih nonempty with ⟨inside, inside_mem, found⟩
      exact ⟨inside, by simpa [Occurrence.bare] using inside_mem, found⟩

/-- Whatever mark an occurrence has, it can stand for one copy of its symbol. -/
theorem derives_singleton {occurrence : Occurrence}
    (word_mem : word ∈ grammar.language occurrence.symbol) :
    grammar.Derives [occurrence] word := by
  rcases occurrence with ⟨symbol, _ | _ | _ | _⟩
  · exact word_mem
  · exact .takeOptional word_mem
  · exact .takeStar (List.append_nil word ▸ Derives.append word_mem (.skipStar .nil))
  · exact .takePlus (List.append_nil word ▸ Derives.append word_mem (.skipStar .nil))

section Completion

variable (words : ∀ occurrence ∈ form, ∃ word, word ∈ grammar.language occurrence.symbol)

include words

theorem exists_derives : ∃ word, grammar.Derives form word := by
  induction form with
  | nil => exact ⟨[], .nil⟩
  | cons occurrence rest ih =>
      rw [List.forall_mem_cons] at words
      rcases words.1 with ⟨first, first_mem⟩
      rcases ih words.2 with ⟨later, later_derives⟩
      exact ⟨first ++ later, (derives_singleton first_mem).append later_derives⟩

/-- One symbol with a nonempty word is enough when the symbols beside it have some word. -/
theorem exists_derives_ne_nil {occurrence : Occurrence} (mem : occurrence ∈ form)
    (found : ∃ word ∈ grammar.language occurrence.symbol, word ≠ []) :
    ∃ word, grammar.Derives form word ∧ word ≠ [] := by
  rcases List.append_of_mem mem with ⟨before, after, rfl⟩
  rw [List.forall_mem_append, List.forall_mem_cons] at words
  rcases exists_derives words.1 with ⟨first, first_derives⟩
  rcases exists_derives words.2.2 with ⟨last, last_derives⟩
  rcases found with ⟨middle, middle_mem, nonempty⟩
  refine ⟨first ++ (middle ++ last),
    first_derives.append ((derives_singleton middle_mem).append last_derives), ?_⟩
  simp [nonempty]

end Completion

section Productive

variable (nonterminal : symbol.isNonterminal)
  (words : ∀ other, grammar.Reaches symbol other → ∃ word, word ∈ grammar.language other)

include nonterminal words

theorem exists_nonempty_of_mem (mem : alternative ∈ grammar.alternatives symbol)
    {occurrence : Occurrence} (occurrence_mem : occurrence ∈ alternative)
    (found : ∃ word ∈ grammar.language occurrence.symbol, word ≠ []) :
    ∃ word ∈ grammar.language symbol, word ≠ [] := by
  have beside (inside : Occurrence) (inside_mem : inside ∈ alternative) :
      ∃ word, word ∈ grammar.language inside.symbol := by
    rcases inside.symbol.isTerminal_or_isNonterminal with terminal | inside_nonterminal
    · exact ⟨_, grammar.isModel_language.terminal_mem terminal⟩
    · exact words _ (.single ⟨inside_nonterminal, alternative, mem, inside, inside_mem, rfl⟩)
  rcases exists_derives_ne_nil beside occurrence_mem found with ⟨word, derives, nonempty⟩
  have word_mem := (mem_language_of_isNonterminal nonterminal).2
    ⟨alternative, mem, reading_language.2 derives⟩
  exact ⟨word, word_mem, nonempty⟩

/-- A path to a terminal is turned into a derivation from its end backwards. -/
theorem exists_nonempty_of_reaches {reached : Symbol} (path : grammar.Reaches symbol reached)
    (mem : alternative ∈ grammar.alternatives reached) {occurrence : Occurrence}
    (occurrence_mem : occurrence ∈ alternative) (terminal : occurrence.symbol.isTerminal) :
    ∃ word ∈ grammar.language symbol, word ≠ [] := by
  induction path using Relation.ReflTransGen.head_induction_on with
  | refl =>
      have read := grammar.isModel_language.terminal_mem terminal
      exact exists_nonempty_of_mem nonterminal words mem occurrence_mem ⟨_, read, by simp⟩
  | head mentions _ ih =>
      have found := ih mentions.1 fun other further => words other (.head mentions further)
      rcases mentions with ⟨_, alternative, mem, inside, inside_mem, rfl⟩
      exact exists_nonempty_of_mem nonterminal words mem inside_mem found

end Productive

/--
A nonterminal that derives some nonempty word is judged to do so, and when every nonterminal within
its reach derives some word, possibly the empty one, it is judged so only if it does. So the
judgement errs on one side only, and only through nonterminals that derive nothing.
-/
theorem canDeriveNonempty_decides (grammar : Grammar) {symbol : Symbol}
    (nonterminal : symbol.isNonterminal) :
    ((∃ word ∈ grammar.language symbol, word ≠ []) → grammar.canDeriveNonempty symbol) ∧
    ((∀ other, grammar.Reaches symbol other → ∃ word, word ∈ grammar.language other) →
      grammar.canDeriveNonempty symbol → ∃ word ∈ grammar.language symbol, word ≠ []) := by
  constructor
  · rintro ⟨word, derives, nonempty⟩
    rcases Derives.exists_canDeriveNonempty derives nonempty with ⟨_, inside_mem, found⟩
    cases List.mem_singleton.1 inside_mem
    rcases found with terminal | found
    · rw [Occurrence.bare, ← Bool.not_eq_false', Symbol.not_isTerminal, nonterminal] at terminal
      cases terminal
    · exact found
  · intro words judged
    rcases canDeriveNonempty_iff.1 judged with
      ⟨reached, path, alternative, mem, occurrence, occurrence_mem, terminal⟩
    exact exists_nonempty_of_reaches nonterminal words path mem occurrence_mem terminal

/-- Rows of cells, each with or without a mark; a mark may be left blank. -/
def rowsOfCells : Description :=
  { start := some "row"
    terminals := ["x"]
    rules :=
      [("row", [[⟨⟨"cell", .nonterminal⟩, .plus⟩]]),
        ("cell", [[⟨⟨"mark", .nonterminal⟩, .optional⟩]]),
        ("mark", [[], [.bare ⟨"x", .terminal⟩]])] }

/-- Every nonterminal has the empty word, and a row has a word that is not empty. -/
theorem canDeriveNonempty_decides_rowsOfCells :
    let grammar := rowsOfCells.toGrammar "row"
    let row : Symbol := ⟨"row", .nonterminal⟩
    (∀ other, grammar.Reaches row other → ∃ word, word ∈ grammar.language other) ∧
      grammar.canDeriveNonempty row ∧ ∃ word ∈ grammar.language row, word ≠ [] := by
  intro grammar row
  have blank_mem : [] ∈ grammar.alternatives ⟨"mark", .nonterminal⟩ := by decide
  have cell_mem : [⟨⟨"mark", .nonterminal⟩, .optional⟩] ∈
      grammar.alternatives ⟨"cell", .nonterminal⟩ := by decide
  have row_mem : [⟨⟨"cell", .nonterminal⟩, .plus⟩] ∈ grammar.alternatives row := by decide
  have words (other : Symbol) (reached : grammar.Reaches row other) :
      ∃ word, word ∈ grammar.language other := by
    have blank : grammar.Derives [.bare ⟨"mark", .nonterminal⟩] [] := .expand rfl blank_mem .nil
    have cell : grammar.Derives [.bare ⟨"cell", .nonterminal⟩] [] :=
      .expand rfl cell_mem (.skipOptional .nil)
    have within : ∀ other ∈ grammar.reachableFrom row,
        other = row ∨ other = ⟨"cell", .nonterminal⟩ ∨ other = ⟨"mark", .nonterminal⟩ := by
      decide
    rcases within other (mem_reachableFrom.2 reached) with rfl | rfl | rfl
    · exact ⟨[], .expand rfl row_mem (.takePlus (cell.append (.skipStar .nil)))⟩
    · exact ⟨[], cell⟩
    · exact ⟨[], blank⟩
  have nonterminal : row.isNonterminal := rfl
  have judged : grammar.canDeriveNonempty row := by decide
  rcases canDeriveNonempty_decides grammar nonterminal with ⟨_, derives⟩
  exact ⟨words, judged, derives words judged⟩

end Grammar

end VisiblyPushdown
