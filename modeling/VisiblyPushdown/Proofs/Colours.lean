import VisiblyPushdown.Proofs.EscapeCodes
import VisiblyPushdown.Proofs.Fragments
import VisiblyPushdown.Report

/-!
# Colours

A palette puts codes around some fragments of a printed grammar. So the plain text is what remains
when the codes are deleted, and codes for calls and returns stand exactly where the fragments begin
that are occurrences of calls and returns.
-/

namespace VisiblyPushdown

/-- Whether a text has no escape characters. -/
def Unescaped (text : String) : Prop :=
  '\x1b' ∉ text.toList

instance (text : String) : Decidable (Unescaped text) :=
  inferInstanceAs (Decidable ('\x1b' ∉ text.toList))

/-- Whether a code stands in a text right behind its beginning `before`. -/
def Stands (code text before : String) : Prop :=
  ∃ rest, text = before ++ code ++ rest

/-- Whether a text is a plain one, without escape characters, with codes put in between. -/
def Paints (codes : List String) (text plain : String) : Prop :=
  Painted codes text.toList plain.toList

theorem stands_iff {code text before : String} :
    Stands code text before ↔ before.toList ++ code.toList <+: text.toList := by
  constructor
  · rintro ⟨rest, rfl⟩
    exact ⟨rest.toList, by simp⟩
  · rintro ⟨rest, text_eq⟩
    exact ⟨.ofList rest, String.toList_injective (by simp [← text_eq])⟩

namespace Palette

/-- All codes of a palette. -/
def codes (palette : Palette) : List String :=
  [palette.call, palette.ret, palette.rule, palette.dim, palette.reset]

/-- The code in front of terminals in a role. -/
def roleCode? (palette : Palette) : Role → Option String
  | .call => some palette.call
  | .return => some palette.ret
  | .plain => none

theorem areCodes_on : AreCodes on.codes where
  escape := by decide
  apart := by decide

/-- The code of a role is not one for anything else. -/
theorem of_roleCode?_on {role : Role} {code : String} (code_eq : on.roleCode? role = some code) :
    code ∈ on.codes ∧ code ≠ on.rule ∧ code ≠ on.dim ∧ code ≠ on.reset := by
  revert code_eq
  cases role <;> rintro ⟨⟩ <;> decide

theorem roleCode?_on_iff {role other : Role} {code : String}
    (code_eq : on.roleCode? role = some code) : on.roleCode? other = some code ↔ other = role := by
  revert code_eq
  cases role <;> rintro ⟨⟩ <;> cases other <;> decide

end Palette

namespace Fragment

/-- Whether a fragment has no escape characters of its own. -/
def IsUnescaped : Fragment → Prop
  | plain text | dim text => Unescaped text
  | ruleName symbol | occurrence symbol => Unescaped symbol.name

instance : DecidablePred IsUnescaped
  | plain text | dim text => inferInstanceAs (Decidable (Unescaped text))
  | ruleName symbol | occurrence symbol => inferInstanceAs (Decidable (Unescaped symbol.name))

end Fragment

section Escapes

theorem forall_mem_intercalate {α : Type} (holds : α → Prop) {separator : List α}
    {parts : List (List α)} (separates : ∀ member ∈ separator, holds member)
    (in_parts : ∀ part ∈ parts, ∀ member ∈ part, holds member) :
    ∀ member ∈ separator.intercalate parts, holds member := by
  induction parts with
  | nil => exact fun member mem => (List.not_mem_nil mem).elim
  | cons part parts ih =>
      rw [List.forall_mem_cons] at in_parts
      cases parts with
      | nil => simpa using in_parts.1
      | cons next parts =>
          rw [List.intercalate_cons_cons, List.forall_mem_append, List.forall_mem_append]
          exact ⟨⟨in_parts.1, separates⟩, ih in_parts.2⟩

theorem unescaped_append {text rest : String} :
    Unescaped (text ++ rest) ↔ Unescaped text ∧ Unescaped rest := by
  simp [Unescaped]

theorem unescaped_intercalate {separator : String} (separates : Unescaped separator)
    {texts : List String} (unescaped : ∀ text ∈ texts, Unescaped text) :
    Unescaped (separator.intercalate texts) := by
  intro mem
  rw [String.toList_intercalate] at mem
  refine forall_mem_intercalate (· ≠ '\x1b') ?_ ?_ _ mem rfl
  · exact fun char mem same => separates (same ▸ mem)
  · rintro _ part_mem char mem rfl
    rcases List.mem_map.1 part_mem with ⟨text, text_mem, rfl⟩
    exact unescaped text text_mem mem

theorem unescaped_occurrence {occurrence : Occurrence}
    (unescaped : Unescaped occurrence.symbol.name) :
    ∀ fragment ∈ occurrence.fragments, fragment.IsUnescaped := by
  have blank : Unescaped " " := by decide
  have mark : Unescaped occurrence.repetition.mark := by
    cases occurrence.repetition <;> decide
  unfold Occurrence.fragments
  split <;> simp [Fragment.IsUnescaped, unescaped, blank, mark]

theorem unescaped_alternatives {alternatives : List Alternative}
    (unescaped : ∀ alternative ∈ alternatives, ∀ occurrence ∈ alternative,
      Unescaped occurrence.symbol.name) :
    ∀ fragment ∈ alternativesFragments alternatives, fragment.IsUnescaped := by
  have alternative (alternative : Alternative) (mem : alternative ∈ alternatives) :
      ∀ fragment ∈ alternative.flatMap Occurrence.fragments, fragment.IsUnescaped :=
    List.forall_mem_flatMap.2 fun occurrence here =>
      unescaped_occurrence (unescaped alternative mem occurrence here)
  have colon : ∀ fragment ∈ [Fragment.plain "\t", .dim ":"], fragment.IsUnescaped := by decide
  have bar : ∀ fragment ∈ [Fragment.plain "\n\t", .dim "|"], fragment.IsUnescaped := by decide
  cases alternatives with
  | nil => exact fun fragment mem => (List.not_mem_nil mem).elim
  | cons first others =>
      rw [List.forall_mem_cons] at alternative
      rw [alternativesFragments, List.forall_mem_append, List.forall_mem_append]
      exact ⟨⟨colon, alternative.1⟩, List.forall_mem_flatMap.2 fun other mem =>
        List.forall_mem_append.2 ⟨bar, alternative.2 other mem⟩⟩

namespace Paints

variable {codes : List String}

theorem of_unescaped {text : String} (unescaped : Unescaped text) : Paints codes text text :=
  Painted.of_unescaped unescaped

theorem append {text plain text' plain' : String} (paints : Paints codes text plain)
    (behind : Paints codes text' plain') : Paints codes (text ++ text') (plain ++ plain') := by
  unfold Paints
  rw [String.toList_append, String.toList_append]
  exact Painted.append paints behind

theorem join {α : Type} {items : List α} {text plain : α → String}
    (paints : ∀ item ∈ items, Paints codes (text item) (plain item)) :
    Paints codes (String.join (items.map text)) (String.join (items.map plain)) := by
  induction items with
  | nil => exact .nil
  | cons item items ih =>
      rw [List.forall_mem_cons] at paints
      rw [List.map_cons, List.map_cons, String.join_cons, String.join_cons]
      exact paints.1.append (ih paints.2)

/-- A plain text is coloured with a code in front of it and one behind it. -/
theorem coloured {opening closing text : String} (opens : opening ∈ codes)
    (closes : closing ∈ codes) (unescaped : Unescaped text) :
    Paints codes (opening ++ text ++ closing) text := by
  have ends : Painted codes _ _ := (Painted.of_unescaped unescaped).append (.code closes .nil)
  simpa [Paints] using Painted.code opens ends

end Paints

end Escapes

namespace Grammar

variable {grammar : Grammar}

/-- The symbols whose names are in the printed grammar. -/
def printedSymbols (grammar : Grammar) : List Symbol :=
  grammar.reachable ++ grammar.reachableAlternatives.flatMap (·.map Occurrence.symbol)

/-- The code that a fragment begins with, if it has one. -/
def opening? (grammar : Grammar) (style : PrintStyle) : Fragment → Option String
  | .plain _ => none
  | .ruleName _ => some style.palette.rule
  | .dim _ => some style.palette.dim
  | .occurrence symbol =>
    if style.marked && symbol.isTerminal then style.palette.roleCode? (grammar.role symbol)
    else none

theorem unescaped_fragments
    (unescaped : ∀ symbol ∈ grammar.printedSymbols, Unescaped symbol.name) :
    ∀ fragment ∈ grammar.fragments, fragment.IsUnescaped := by
  have separator : ∀ fragment ∈ [Fragment.plain "\n\n"], fragment.IsUnescaped := by decide
  have semicolon : ∀ fragment ∈ [Fragment.plain "\n\t", .dim ";"], fragment.IsUnescaped := by
    decide
  rw [printedSymbols, List.forall_mem_append] at unescaped
  rw [fragments]
  refine forall_mem_intercalate _ separator (List.forall_mem_map.2 fun symbol reached => ?_)
  rw [ruleFragments, List.forall_mem_append, List.forall_mem_append, List.forall_mem_singleton]
  refine ⟨⟨unescaped.1 symbol reached, ?_⟩, semicolon⟩
  refine unescaped_alternatives fun alternative mem occurrence here => unescaped.2 _ ?_
  exact List.mem_flatMap.2 ⟨alternative, List.mem_flatMap.2 ⟨symbol, reached, mem⟩,
    List.mem_map_of_mem here⟩

variable {fragment : Fragment} {marked : Bool}

/-- A fragment without colours has no escape characters. -/
theorem unescaped_printFragment (grammar : Grammar) (marked : Bool)
    (unescaped : fragment.IsUnescaped) :
    Unescaped (grammar.printFragment { palette := .off, marked } fragment) := by
  have marks : Unescaped "<" ∧ Unescaped ">" := by decide
  cases fragment with
  | plain text => exact unescaped
  | ruleName symbol | dim text =>
      simpa [printFragment, Palette.off, Fragment.IsUnescaped] using unescaped
  | occurrence symbol =>
      have name : Unescaped symbol.name := unescaped
      simp only [printFragment, printSymbol]
      split
      · cases grammar.role symbol <;> simp [unescaped_append, Palette.off, marks, name]
      · exact name

/-- A coloured fragment is a plain one, with a code in front of it and the code that ends it. -/
theorem printFragment_on (fragment : Fragment) :
    grammar.printFragment { palette := .on, marked } fragment =
      match grammar.opening? { palette := .on, marked } fragment with
      | some code =>
        code ++ grammar.printFragment { palette := .off, marked } fragment ++ Palette.on.reset
      | none => grammar.printFragment { palette := .off, marked } fragment := by
  cases fragment with
  | plain text => rfl
  | ruleName symbol => simp [printFragment, opening?, Palette.off]
  | dim text => simp [printFragment, opening?, Palette.off]
  | occurrence symbol =>
      simp only [printFragment, printSymbol, opening?]
      split
      · cases grammar.role symbol <;> simp [Palette.roleCode?, Palette.off, String.append_assoc]
      · rfl

theorem mem_codes_of_opening? {code : String}
    (opening_eq : grammar.opening? { palette := .on, marked } fragment = some code) :
    code ∈ Palette.on.codes := by
  cases fragment with
  | plain text => cases opening_eq
  | ruleName symbol | dim text =>
      cases opening_eq
      simp [Palette.codes]
  | occurrence symbol =>
      rw [opening?] at opening_eq
      split at opening_eq
      · exact (Palette.of_roleCode?_on opening_eq).1
      · cases opening_eq

theorem paints_printFragment (grammar : Grammar) (marked : Bool)
    (unescaped : fragment.IsUnescaped) :
    Paints Palette.on.codes (grammar.printFragment { palette := .on, marked } fragment)
      (grammar.printFragment { palette := .off, marked } fragment) := by
  have plain := grammar.unescaped_printFragment marked unescaped
  rw [printFragment_on]
  split
  · next opening_eq => exact .coloured (mem_codes_of_opening? opening_eq) (by decide) plain
  · exact .of_unescaped plain

theorem paints_printFragments {fragments : List Fragment}
    (unescaped : ∀ fragment ∈ fragments, fragment.IsUnescaped) :
    Paints Palette.on.codes (grammar.printFragments { palette := .on, marked } fragments)
      (grammar.printFragments { palette := .off, marked } fragments) :=
  .join fun fragment mem => paints_printFragment _ _ (unescaped fragment mem)

theorem paints_print (unescaped : ∀ symbol ∈ grammar.printedSymbols, Unescaped symbol.name) :
    Paints Palette.on.codes (grammar.print { palette := .on, marked })
      (grammar.print { palette := .off, marked }) := by
  rw [← printFragments_fragments, ← printFragments_fragments]
  exact paints_printFragments (unescaped_fragments unescaped)

section Places

variable {code : String}

/-- There is no code in a printed fragment but the one that it begins with. -/
theorem prefix_printFragment_iff (mem : code ∈ Palette.on.codes) (opens : code ≠ Palette.on.reset)
    (unescaped : fragment.IsUnescaped) (before : List Char) :
    before ++ code.toList <+:
        (grammar.printFragment { palette := .on, marked } fragment).toList ↔
      before = [] ∧ grammar.opening? { palette := .on, marked } fragment = some code := by
  have plain := grammar.unescaped_printFragment marked unescaped
  rw [printFragment_on]
  rcases opening_eq : grammar.opening? { palette := .on, marked } fragment with _ | opening
  · simpa using not_prefix_of_unescaped Palette.areCodes_on mem plain before
  · have ends : Palette.on.reset ∈ Palette.on.codes := by decide
    simpa [String.append_assoc] using prefix_coloured_iff Palette.areCodes_on mem
      (mem_codes_of_opening? opening_eq) ends opens plain before

/-- In printed fragments, a code stands where a fragment begins with it. -/
theorem prefix_printFragments_iff (mem : code ∈ Palette.on.codes)
    (opens : code ≠ Palette.on.reset) {fragments : List Fragment}
    (unescaped : ∀ fragment ∈ fragments, fragment.IsUnescaped) (before : List Char) :
    before ++ code.toList <+:
        (grammar.printFragments { palette := .on, marked } fragments).toList ↔
      ∃ front fragment rest, fragments = front ++ fragment :: rest ∧
        grammar.opening? { palette := .on, marked } fragment = some code ∧
        before = (grammar.printFragments { palette := .on, marked } front).toList := by
  induction fragments generalizing before with
  | nil =>
      have nothing : ¬ before ++ code.toList <+: [] :=
        not_prefix_of_unescaped Palette.areCodes_on mem List.not_mem_nil before
      simpa using nothing
  | cons fragment fragments ih =>
      rw [List.forall_mem_cons] at unescaped
      have first := grammar.paints_printFragment marked unescaped.1
      -- The code lies in the first fragment, which then begins with it, or in the other ones.
      rw [printFragments_cons, String.toList_append,
        first.prefix_append_iff Palette.areCodes_on mem,
        prefix_printFragment_iff mem opens unescaped.1]
      simp only [ih unescaped.2]
      constructor
      · rintro (⟨rfl, opening_eq⟩ | ⟨_, rfl, front, next, rest, rfl, opening_eq, rfl⟩)
        · exact ⟨[], fragment, fragments, rfl, opening_eq, rfl⟩
        · exact ⟨fragment :: front, next, rest, rfl, opening_eq, by simp⟩
      · rintro ⟨_ | ⟨first, front⟩, next, rest, fragments_eq, opening_eq, rfl⟩
        · cases fragments_eq
          exact .inl ⟨rfl, opening_eq⟩
        · cases fragments_eq
          exact .inr ⟨_, by simp, front, next, rest, rfl, opening_eq, rfl⟩

/-- Whether an occurrence of a symbol is printed right behind the beginning `before` of the text. -/
def PrintsOccurrence (grammar : Grammar) (style : PrintStyle) (symbol : Symbol) (before : String) :
    Prop :=
  ∃ front rest, grammar.fragments = front ++ .occurrence symbol :: rest ∧
    before = grammar.printFragments style front

/-- Fragments that begin with the code of a role are occurrences of terminals in that role. -/
theorem opening?_eq_some_iff {role : Role} (code_eq : Palette.on.roleCode? role = some code) :
    grammar.opening? { palette := .on } fragment = some code ↔
      ∃ symbol, fragment = .occurrence symbol ∧ symbol.isTerminal ∧ grammar.role symbol = role := by
  rcases Palette.of_roleCode?_on code_eq with ⟨_, not_rule, not_dim, _⟩
  cases fragment with
  | plain text => simp [opening?]
  | ruleName symbol => simp [opening?, not_rule.symm]
  | dim text => simp [opening?, not_dim.symm]
  | occurrence symbol => simp [opening?, Palette.roleCode?_on_iff code_eq]

/-- In the coloured grammar, the code of a role stands where an occurrence of a terminal in that
role is printed. -/
theorem stands_print_iff {role : Role} (code_eq : Palette.on.roleCode? role = some code)
    (unescaped : ∀ symbol ∈ grammar.printedSymbols, Unescaped symbol.name) (before : String) :
    Stands code (grammar.print { palette := .on }) before ↔
      ∃ symbol, grammar.PrintsOccurrence { palette := .on } symbol before ∧ symbol.isTerminal ∧
        grammar.role symbol = role := by
  rcases Palette.of_roleCode?_on code_eq with ⟨mem, _, _, not_reset⟩
  rw [stands_iff, ← printFragments_fragments,
    prefix_printFragments_iff mem not_reset (unescaped_fragments unescaped)]
  simp only [opening?_eq_some_iff code_eq, PrintsOccurrence, String.toList_inj]
  constructor
  · rintro ⟨front, _, rest, fragments_eq, ⟨symbol, rfl, terminal, role_eq⟩, before_eq⟩
    exact ⟨symbol, ⟨front, rest, fragments_eq, before_eq⟩, terminal, role_eq⟩
  · rintro ⟨symbol, ⟨front, rest, fragments_eq, before_eq⟩, terminal, role_eq⟩
    exact ⟨front, _, rest, fragments_eq, ⟨symbol, rfl, terminal, role_eq⟩, before_eq⟩

end Places

end Grammar

namespace Report

variable {report : Report}

theorem unescaped_bracketed {names : List String} (unescaped : ∀ name ∈ names, Unescaped name) :
    Unescaped (bracketed names) := by
  have brackets : Unescaped "[" ∧ Unescaped "]" := by decide
  simp only [bracketed, unescaped_append]
  exact ⟨⟨brackets.1, unescaped_intercalate (by decide) unescaped⟩, brackets.2⟩

theorem forall_mem_sortedNames {symbols : List Symbol} {holds : String → Prop} :
    (∀ name ∈ sortedNames symbols, holds name) ↔ ∀ symbol ∈ symbols, holds symbol.name := by
  simp [sortedNames]

/-- The names in the information text and in that on the search. -/
def informationNames (report : Report) : List String :=
  report.calls ++ report.returns ++ report.pairs.flatMap (fun pair => [pair.1, pair.2]) ++
    report.search.toList.flatMap fun search => search.calls ++ search.returns

theorem unescaped_information (unescaped : ∀ name ∈ report.informationNames, Unescaped name) :
    Unescaped report.information := by
  simp only [informationNames, List.forall_mem_append, List.forall_mem_flatMap] at unescaped
  rcases unescaped with ⟨⟨⟨calls, returns⟩, pairs⟩, _⟩
  have headings : Unescaped "call\t" ∧ Unescaped "\nret \t" ∧ Unescaped "\npairs: \t" ∧
      Unescaped "\n" := by decide
  have parentheses : Unescaped "(" ∧ Unescaped ", " ∧ Unescaped ")" := by decide
  have summary : Unescaped report.verdict.summary := by cases report.verdict <;> decide
  have pair_texts : ∀ text ∈ report.pairs.map (fun pair => "(" ++ pair.1 ++ ", " ++ pair.2 ++ ")"),
      Unescaped text := by
    refine List.forall_mem_map.2 fun pair mem => ?_
    simp only [unescaped_append, parentheses, pairs pair mem, and_true, List.mem_cons, true_or,
      or_true]
  simp only [information, unescaped_append, headings, summary, unescaped_bracketed calls,
    unescaped_bracketed returns, unescaped_bracketed pair_texts, and_self]

theorem unescaped_searchInformation (unescaped : ∀ name ∈ report.informationNames, Unescaped name)
    {text : String} (text_mem : text ∈ report.searchInformation?) : Unescaped text := by
  simp only [informationNames, List.forall_mem_append, List.forall_mem_flatMap] at unescaped
  rcases Option.map_eq_some_iff.1 text_mem with ⟨search, search_eq, rfl⟩
  have names := unescaped.2 search (by simp [search_eq])
  have headings : Unescaped "call\t" ∧ Unescaped "\nret \t" ∧ Unescaped "\n" := by decide
  have outcome : Unescaped (if search.agrees then "Same" else "Different") := by
    cases search.agrees <;> decide
  simp only [unescaped_append, headings, outcome, unescaped_bracketed names.1,
    unescaped_bracketed names.2, and_self]

theorem paints_cycleLine {cycle : CycleReport}
    (unescaped : ∀ name ∈ cycle.nonterminals, Unescaped name) :
    Paints Palette.on.codes (cycleLine .on cycle) (cycleLine .off cycle) := by
  have blanks : Unescaped "  " ∧ Unescaped "\n" := by decide
  have path : Unescaped cycle.path := unescaped_intercalate (by decide) unescaped
  have judgement : Unescaped (if cycle.valid then "valid" else "invalid") := by
    cases cycle.valid <;> decide
  have front : Unescaped ("  " ++ cycle.path ++ "  ") := by
    simp only [unescaped_append, blanks, path, and_self]
  have dim (text : String) (unescaped : Unescaped text) :
      Paints Palette.on.codes (Palette.on.dim ++ text ++ Palette.on.reset) text :=
    .coloured (by decide) (by decide) unescaped
  have line :=
    ((Paints.of_unescaped front).append (dim _ judgement)).append (.of_unescaped blanks.2)
  simpa [cycleLine, Palette.off, String.append_assoc] using line

end Report

namespace Analysis

/-- The symbols whose names are in the dump. -/
def printedSymbols (analysis : Analysis) : List Symbol :=
  analysis.grammar.printedSymbols ++ (analysis.grammar.calls ++ analysis.grammar.returns ++
    analysis.grammar.pairs.flatMap (fun pair => [pair.1, pair.2]) ++
    (analysis.search.toList.flatMap fun search => search.choice.calls ++ search.choice.returns) ++
    analysis.cycles.flatMap JudgedCycle.vertices)

variable {analysis : Analysis}

theorem unescaped_informationNames
    (unescaped : ∀ symbol ∈ analysis.printedSymbols, Unescaped symbol.name) :
    ∀ name ∈ analysis.report.informationNames, Unescaped name := by
  simp only [printedSymbols, List.forall_mem_append, List.forall_mem_flatMap] at unescaped
  rcases unescaped with ⟨_, ⟨⟨⟨calls, returns⟩, pairs⟩, search⟩, _⟩
  simp only [Report.informationNames, List.forall_mem_append, List.forall_mem_flatMap]
  refine ⟨⟨⟨?_, ?_⟩, ?_⟩, ?_⟩
  · exact Report.forall_mem_sortedNames.2 calls
  · exact Report.forall_mem_sortedNames.2 returns
  · refine List.forall_mem_map.2 fun pair mem => ?_
    rw [Grammar.distinctPairs_eq, InsertionOrder.mem_distinct] at mem
    simpa using pairs pair mem
  · intro names names_mem
    rcases Option.map_eq_some_iff.1 (Option.mem_toList.1 names_mem) with ⟨found, found_eq, rfl⟩
    have mem := search found (Option.mem_toList.2 found_eq)
    exact ⟨Report.forall_mem_sortedNames.2 mem.1, Report.forall_mem_sortedNames.2 mem.2⟩

theorem paints_cycles (unescaped : ∀ symbol ∈ analysis.printedSymbols, Unescaped symbol.name) :
    Paints Palette.on.codes
      (String.join (analysis.report.cycles.map (Report.cycleLine .on)))
      (String.join (analysis.report.cycles.map (Report.cycleLine .off))) := by
  simp only [printedSymbols, List.forall_mem_append, List.forall_mem_flatMap] at unescaped
  refine .join (List.forall_mem_map.2 fun cycle mem => Report.paints_cycleLine ?_)
  exact List.forall_mem_map.2 (unescaped.2.2 cycle mem)

theorem paints_dump (unescaped : ∀ symbol ∈ analysis.printedSymbols, Unescaped symbol.name) :
    Paints Palette.on.codes (analysis.dump .on) (analysis.dump .off) := by
  have in_grammar : ∀ symbol ∈ analysis.grammar.printedSymbols, Unescaped symbol.name :=
    fun symbol mem => unescaped symbol (List.mem_append_left _ mem)
  have names := unescaped_informationNames unescaped
  have information := Report.unescaped_information names
  have search :
      Unescaped ((analysis.report.searchInformation?.map ("\nbrute force:\n" ++ ·)).getD "") := by
    rcases text_eq : analysis.report.searchInformation? with _ | text
    · decide
    · exact unescaped_append.2 ⟨by decide, Report.unescaped_searchInformation names text_eq⟩
  unfold dump
  refine .append (.append (.append (.append (Grammar.paints_print in_grammar) ?_) ?_) ?_) ?_
  · exact .of_unescaped (by decide)
  · exact .of_unescaped information
  · split
    · exact .of_unescaped (by decide)
    · exact .append (.of_unescaped (by decide)) (paints_cycles unescaped)
  · exact .of_unescaped search

/--
Colours do not change what is printed. When no printed name has an escape character, deleting the
codes one after the other, in any order, from a coloured dump or a coloured grammar gives the plain
one. A grammar is printed as its fragments, which mention the occurrences in reachable alternatives
in order, and the codes for calls and returns stand where the occurrences of calls and returns are
printed, and nowhere else.
-/
theorem dump_uncoloured (analysis : Analysis)
    (unescaped : ∀ symbol ∈ analysis.printedSymbols, Unescaped symbol.name) :
    (∀ order : List String, order.Perm Palette.on.codes →
      order.foldl withoutCode (analysis.dump .on) = analysis.dump .off ∧
      ∀ marked, order.foldl withoutCode (analysis.grammar.print { palette := .on, marked }) =
        analysis.grammar.print { palette := .off, marked }) ∧
    (∀ style, analysis.grammar.printFragments style analysis.grammar.fragments =
      analysis.grammar.print style) ∧
    analysis.grammar.fragments.filterMap Fragment.occurring? =
      analysis.grammar.reachableAlternatives.flatMap (·.map Occurrence.symbol) ∧
    ∀ before,
      (Stands Palette.on.call (analysis.grammar.print { palette := .on }) before ↔
        ∃ symbol, analysis.grammar.PrintsOccurrence { palette := .on } symbol before ∧
          symbol.isTerminal ∧ analysis.grammar.role symbol = .call) ∧
      (Stands Palette.on.ret (analysis.grammar.print { palette := .on }) before ↔
        ∃ symbol, analysis.grammar.PrintsOccurrence { palette := .on } symbol before ∧
          symbol.isTerminal ∧ analysis.grammar.role symbol = .return) := by
  have in_grammar : ∀ symbol ∈ analysis.grammar.printedSymbols, Unescaped symbol.name :=
    fun symbol mem => unescaped symbol (List.mem_append_left _ mem)
  refine ⟨fun order perm => ?_, fun style => Grammar.printFragments_fragments _ style,
    analysis.grammar.occurring?_fragments, fun before =>
      ⟨Grammar.stands_print_iff rfl in_grammar before,
        Grammar.stands_print_iff rfl in_grammar before⟩⟩
  have are_codes : AreCodes order := Palette.areCodes_on.mono perm.subset
  have deleted {text plain : String} (paints : Paints Palette.on.codes text plain) :
      order.foldl withoutCode text = plain :=
    (paints.mono perm.symm.subset).foldl_withoutCode are_codes
  exact ⟨deleted (paints_dump unescaped), fun marked => deleted (Grammar.paints_print in_grammar)⟩

/-- Nested brackets around a plain terminal, whose name is like the end of a code. -/
def nests : Analysis where
  grammar :=
    { start := ⟨"nest", .nonterminal⟩
      symbols :=
        [⟨"nest", .nonterminal⟩, ⟨"[", .terminal⟩, ⟨"]", .terminal⟩, ⟨"[32m", .terminal⟩]
      rules :=
        [(⟨"nest", .nonterminal⟩,
            [[.bare ⟨"[", .terminal⟩, ⟨⟨"nest", .nonterminal⟩, .star⟩, .bare ⟨"]", .terminal⟩],
              [.bare ⟨"[32m", .terminal⟩]])]
      pairs := [(⟨"[", .terminal⟩, ⟨"]", .terminal⟩)]
      calls := [⟨"[", .terminal⟩]
      returns := [⟨"]", .terminal⟩] }
  hadLeftRecursion := false
  verdict := .visiblyPushdown
  cycles := [⟨[⟨"nest", .nonterminal⟩], true⟩]
  search := none

theorem dump_uncoloured_nests :
    (∀ symbol ∈ nests.printedSymbols, Unescaped symbol.name) ∧
      Palette.on.codes.reverse.foldl withoutCode (nests.dump .on) = nests.dump .off ∧
      Stands Palette.on.call (nests.grammar.print { palette := .on })
        "\x1b[34mnest\x1b[0m\t\x1b[2m:\x1b[0m " := by
  have unescaped : ∀ symbol ∈ nests.printedSymbols, Unescaped symbol.name := by decide
  rcases dump_uncoloured nests unescaped with ⟨deleted, _, _, places⟩
  refine ⟨unescaped, (deleted _ (List.reverse_perm _)).1, (places _).1.2 ?_⟩
  refine ⟨⟨"[", .terminal⟩, ⟨nests.grammar.fragments.take 4, nests.grammar.fragments.drop 5,
    ?_, ?_⟩, ?_⟩ <;> decide

end Analysis

end VisiblyPushdown
