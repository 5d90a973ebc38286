import VisiblyPushdown.Grammar.Printer

/-!
# Fragments of printed grammars

A printed grammar is a sequence of fragments: names of rules, punctuation and marks, occurrences of
symbols, and separators between them. The fragments are the same for every style, which only says
how each of them is printed. `printFragments_fragments` says that the fragments make up the printed
grammar, and `occurring?_fragments` that their occurrences are those of the reachable alternatives.
-/

namespace VisiblyPushdown

/-- A part of a printed grammar. -/
inductive Fragment where
  /-- A separator. -/
  | plain (text : String)
  /-- The name of a nonterminal in front of its alternatives. -/
  | ruleName (symbol : Symbol)
  /-- Punctuation or a repetition mark. -/
  | dim (text : String)
  /-- An occurrence in an alternative, without its repetition mark. -/
  | occurrence (symbol : Symbol)
deriving DecidableEq, Repr

namespace Fragment

/-- The symbol that a fragment is an occurrence of. -/
def occurring? : Fragment → Option Symbol
  | occurrence symbol => some symbol
  | _ => none

end Fragment

namespace Grammar

/-- How a fragment is printed. -/
def printFragment (grammar : Grammar) (style : PrintStyle) : Fragment → String
  | .plain text => text
  | .ruleName symbol => style.palette.rule ++ symbol.name ++ style.palette.reset
  | .dim text => style.palette.dim ++ text ++ style.palette.reset
  | .occurrence symbol => grammar.printSymbol style symbol

/-- How fragments are printed, one after the other. -/
def printFragments (grammar : Grammar) (style : PrintStyle) (fragments : List Fragment) : String :=
  String.join (fragments.map (grammar.printFragment style))

end Grammar

/-- The fragments of one occurrence; there is no mark on one that is not repeated. -/
def Occurrence.fragments (occurrence : Occurrence) : List Fragment :=
  [.plain " ", .occurrence occurrence.symbol] ++
    if occurrence.repetition = .once then [] else [.dim occurrence.repetition.mark]

/-- The fragments of the alternatives of a rule. -/
def alternativesFragments : List Alternative → List Fragment
  | [] => []
  | first :: others =>
    [.plain "\t", .dim ":"] ++ first.flatMap Occurrence.fragments ++
      others.flatMap fun other => [.plain "\n\t", .dim "|"] ++ other.flatMap Occurrence.fragments

namespace Grammar

/-- The fragments of one rule. -/
def ruleFragments (grammar : Grammar) (symbol : Symbol) : List Fragment :=
  [.ruleName symbol] ++ alternativesFragments (grammar.alternatives symbol) ++
    [.plain "\n\t", .dim ";"]

/-- The fragments of a printed grammar. -/
def fragments (grammar : Grammar) : List Fragment :=
  [Fragment.plain "\n\n"].intercalate (grammar.reachable.map grammar.ruleFragments)

section Printing

variable (grammar : Grammar) (style : PrintStyle)

@[simp]
theorem printFragments_nil : grammar.printFragments style [] = "" :=
  rfl

@[simp]
theorem printFragments_cons (fragment : Fragment) (rest : List Fragment) :
    grammar.printFragments style (fragment :: rest) =
      grammar.printFragment style fragment ++ grammar.printFragments style rest :=
  String.join_cons

@[simp]
theorem printFragments_append (first second : List Fragment) :
    grammar.printFragments style (first ++ second) =
      grammar.printFragments style first ++ grammar.printFragments style second := by
  rw [printFragments, List.map_append, String.join_append, printFragments, printFragments]

theorem printFragments_flatMap {α : Type} (parts : α → List Fragment) (items : List α) :
    grammar.printFragments style (items.flatMap parts) =
      String.join (items.map fun item => grammar.printFragments style (parts item)) := by
  induction items with
  | nil => rfl
  | cons item items ih => simp [ih]

theorem printFragments_intercalate (separator : List Fragment) (parts : List (List Fragment)) :
    grammar.printFragments style (separator.intercalate parts) =
      (grammar.printFragments style separator).intercalate
        (parts.map (grammar.printFragments style)) := by
  induction parts with
  | nil => rfl
  | cons part parts ih =>
      cases parts with
      | nil => simp
      | cons next parts => simp [List.intercalate_cons_cons, ih, String.append_assoc]

theorem printFragments_occurrence (occurrence : Occurrence) :
    grammar.printFragments style occurrence.fragments =
      grammar.printOccurrence style occurrence := by
  unfold Occurrence.fragments printOccurrence
  split <;> simp [printFragment, String.append_assoc]

theorem printFragments_alternatives (alternatives : List Alternative) :
    grammar.printFragments style (alternativesFragments alternatives) =
      grammar.printAlternatives style alternatives := by
  cases alternatives with
  | nil => rfl
  | cons first others =>
      simp [alternativesFragments, printAlternatives, printAlternative, printFragments_flatMap,
        printFragments_occurrence, printFragment, String.append_assoc]

theorem printFragments_rule (symbol : Symbol) :
    grammar.printFragments style (grammar.ruleFragments symbol) =
      grammar.printRule style symbol := by
  simp [ruleFragments, printRule, printFragments_alternatives, printFragment, String.append_assoc]

/-- A printed grammar consists of its fragments. -/
theorem printFragments_fragments :
    grammar.printFragments style grammar.fragments = grammar.print style := by
  rw [fragments, printFragments_intercalate, print, List.map_map]
  exact congrArg _ (List.map_congr_left fun symbol _ => grammar.printFragments_rule style symbol)

end Printing

end Grammar

section Occurrences

open Fragment

theorem occurring?_occurrence (occurrence : Occurrence) :
    occurrence.fragments.filterMap occurring? = [occurrence.symbol] := by
  unfold Occurrence.fragments
  split <;> rfl

theorem occurring?_alternatives (alternatives : List Alternative) :
    (alternativesFragments alternatives).filterMap occurring? =
      alternatives.flatMap (·.map Occurrence.symbol) := by
  cases alternatives with
  | nil => rfl
  | cons first others =>
      simp [alternativesFragments, List.filterMap_flatMap, List.filterMap_cons, occurring?,
        occurring?_occurrence, ← List.map_eq_flatMap]

theorem filterMap_intercalate {α β : Type} (view : α → Option β) {separator : List α}
    (none_eq : separator.filterMap view = []) (parts : List (List α)) :
    (separator.intercalate parts).filterMap view = parts.flatMap (List.filterMap view) := by
  induction parts with
  | nil => rfl
  | cons part parts ih =>
      cases parts with
      | nil => simp
      | cons next parts => simp [List.intercalate_cons_cons, ih, none_eq]

/-- The printed occurrences are those of the reachable alternatives, in order. -/
theorem Grammar.occurring?_fragments (grammar : Grammar) :
    grammar.fragments.filterMap occurring? =
      grammar.reachableAlternatives.flatMap (·.map Occurrence.symbol) := by
  have rule_eq (symbol : Symbol) : (grammar.ruleFragments symbol).filterMap occurring? =
      (grammar.alternatives symbol).flatMap (·.map Occurrence.symbol) := by
    simp [ruleFragments, List.filterMap_cons, occurring?, occurring?_alternatives]
  rw [fragments, filterMap_intercalate occurring? rfl, List.flatMap_map]
  simp only [rule_eq, reachableAlternatives, List.flatMap_assoc]

end Occurrences

end VisiblyPushdown
