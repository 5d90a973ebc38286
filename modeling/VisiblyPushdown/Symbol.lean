import Std.Data.TreeSet

/-!
# Symbols

The vocabulary of grammars. A symbol is a name together with its kind, so a terminal and a
nonterminal may share a name and stay distinct. An alternative is a sequence of occurrences, and
each occurrence says how often its symbol may be repeated at that place.
-/

namespace VisiblyPushdown

/-- Whether a symbol stands for itself or is expanded by rules. -/
inductive Kind where
  | terminal
  | nonterminal
deriving DecidableEq, Repr, Hashable

/-- A grammar symbol; symbols are the same when both name and kind agree. -/
structure Symbol where
  name : String
  kind : Kind
deriving DecidableEq, Repr, Hashable

namespace Symbol

/-- Whether the symbol is a terminal. -/
def isTerminal (symbol : Symbol) : Bool :=
  symbol.kind = .terminal

/-- Whether the symbol is a nonterminal. -/
def isNonterminal (symbol : Symbol) : Bool :=
  symbol.kind = .nonterminal

/-- Orders symbols by name, and nonterminals before terminals of the same name. -/
instance : Ord Symbol where
  compare := compareLex (compareOn Symbol.name) (compareOn Symbol.isTerminal)

instance : Std.TransOrd Symbol :=
  inferInstanceAs (Std.TransCmp (compareLex (compareOn Symbol.name) (compareOn Symbol.isTerminal)))

instance : Std.LawfulEqOrd Symbol where
  eq_of_compare {left right} same := by
    rcases left with ⟨leftName, leftKind⟩
    rcases right with ⟨rightName, rightKind⟩
    simp only [compare, compareLex, compareOn, Ordering.then_eq_eq] at same
    obtain ⟨sameName, sameKind⟩ := same
    obtain rfl : leftName = rightName := Std.LawfulEqOrd.eq_of_compare sameName
    cases leftKind <;> cases rightKind <;> first | rfl | cases sameKind

@[simp]
theorem not_isTerminal (symbol : Symbol) : (!symbol.isTerminal) = symbol.isNonterminal := by
  rcases symbol with ⟨name, _ | _⟩ <;> rfl

end Symbol

/-- How often a symbol may stand at one place: once, or under one of the marks `?`, `*`, `+`. -/
inductive Repetition where
  | once
  | optional
  | star
  | plus
deriving DecidableEq, Repr, Hashable

namespace Repetition

/-- The mark that is written behind the symbol. -/
def mark : Repetition → String
  | once => ""
  | optional => "?"
  | star => "*"
  | plus => "+"

/-- The part that the repetition contributes to the name of a span. -/
def tag : Repetition → String
  | once => ""
  | optional => "^OPTIONAL"
  | star => "^STAR"
  | plus => "^PLUS"

end Repetition

/-- One place in an alternative. -/
structure Occurrence where
  symbol : Symbol
  repetition : Repetition := .once
deriving DecidableEq, Repr, Hashable

namespace Occurrence

/-- An occurrence without a repetition mark. -/
def bare (symbol : Symbol) : Occurrence :=
  { symbol }

/-- Whether the occurrence is a terminal without a repetition mark. -/
def isBareTerminal (occurrence : Occurrence) : Bool :=
  occurrence.symbol.isTerminal && occurrence.repetition = .once

end Occurrence

/-- One right-hand side of a rule; the empty sequence derives the empty word. -/
abbrev Alternative := List Occurrence

end VisiblyPushdown
