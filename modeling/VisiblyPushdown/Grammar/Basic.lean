import VisiblyPushdown.OrderedSet
import VisiblyPushdown.Symbol

/-!
# Grammars

A grammar is a table of symbols, the alternatives of its nonterminals and the state of its tagging:
candidate call/return pairs, terminals that can never be tagged, and the call and return terminals.
The table keeps symbols in the order in which they were first mentioned, and a symbol's position in
it never changes. Alternatives of one nonterminal are distinct and keep the order in which they were
added. `alternatives_setAlternatives` says that replacing the alternatives of one nonterminal
touches no other.
-/

namespace VisiblyPushdown

/-- A set of symbols with a search tree. -/
abbrev SymbolSet := OrderedSet (compare : Symbol → Symbol → Ordering)

/-- A candidate pair: a call terminal and the return terminal that closes it. -/
abbrev TerminalPair := Symbol × Symbol

namespace TerminalPair

/-- Orders pairs by their calls, and pairs with the same call by their returns. -/
def order : TerminalPair → TerminalPair → Ordering :=
  compareLex (compareOn Prod.fst) (compareOn Prod.snd)

instance : Std.TransCmp order :=
  inferInstanceAs (Std.TransCmp (compareLex (compareOn Prod.fst) (compareOn Prod.snd)))

instance : Std.LawfulEqCmp order where
  eq_of_compare {left right} same := by
    rw [order, compareLex, Ordering.then_eq_eq] at same
    exact Prod.ext (Std.LawfulEqOrd.eq_of_compare same.1) (Std.LawfulEqOrd.eq_of_compare same.2)

end TerminalPair

/--
A grammar together with its tagging. `nonterminals` and `terminals` are the symbols that were
reachable from the start symbol when the grammar was last refreshed; `pairs` is a multiset in the
order of harvest.
-/
structure Grammar where
  name : Option String := none
  start : Symbol
  symbols : List Symbol := []
  rules : List (Symbol × List Alternative) := []
  nonterminals : List Symbol := []
  terminals : List Symbol := []
  pairs : List TerminalPair := []
  plain : List Symbol := []
  calls : List Symbol := []
  returns : List Symbol := []
deriving DecidableEq, Repr

/-- The part that a terminal plays in a tagged grammar. -/
inductive Role where
  | call
  | return
  | plain
deriving DecidableEq, Repr

namespace Grammar

/-- The grammar that holds nothing but its start nonterminal. -/
def ofStart (name : String) : Grammar :=
  let start : Symbol := ⟨name, .nonterminal⟩
  { start, symbols := [start], nonterminals := [start] }

/-- Makes sure that a symbol is in the table. -/
def intern (grammar : Grammar) (symbol : Symbol) : Grammar :=
  { grammar with symbols := InsertionOrder.insert grammar.symbols symbol }

/-- The position of a symbol in the table. -/
def index? (grammar : Grammar) (symbol : Symbol) : Option Nat :=
  grammar.symbols.idxOf? symbol

/-- Every nonterminal of the table, reachable or not. -/
def tabledNonterminals (grammar : Grammar) : List Symbol :=
  grammar.symbols.filter Symbol.isNonterminal

/-- The alternatives of a symbol; a terminal has none. -/
def alternatives (grammar : Grammar) (symbol : Symbol) : List Alternative :=
  (grammar.rules.lookup symbol).getD []

/-- Replaces the alternatives of a nonterminal; a terminal is left alone. -/
def setAlternatives (grammar : Grammar) (symbol : Symbol) (alternatives : List Alternative) :
    Grammar :=
  if symbol.isTerminal then grammar
  else { grammar with rules := InsertionOrder.put grammar.rules symbol alternatives }

/-- Adds one alternative to a nonterminal unless it has that alternative already. -/
def addAlternative (grammar : Grammar) (symbol : Symbol) (alternative : Alternative) : Grammar :=
  grammar.setAlternatives symbol (InsertionOrder.insert (grammar.alternatives symbol) alternative)

/-- The role of a terminal under the current tagging. -/
def role (grammar : Grammar) (terminal : Symbol) : Role :=
  if terminal ∈ grammar.calls then .call
  else if terminal ∈ grammar.returns then .return
  else .plain

/-- Reachable terminals that are tagged neither call nor return. -/
def plainTerminals (grammar : Grammar) : List Symbol :=
  grammar.terminals.filter fun terminal =>
    terminal ∉ grammar.calls ∧ terminal ∉ grammar.returns

@[simp]
theorem alternatives_intern (grammar : Grammar) (added symbol : Symbol) :
    (grammar.intern added).alternatives symbol = grammar.alternatives symbol :=
  rfl

theorem alternatives_setAlternatives_self (grammar : Grammar) {symbol : Symbol}
    (nonterminal : symbol.isTerminal = false) (alternatives : List Alternative) :
    (grammar.setAlternatives symbol alternatives).alternatives symbol = alternatives := by
  simp [setAlternatives, nonterminal, Grammar.alternatives]

theorem alternatives_setAlternatives_of_ne (grammar : Grammar) {symbol other : Symbol}
    (different : other ≠ symbol) (alternatives : List Alternative) :
    (grammar.setAlternatives symbol alternatives).alternatives other =
      grammar.alternatives other := by
  unfold setAlternatives
  split
  · rfl
  · simp [Grammar.alternatives, InsertionOrder.lookup_put_of_ne _ _ different]

end Grammar

end VisiblyPushdown
