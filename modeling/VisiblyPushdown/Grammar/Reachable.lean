import VisiblyPushdown.Grammar.Basic

/-!
# Reachable symbols

Nonterminals are explored from a root with a stack: the nonterminal on top is visited, and those of
its successors that were not seen before are put on the stack, the last one on top. Each nonterminal
is put there at most once and, the root apart, only because some alternative mentions it, so
the number of occurrences in the rules bounds the number of visits.
-/

namespace VisiblyPushdown.Grammar

/-- The nonterminals that occur in the alternatives of a symbol, in order and with repetition. -/
def successors (grammar : Grammar) (symbol : Symbol) : List Symbol :=
  (grammar.alternatives symbol).flatMap fun alternative =>
    (alternative.map Occurrence.symbol).filter Symbol.isNonterminal

/-- The number of occurrences in all rules of the grammar. -/
def occurrenceCount (grammar : Grammar) : Nat :=
  (grammar.rules.flatMap fun rule => rule.2.flatten).length

/-- Visits at most `visits` symbols from a stack, top first, and lists them in that order. -/
def explore (next : Symbol → List Symbol) : (visits : Nat) → (stack seen : List Symbol) →
    List Symbol
  | 0, _, _ => []
  | _ + 1, [], _ => []
  | visits + 1, symbol :: stack, seen =>
    let fresh := InsertionOrder.distinct ((next symbol).filter (· ∉ seen))
    symbol :: explore next visits (fresh.reverse ++ stack) (seen ++ fresh)

/-- The root and every nonterminal reachable from it, in the order of their visits. -/
def reachableFrom (grammar : Grammar) (root : Symbol) : List Symbol :=
  explore grammar.successors (grammar.occurrenceCount + 1) [root] [root]

/-- The nonterminals reachable from the start symbol, which comes first. -/
def reachable (grammar : Grammar) : List Symbol :=
  grammar.reachableFrom grammar.start

@[simp]
theorem head?_reachable (grammar : Grammar) : grammar.reachable.head? = some grammar.start :=
  rfl

/-- The alternatives of all reachable nonterminals, nonterminal by nonterminal. -/
def reachableAlternatives (grammar : Grammar) : List Alternative :=
  grammar.reachable.flatMap grammar.alternatives

/-- The terminals of all reachable alternatives, each at the place of its first occurrence. -/
def reachableTerminals (grammar : Grammar) : List Symbol :=
  OrderedSet.toList <| OrderedSet.ofList compare <|
    (grammar.reachableAlternatives.flatMap (·.map Occurrence.symbol)).filter Symbol.isTerminal

@[simp]
theorem mem_reachableTerminals {grammar : Grammar} {symbol : Symbol} :
    symbol ∈ grammar.reachableTerminals ↔ symbol.isTerminal ∧
      ∃ alternative ∈ grammar.reachableAlternatives,
        ∃ occurrence ∈ alternative, occurrence.symbol = symbol := by
  simp [reachableTerminals, and_comm]

/-- Brings the stored reachable symbols up to date with the rules. -/
def refresh (grammar : Grammar) : Grammar :=
  { grammar with
    nonterminals := grammar.reachable
    terminals := grammar.reachableTerminals }

/-- Whether any terminal is reachable from a symbol. -/
def canDeriveNonempty (grammar : Grammar) (symbol : Symbol) : Bool :=
  (grammar.reachableFrom symbol).any fun reached =>
    (grammar.alternatives reached).any fun alternative =>
      alternative.any fun occurrence => occurrence.symbol.isTerminal

end VisiblyPushdown.Grammar
