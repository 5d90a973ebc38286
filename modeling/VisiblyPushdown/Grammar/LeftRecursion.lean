import VisiblyPushdown.Grammar.FreshName
import VisiblyPushdown.Grammar.Reachable

/-!
# Immediate left recursion

A nonterminal `A` is immediately left recursive when one of its alternatives starts with `A` itself.
Such a nonterminal is made to recurse on the right instead: `A : A α | β` becomes `A : β A'` and
`A' : α A' |`, with a new nonterminal `A'`. Without any `β` the head keeps the single alternative
`A'`. Recursion that passes through other nonterminals is left as it is.
-/

namespace VisiblyPushdown

namespace Alternative

/-- Whether the first occurrence of an alternative is of the given symbol. -/
def startsWith (symbol : Symbol) : Alternative → Bool
  | [] => false
  | first :: _ => first.symbol = symbol

end Alternative

namespace Grammar

/-- Whether some alternative of the symbol starts with the symbol itself. -/
def isImmediatelyLeftRecursive (grammar : Grammar) (symbol : Symbol) : Bool :=
  (grammar.alternatives symbol).any (Alternative.startsWith symbol)

/-- Whether a reachable nonterminal is immediately left recursive. -/
def isLeftRecursive (grammar : Grammar) : Bool :=
  grammar.reachable.any grammar.isImmediatelyLeftRecursive

/-- A nonterminal that is not in the table yet, named after another with primes behind it. -/
def freshNonterminal (grammar : Grammar) (base : String) : Symbol :=
  ⟨firstFree (fun name => (⟨name, .nonterminal⟩ : Symbol) ∈ grammar.symbols)
    grammar.symbols.length (base ++ "'"), .nonterminal⟩

/--
Makes one nonterminal recurse on the right. The second part of the answer lists the
nonterminal that was introduced, if one was needed.
-/
def unwind (grammar : Grammar) (symbol : Symbol) : Grammar × List Symbol :=
  if grammar.isImmediatelyLeftRecursive symbol then
    let (recursive, based) :=
      (grammar.alternatives symbol).partition (Alternative.startsWith symbol)
    let again := grammar.freshNonterminal symbol.name
    let tail := [Occurrence.bare again]
    let heads := if based.isEmpty then [tail] else based.map (· ++ tail)
    let continuations := recursive.map (fun alternative => alternative.tail ++ tail) ++ [[]]
    let grammar := grammar.intern again
      |>.setAlternatives symbol (InsertionOrder.distinct heads)
      |>.setAlternatives again (InsertionOrder.distinct continuations)
    (grammar, [again])
  else (grammar, [])

/--
Makes every nonterminal of the table, reachable or not, recurse on the right, and lists the
nonterminals that were introduced.
-/
def removeLeftRecursion (grammar : Grammar) : Grammar × List Symbol :=
  let (grammar, created) := grammar.tabledNonterminals.foldl
    (fun (grammar, created) symbol =>
      let (grammar, introduced) := grammar.unwind symbol
      (grammar, created ++ introduced))
    (grammar, [])
  (grammar.refresh, created)

end Grammar

end VisiblyPushdown
