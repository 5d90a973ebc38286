import VisiblyPushdown.Grammar.Reachable
import VisiblyPushdown.LookupTable
import VisiblyPushdown.Sorting

/-!
# Tagging

Terminals are tagged as calls and returns in three passes: `harvest` collects candidate pairs from
every reachable alternative, `assignRoles` commits them from the most frequent to the least, and
`demoteUnmatched` takes the tag from terminals that outnumber their partner in some alternative.
`tag` runs harvest, assignment, demotion and assignment again.

Pair tables grow with the square of an alternative's length, so pairs are counted, and partners
found, with search trees. `rankByFrequency_eq` and `unmatched_eq` say what the answers are in terms
of the plain lists.
-/

namespace VisiblyPushdown

namespace Alternative

/-- The terminals that stand in an alternative without a repetition mark, in order. -/
def bareTerminals (alternative : Alternative) : List Symbol :=
  (alternative.filter Occurrence.isBareTerminal).map Occurrence.symbol

/--
The terminals that a walk through an alternative finds untaggable, in order: those that carry a
repetition mark and those without one that are in no pair, neither with a terminal behind them nor
with one that was passed before. `paired` holds the terminals that are in some pair so far.
-/
def untaggableFrom (paired : SymbolSet) : Alternative → List Symbol
  | [] => []
  | occurrence :: rest =>
    let terminal := occurrence.symbol
    if occurrence.isBareTerminal then
      let partners := (bareTerminals rest).reverse.filter (· ≠ terminal)
      if partners ≠ [] then
        untaggableFrom (partners.foldl .insert (paired.insert terminal)) rest
      else if paired.contains terminal then untaggableFrom paired rest
      else terminal :: untaggableFrom paired rest
    else if terminal.isTerminal then terminal :: untaggableFrom paired rest
    else untaggableFrom paired rest

/-- The terminals of an alternative that cannot be tagged, in order. -/
def untaggable (alternative : Alternative) : List Symbol :=
  untaggableFrom .empty alternative

/-- The number of occurrences of a symbol without a repetition mark. -/
def bareCount (alternative : Alternative) (symbol : Symbol) : Nat :=
  alternative.countP fun occurrence => occurrence.symbol = symbol && occurrence.repetition = .once

end Alternative

namespace TerminalPair

/--
The candidate pairs of a sequence of terminals: each terminal with every different one behind it,
the last one first.
-/
def ofTerminals : List Symbol → List TerminalPair
  | [] => []
  | terminal :: rest =>
    (rest.reverse.filter (· ≠ terminal)).map (terminal, ·) ++ ofTerminals rest

end TerminalPair

/-- The distinct pairs of a multiset, most frequent first; equals keep the order of the multiset. -/
def rankByFrequency (pairs : List TerminalPair) : List TerminalPair :=
  let counts := LookupTable.multiplicities TerminalPair.order pairs
  let counted := (OrderedSet.ofList TerminalPair.order pairs).toList.map fun pair =>
    (pair, counts.getD pair 0)
  let frequencies := (OrderedSet.ofList compare (counted.map Prod.snd)).toList
  (sort (fun left right => right ≤ left) frequencies).flatMap fun frequency =>
    (counted.filter (·.2 = frequency)).map Prod.fst

theorem rankByFrequency_eq (pairs : List TerminalPair) :
    rankByFrequency pairs =
      (sort (fun left right => right ≤ left)
        (InsertionOrder.distinct ((InsertionOrder.distinct pairs).map (pairs.count ·)))).flatMap
          fun frequency => (InsertionOrder.distinct pairs).filter (pairs.count · = frequency) := by
  simp [rankByFrequency, LookupTable.getD_multiplicities, List.filter_map, Function.comp_def]

/-- Call and return terminals in the order of their commitment. -/
structure RoleAssignment where
  calls : SymbolSet := .empty
  returns : SymbolSet := .empty

namespace RoleAssignment

/--
Whether a pair cannot be committed any more: its sides are the same terminal, one side can never be
tagged, or one side has the opposite role already.
-/
def contradicts (plain : SymbolSet) (assigned : RoleAssignment) (pair : TerminalPair) : Bool :=
  pair.1 = pair.2 || plain.contains pair.1 || plain.contains pair.2 ||
    assigned.returns.contains pair.1 || assigned.calls.contains pair.2

/-- Commits a pair, or passes it over when it contradicts what was committed before. -/
def commit (plain : SymbolSet) (assigned : RoleAssignment) (pair : TerminalPair) :
    RoleAssignment :=
  if assigned.contradicts plain pair then assigned
  else
    { calls := assigned.calls.insert pair.1
      returns := assigned.returns.insert pair.2 }

/-- Commits the pairs of a multiset from the most frequent to the least. -/
def ofPairs (plain : SymbolSet) (pairs : List TerminalPair) : RoleAssignment :=
  (rankByFrequency pairs).foldl (commit plain) {}

end RoleAssignment

namespace Grammar

/--
Collects the candidate pairs of every reachable alternative and the terminals that can never be
tagged. The stored reachable symbols are brought up to date first.
-/
def harvest (grammar : Grammar) : Grammar :=
  let grammar := grammar.refresh
  let alternatives := grammar.reachableAlternatives
  { grammar with
    pairs := alternatives.flatMap (TerminalPair.ofTerminals ·.bareTerminals)
    plain := (OrderedSet.ofList compare (alternatives.flatMap Alternative.untaggable)).toList }

/--
Tags terminals by the frequency of their pairs. On demand, the pairs that were passed over are
dropped; those are the ones that contradict the tagging in the end, for a terminal keeps its role
once it has one, and a committed pair has given its sides roles that later pairs respect.
-/
def assignRoles (grammar : Grammar) (dropRejected : Bool) : Grammar :=
  let plain := OrderedSet.ofList compare grammar.plain
  let assigned := RoleAssignment.ofPairs plain grammar.pairs
  { grammar with
    calls := assigned.calls.toList
    returns := assigned.returns.toList
    pairs :=
      if dropRejected then grammar.pairs.filter (!assigned.contradicts plain ·) else grammar.pairs }

/-- The return of the first pair that has the terminal as its call. -/
def returnOf? (grammar : Grammar) (call : Symbol) : Option Symbol :=
  grammar.pairs.lookup call

/-- The call of the first pair that has the terminal as its return. -/
def callOf? (grammar : Grammar) (ret : Symbol) : Option Symbol :=
  (grammar.pairs.map Prod.swap).lookup ret

/-- The partner of a tagged terminal among given ones; a terminal without a tag has none. -/
def partnerAmong (grammar : Grammar) (returnOf? callOf? : Symbol → Option Symbol)
    (terminal : Symbol) : Option Symbol :=
  match grammar.role terminal with
  | .call => returnOf? terminal
  | .return => callOf? terminal
  | .plain => none

/-- The partner of a tagged terminal. -/
def partner? (grammar : Grammar) : Symbol → Option Symbol :=
  grammar.partnerAmong grammar.returnOf? grammar.callOf?

/-- The terminals of an alternative that are tagged and outnumber their partner in it. -/
def unmatchedIn (grammar : Grammar) (partner? : Symbol → Option Symbol)
    (alternative : Alternative) : List Symbol :=
  (OrderedSet.ofList compare alternative.bareTerminals).toList.filter fun terminal =>
    grammar.role terminal ≠ .plain &&
      ((partner? terminal).map alternative.bareCount).getD 0 < alternative.bareCount terminal

/-- The terminals that outnumber their partner in some reachable alternative. -/
def unmatched (grammar : Grammar) : List Symbol :=
  let returns := LookupTable.firstValues compare grammar.pairs
  let calls := LookupTable.firstValues compare (grammar.pairs.map Prod.swap)
  let partner? := grammar.partnerAmong (returns[·]?) (calls[·]?)
  InsertionOrder.distinct (grammar.reachableAlternatives.flatMap (grammar.unmatchedIn partner?))

theorem unmatched_eq (grammar : Grammar) :
    grammar.unmatched = InsertionOrder.distinct
      (grammar.reachableAlternatives.flatMap (grammar.unmatchedIn grammar.partner?)) := by
  simp only [unmatched, LookupTable.getElem?_firstValues]
  rfl

/-- Takes the tag from every terminal that outnumbers its partner in some reachable alternative. -/
def demoteUnmatched (grammar : Grammar) : Grammar :=
  let demoted := grammar.unmatched
  { grammar with
    calls := grammar.calls.filter (· ∉ demoted)
    returns := grammar.returns.filter (· ∉ demoted)
    plain := InsertionOrder.insertAll grammar.plain demoted }

/-- The pairs of the pair table without repetition, in the order of first harvest. -/
def distinctPairs (grammar : Grammar) : List TerminalPair :=
  (OrderedSet.ofList TerminalPair.order grammar.pairs).toList

@[simp]
theorem distinctPairs_eq (grammar : Grammar) :
    grammar.distinctPairs = InsertionOrder.distinct grammar.pairs :=
  OrderedSet.toList_ofList grammar.pairs

/-- Tags the grammar in two rounds, with a repair between them. -/
def tag (grammar : Grammar) (dropRejected : Bool) : Grammar :=
  grammar.harvest
    |>.assignRoles dropRejected
    |>.demoteUnmatched
    |>.assignRoles dropRejected

end Grammar

end VisiblyPushdown
