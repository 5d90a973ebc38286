import VisiblyPushdown.Grammar.FreshName
import VisiblyPushdown.Grammar.Tagging

/-!
# Simple form

In simple form at most one symbol stands between a call and the return that matches it in the same
alternative. A longer interior, a *span*, is moved into a nonterminal of its own, named after the
symbols of the span. Equal spans share their nonterminal; a name that already stands for something
else gets primes.

The nonterminals are treated one after the other from a queue: first those that were reachable, then
the new ones, for a span can hold further calls and returns. Each new nonterminal takes one call
occurrence out of the supply for good, so their number bounds the length of the run.
-/

namespace VisiblyPushdown

namespace Alternative

/--
The distance from an occurrence of a call to the return that matches it, counted in the occurrences
between them. `depth` is the number of calls of the same terminal that are still open.
-/
def matchingReturn? (call ret : Symbol) (depth : Nat) : Alternative → Option Nat
  | [] => none
  | occurrence :: rest =>
    if occurrence.symbol = call then
      (matchingReturn? call ret (depth + 1) rest).map (· + 1)
    else if occurrence.symbol = ret then
      match depth with
      | 0 => some 0
      | depth + 1 => (matchingReturn? call ret depth rest).map (· + 1)
    else (matchingReturn? call ret depth rest).map (· + 1)

/-- The name under which a span is looked up first. -/
def spanName (span : Alternative) : String :=
  span.foldl
    (fun name occurrence => name ++ "_" ++ occurrence.symbol.name ++ occurrence.repetition.tag) "_L"

end Alternative

/-- A grammar on its way to simple form, with the nonterminals created so far and their spans. -/
structure SpanExtraction where
  grammar : Grammar
  spans : List (Symbol × Alternative) := []
deriving DecidableEq, Repr

namespace SpanExtraction

/--
Whether a nonterminal stands for a span: it was created for it, or it is an older nonterminal whose
only alternative is the span.
-/
def standsFor (extraction : SpanExtraction) (span : Alternative) (symbol : Symbol) : Bool :=
  match extraction.spans.lookup symbol with
  | some created => created = span
  | none => extraction.grammar.alternatives symbol = [span]

/-- The nonterminal that stands for a span, created if there is none. -/
def extract (extraction : SpanExtraction) (span : Alternative) : Symbol × SpanExtraction :=
  let named (name : String) : Symbol := ⟨name, .nonterminal⟩
  let taken (name : String) : Bool :=
    named name ∈ extraction.grammar.symbols && !extraction.standsFor span (named name)
  let symbol := named (firstFree taken extraction.grammar.symbols.length span.spanName)
  if symbol ∈ extraction.grammar.symbols then (symbol, extraction)
  else
    (symbol,
      { grammar := (extraction.grammar.intern symbol).addAlternative symbol span
        spans := extraction.spans ++ [(symbol, span)] })

/--
The length of the span to be extracted behind an occurrence of the symbol, if there is one.
`brackets` has the calls that may open a span, with the return that closes each.
-/
def spanLength? (brackets : List TerminalPair) (symbol : Symbol) (rest : Alternative) :
    Option Nat :=
  match brackets.lookup symbol with
  | some ret =>
    match rest.matchingReturn? symbol ret 0 with
    | some length => if 2 ≤ length then some length else none
    | none => none
  | none => none

/--
Extracts the spans of an alternative from left to right. The first `skip` occurrences belong to a
span that was just extracted and are passed over.
-/
def shorten (brackets : List TerminalPair) (extraction : SpanExtraction) :
    (skip : Nat) → Alternative → Alternative × SpanExtraction
  | _, [] => ([], extraction)
  | skip + 1, _ :: rest => extraction.shorten brackets skip rest
  | 0, occurrence :: rest =>
    match spanLength? brackets occurrence.symbol rest with
    | some length =>
      let (span, extraction) := extraction.extract (rest.take length)
      let (shortened, extraction) := extraction.shorten brackets length rest
      (occurrence :: Occurrence.bare span :: shortened, extraction)
    | none =>
      let (shortened, extraction) := extraction.shorten brackets 0 rest
      (occurrence :: shortened, extraction)

/--
Shortens all alternatives of one nonterminal. While that goes on the nonterminal has no
alternatives, so it stands for no span that it was not created for.
-/
def shortenRule (brackets : List TerminalPair) (extraction : SpanExtraction) (symbol : Symbol) :
    SpanExtraction :=
  let alternatives := extraction.grammar.alternatives symbol
  let emptied := { extraction with grammar := extraction.grammar.setAlternatives symbol [] }
  let (finished, extraction) := alternatives.foldl
    (fun (finished, extraction) alternative =>
      let (shortened, extraction) := extraction.shorten brackets 0 alternative
      (InsertionOrder.insert finished shortened, extraction))
    ([], emptied)
  { extraction with grammar := extraction.grammar.setAlternatives symbol finished }

/-- Shortens the rules of a queue of nonterminals; those created on the way join the queue. -/
def shortenAll (brackets : List TerminalPair) (extraction : SpanExtraction) :
    (rules : Nat) → (queue : List Symbol) → SpanExtraction
  | 0, _ => extraction
  | _ + 1, [] => extraction
  | rules + 1, symbol :: queue =>
    let next := extraction.shortenRule brackets symbol
    let created := (next.spans.drop extraction.spans.length).map Prod.fst
    next.shortenAll brackets rules (queue ++ created)

end SpanExtraction

namespace Grammar

/-- The call terminals that have a partner, each with the return that closes it. -/
def brackets (grammar : Grammar) : List TerminalPair :=
  let returns := LookupTable.firstValues compare grammar.pairs
  grammar.calls.filterMap fun call => returns[call]?.map (call, ·)

theorem brackets_eq (grammar : Grammar) :
    grammar.brackets =
      grammar.calls.filterMap fun call => (grammar.returnOf? call).map (call, ·) := by
  simp only [brackets, returnOf?, LookupTable.getElem?_firstValues]

theorem lookup_brackets (grammar : Grammar) (symbol : Symbol) :
    grammar.brackets.lookup symbol =
      if symbol ∈ grammar.calls then grammar.returnOf? symbol else none := by
  rw [brackets_eq]
  induction grammar.calls with
  | nil => rfl
  | cons call calls ih =>
    rw [List.filterMap_cons]
    by_cases same : symbol = call
    · subst same
      cases found : grammar.returnOf? symbol with
      | none => simpa [found] using ih
      | some ret => simp
    · cases found : grammar.returnOf? call with
      | none => simpa [same] using ih
      | some ret => simpa [same, List.lookup_cons, beq_false_of_ne same] using ih

/-- The number of occurrences of call terminals in the reachable alternatives. -/
def callOccurrenceCount (grammar : Grammar) : Nat :=
  grammar.reachableAlternatives.flatten.countP fun occurrence => occurrence.symbol ∈ grammar.calls

/--
Brings the grammar into simple form and lists the nonterminals that were created. Without call
terminals nothing is changed.
-/
def toSimpleForm (grammar : Grammar) : Grammar × List Symbol :=
  if grammar.calls.isEmpty then (grammar, [])
  else
    let queue := grammar.reachable
    let extraction : SpanExtraction := { grammar }
    let extraction := extraction.shortenAll grammar.brackets
      (queue.length + grammar.callOccurrenceCount) queue
    (extraction.grammar.refresh, extraction.spans.map Prod.fst)

end Grammar

end VisiblyPushdown
