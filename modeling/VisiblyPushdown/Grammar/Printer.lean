import VisiblyPushdown.Grammar.Reachable
import VisiblyPushdown.Palette

/-!
# Printed grammars

Rules are printed in the order in which they are reached, each alternative on a line of its own:

```text
s	: <'(' s ')'>
	|
	;
```

A call terminal is marked with `<` in front of it and a return terminal with `>` behind it.
-/

namespace VisiblyPushdown

/-- How a grammar is printed: its colours, and whether calls and returns are marked. -/
structure PrintStyle where
  palette : Palette := .off
  marked : Bool := true
deriving DecidableEq, Repr

namespace Grammar

/-- The name of a symbol, with its tag if the style marks tags. -/
def printSymbol (grammar : Grammar) (style : PrintStyle) (symbol : Symbol) : String :=
  if style.marked && symbol.isTerminal then
    match grammar.role symbol with
    | .call => style.palette.call ++ "<" ++ symbol.name ++ style.palette.reset
    | .return => style.palette.ret ++ symbol.name ++ ">" ++ style.palette.reset
    | .plain => symbol.name
  else symbol.name

/-- One occurrence with a blank in front of it and its repetition mark behind it. -/
def printOccurrence (grammar : Grammar) (style : PrintStyle) (occurrence : Occurrence) : String :=
  let mark :=
    if occurrence.repetition = .once then ""
    else style.palette.dim ++ occurrence.repetition.mark ++ style.palette.reset
  " " ++ grammar.printSymbol style occurrence.symbol ++ mark

/-- The occurrences of an alternative, one after the other. -/
def printAlternative (grammar : Grammar) (style : PrintStyle) (alternative : Alternative) :
    String :=
  String.join (alternative.map (grammar.printOccurrence style))

/-- The alternatives of a rule: a colon leads the first one, a bar every other. -/
def printAlternatives (grammar : Grammar) (style : PrintStyle) : List Alternative → String
  | [] => ""
  | first :: others =>
    let dim (text : String) := style.palette.dim ++ text ++ style.palette.reset
    "\t" ++ dim ":" ++ grammar.printAlternative style first ++
      String.join (others.map fun other =>
        "\n\t" ++ dim "|" ++ grammar.printAlternative style other)

/-- One rule: its name, its alternatives and the closing semicolon. -/
def printRule (grammar : Grammar) (style : PrintStyle) (symbol : Symbol) : String :=
  style.palette.rule ++ symbol.name ++ style.palette.reset ++
    grammar.printAlternatives style (grammar.alternatives symbol) ++
    "\n\t" ++ style.palette.dim ++ ";" ++ style.palette.reset

/-- All reachable rules, with an empty line between them. -/
def print (grammar : Grammar) (style : PrintStyle := {}) : String :=
  "\n\n".intercalate (grammar.reachable.map (grammar.printRule style))

end Grammar

end VisiblyPushdown
