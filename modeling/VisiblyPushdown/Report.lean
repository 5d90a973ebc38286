import VisiblyPushdown.Analysis
import VisiblyPushdown.Grammar.Printer
import VisiblyPushdown.Json.Writer
import VisiblyPushdown.Sorting

/-!
# Reports

A report is the result of an analysis with symbols replaced by their names. It is written as JSON,
as a short information text, or, together with the printed grammar and the cycles, as a dump.
-/

namespace VisiblyPushdown

/-- A cycle by the names of its vertices, and whether it is valid. -/
structure CycleReport where
  nonterminals : List String
  valid : Bool
deriving DecidableEq, Repr

namespace CycleReport

/-- The vertices with arrows between them. -/
def path (cycle : CycleReport) : String :=
  " -> ".intercalate cycle.nonterminals

end CycleReport

/-- The tagging found by exhaustive search, and whether the grammar has the same one. -/
structure SearchReport where
  calls : List String
  returns : List String
  agrees : Bool
deriving DecidableEq, Repr

/-- A result by names; terminals are sorted, pairs and cycles keep their order. -/
structure Report where
  grammar : Option String
  start : String
  verdict : Verdict
  hadLeftRecursion : Bool
  nonterminals : Nat
  calls : List String
  returns : List String
  plain : List String
  pairs : List (String × String)
  cycles : List CycleReport
  search : Option SearchReport
deriving DecidableEq, Repr

namespace Report

/-- The names of symbols, sorted by code points. -/
def sortedNames (symbols : List Symbol) : List String :=
  sort (fun left right => left ≤ right) (symbols.map Symbol.name)

/-- The report on an analysis. -/
def ofAnalysis (analysis : Analysis) : Report where
  grammar := analysis.grammar.name
  start := analysis.grammar.start.name
  verdict := analysis.verdict
  hadLeftRecursion := analysis.hadLeftRecursion
  nonterminals := analysis.grammar.nonterminals.length
  calls := sortedNames analysis.grammar.calls
  returns := sortedNames analysis.grammar.returns
  plain := sortedNames analysis.grammar.plainTerminals
  pairs := analysis.grammar.distinctPairs.map fun pair => (pair.1.name, pair.2.name)
  cycles := analysis.cycles.map fun cycle =>
    { nonterminals := cycle.vertices.map Symbol.name, valid := cycle.valid }
  search := analysis.search.map fun search =>
    { calls := sortedNames search.choice.calls
      returns := sortedNames search.choice.returns
      agrees := search.agrees }

/-- A list of names in JSON. -/
def namesToJson (names : List String) : Json.Value String :=
  .array (names.map .string)

/-- The report as a JSON value; a report without a search has no field for it. -/
def toJson (report : Report) : Json.Value String :=
  .object <|
    [("grammar", (report.grammar.map Json.Value.string).getD .null),
      ("start", .string report.start),
      ("verdict", .string report.verdict.tag),
      ("had_left_recursion", .boolean report.hadLeftRecursion),
      ("non_terminals", .number (toString report.nonterminals)),
      ("call", namesToJson report.calls),
      ("ret", namesToJson report.returns),
      ("plain", namesToJson report.plain),
      ("pairs", .array (report.pairs.map fun pair => namesToJson [pair.1, pair.2])),
      ("cycles", .array (report.cycles.map fun cycle =>
        .object [("non_terminals", namesToJson cycle.nonterminals),
          ("valid", .boolean cycle.valid)]))] ++
    (report.search.map fun search =>
      ("oracle", .object [("call", namesToJson search.calls),
        ("ret", namesToJson search.returns),
        ("agrees", .boolean search.agrees)])).toList

/-- Names in brackets, with commas between them. -/
def bracketed (names : List String) : String :=
  "[" ++ ", ".intercalate names ++ "]"

/-- The call and return terminals, the pairs and the verdict, one item a line. -/
def information (report : Report) : String :=
  let pairs := report.pairs.map fun pair => "(" ++ pair.1 ++ ", " ++ pair.2 ++ ")"
  "call\t" ++ bracketed report.calls ++ "\nret \t" ++ bracketed report.returns ++
    "\npairs: \t" ++ bracketed pairs ++ "\n" ++ report.verdict.summary ++ "\n"

/-- The tagging found by exhaustive search, for a report that has one. -/
def searchInformation? (report : Report) : Option String :=
  report.search.map fun search =>
    "call\t" ++ bracketed search.calls ++ "\nret \t" ++ bracketed search.returns ++ "\n" ++
      (if search.agrees then "Same" else "Different") ++ "\n"

/-- One cycle and its judgement, on a line of its own. -/
def cycleLine (palette : Palette) (cycle : CycleReport) : String :=
  "  " ++ cycle.path ++ "  " ++ palette.dim ++ (if cycle.valid then "valid" else "invalid") ++
    palette.reset ++ "\n"

end Report

namespace Analysis

/-- The report on the analysis. -/
def report (analysis : Analysis) : Report :=
  Report.ofAnalysis analysis

/-- The tagged grammar, its information text, its cycles and the outcome of the search. -/
def dump (analysis : Analysis) (palette : Palette) : String :=
  let report := analysis.report
  let cycles :=
    if report.cycles.isEmpty then ""
    else "\ncycles:\n" ++ String.join (report.cycles.map (Report.cycleLine palette))
  let search := (report.searchInformation?.map ("\nbrute force:\n" ++ ·)).getD ""
  analysis.grammar.print { palette := .select palette.isOn } ++ "\n\n" ++ report.information ++
    cycles ++ search

end Analysis

end VisiblyPushdown
