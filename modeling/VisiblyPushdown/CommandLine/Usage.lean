import VisiblyPushdown.CommandLine.Arguments

/-!
# Usage

What the program says about its command line: a summary of the commands and options, and the wording
of the reasons for which a command line is refused.
-/

namespace VisiblyPushdown.CommandLine

/-- The commands and options, one a line. -/
def usage : String :=
  "\n".intercalate
    ["check GRAMMAR     tell whether a grammar is visibly pushdown",
      "dump GRAMMAR      show the tagged grammar, its pairs, the verdict and the cycles",
      "batch DIR         analyse every .g4 file below a directory and write reports",
      "help [COMMAND]    show this text",
      "",
      "  --color WHEN             colour the output: auto, always or never (check, dump)",
      "  --json                   print the report as JSON (dump)",
      "  -o OUT, --output OUT     directory for the reports, by default results (batch)",
      "  --max-nonterminals N     give up on grammars with more nonterminals, by default 70",
      "  --brute-force            compare the tagging with one found by exhaustive search",
      "  --keep-contradictions    keep pairs that conflict with the tagging",
      "  --no-simplify            judge the grammar without bringing it into simple form",
      "  -h, --help               show this text",
      ""]

namespace ArgumentError

/-- The wording of the error. -/
def message : ArgumentError → String
  | helpForNoArguments => "a command is missing"
  | help => "help was asked for"
  | unknownCommand => "there is no such command"
  | missingPath => "a path is missing"
  | unknownArgument => "an argument was not expected"
  | badValue => "an option or a path has no proper value"
  | badNumber => "an option needs a number"
  | unwantedValue => "an option takes no value"
  | repeatedOption => "an option is given twice"

/-- The code with which the program exits when it cannot read its arguments. -/
def exitCode : ArgumentError → Nat
  | help => 0
  | _ => 2

end ArgumentError

end VisiblyPushdown.CommandLine
