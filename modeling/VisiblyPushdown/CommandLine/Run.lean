import VisiblyPushdown.Batch
import VisiblyPushdown.CommandLine.Usage

/-!
# Running commands

What each command prints, the code with which it exits and the files that it leaves behind.
-/

namespace VisiblyPushdown.CommandLine

/-- What running a command comes to. -/
structure Outcome where
  exitCode : Nat := 0
  output : String := ""
  error : Option String := none
deriving DecidableEq, Repr

namespace Outcome

/-- The outcome of a command that fails for a reason. -/
def failure (message : String) : Outcome where
  exitCode := 1
  error := some message

end Outcome

namespace ColourChoice

/-- Whether output is coloured under the choice, given whether it goes to a terminal. -/
def applies (choice : ColourChoice) (terminal : Bool) : Bool :=
  match choice with
  | automatic => terminal
  | always => true
  | never => false

end ColourChoice

/-- One line for each invalid cycle. -/
def invalidCycles (palette : Palette) (report : Report) : String :=
  String.join <| (report.cycles.filter (!·.valid)).map fun cycle =>
    "  " ++ palette.dim ++ "invalid cycle: " ++ cycle.path ++ palette.reset ++ "\n"

/-- Prints the verdict on a grammar; for one that is not accepted, its invalid cycles, too. -/
def check (settings : Settings) (palette : Palette) (grammar : Grammar) : Outcome :=
  let analysis := settings.analyze grammar
  let verdict := analysis.verdict.message ++ "\n"
  if analysis.isVisiblyPushdown then { output := verdict }
  else { exitCode := 1, output := verdict ++ invalidCycles palette analysis.report }

/-- Prints the analysis of a grammar, as text or as JSON. -/
def dump (settings : Settings) (json : Bool) (palette : Palette) (grammar : Grammar) : Outcome :=
  let analysis := settings.analyze grammar
  { output :=
      if json then analysis.report.toJson.pretty ++ "\n" else analysis.dump palette }

/-- Goes on with a grammar that was loaded, or reports why it was not. -/
def onLoaded (loaded : Except LoadError Grammar) (next : Grammar → Outcome) : Outcome :=
  match loaded with
  | .ok grammar => next grammar
  | .error error => .failure error.message

/--
Runs a command in a working directory. `terminal` tells whether output goes to a terminal, which
automatic colour depends on.
-/
def Command.run (terminal : Bool) (tree : FileTree) : Command → Outcome × FileTree
  | .check path settings colour =>
    let palette := Palette.select (colour.applies terminal)
    (onLoaded (tree.load path) (CommandLine.check settings palette), tree)
  | .dump path settings json colour =>
    let palette := Palette.select (colour.applies terminal)
    (onLoaded (tree.load path) (CommandLine.dump settings json palette), tree)
  | .batch input output settings =>
    match Batch.run { input, output, settings } tree with
    | .ok (tree, summary) => ({ output := summary.text }, tree)
    | .error error => (.failure error.message, tree)

/-- What comes of a command line that asks for nothing that can be run. -/
def refuse (error : ArgumentError) : Outcome :=
  if error = .help then { output := usage }
  else { exitCode := error.exitCode, error := some error.message }

/-- Runs a command line in a working directory. -/
def run (terminal : Bool) (tree : FileTree) (words : List String) : Outcome × FileTree :=
  match readCommand words with
  | .ok command => command.run terminal tree
  | .error error => (refuse error, tree)

end VisiblyPushdown.CommandLine
