import VisiblyPushdown.Grammar.LeftRecursion
import VisiblyPushdown.Grammar.SimpleForm
import VisiblyPushdown.Grammar.WellMatched
import VisiblyPushdown.Graph.Validity

/-!
# Analysis

The analysis of a grammar removes immediate left recursion, tags the terminals, brings the grammar
into simple form and judges every cycle of the dependency graph. A grammar all of whose cycles are
valid is a visibly pushdown grammar; one with more nonterminals than the settings allow is not
judged.
-/

namespace VisiblyPushdown

/-- What an analysis does and how far it goes. -/
structure Settings where
  /-- The largest number of reachable nonterminals for which cycles are enumerated. -/
  maxNonterminals : Nat := 70
  /-- Whether the tagging is compared with the one found by exhaustive search. -/
  bruteForce : Bool := false
  /-- Whether pairs that conflict with the committed tagging are dropped from the pair table. -/
  removeContradictions : Bool := true
  /-- Whether the grammar is brought into simple form before its cycles are judged. -/
  simplify : Bool := true
deriving DecidableEq, Repr

/-- The outcome for a grammar. -/
inductive Verdict where
  | visiblyPushdown
  | notVisiblyPushdown
  | tooLarge
deriving DecidableEq, Repr

namespace Verdict

/-- The wording of the verdict for readers. -/
def message : Verdict → String
  | visiblyPushdown => "VPG"
  | notVisiblyPushdown => "not a VPG"
  | tooLarge => "too large"

/-- The word for the verdict in serialized reports. -/
def tag : Verdict → String
  | visiblyPushdown => "vpg"
  | notVisiblyPushdown => "not_vpg"
  | tooLarge => "too_large"

/-- The word for the verdict in information texts. -/
def summary : Verdict → String
  | visiblyPushdown => "Valid"
  | notVisiblyPushdown => "Invalid"
  | tooLarge => "Too large"

end Verdict

/-- A cycle, by its vertices, and whether it is valid. -/
structure JudgedCycle where
  vertices : List Symbol
  valid : Bool
deriving DecidableEq, Repr

/-- The tagging found by exhaustive search, and whether the grammar has the same one. -/
structure SearchComparison where
  choice : TaggingChoice
  agrees : Bool
deriving DecidableEq, Repr

namespace SearchComparison

/-- The tagging found by exhaustive search next to that of the grammar. -/
def ofGrammar (grammar : Grammar) : SearchComparison :=
  let choice := grammar.searchTagging
  { choice, agrees := choice.agreesWith grammar }

end SearchComparison

/-- A tagged grammar whose cycles are still to be judged. -/
structure TaggedGrammar where
  grammar : Grammar
  hadLeftRecursion : Bool
deriving DecidableEq, Repr

/-- The result for one grammar; `cycles` is empty when the grammar was too large to judge. -/
structure Analysis where
  grammar : Grammar
  hadLeftRecursion : Bool
  verdict : Verdict
  cycles : List JudgedCycle
  search : Option SearchComparison
deriving DecidableEq, Repr

namespace Settings

/-- Removes left recursion where there is any, tags the grammar and simplifies it if so set. -/
def tag (settings : Settings) (grammar : Grammar) : TaggedGrammar :=
  let hadLeftRecursion := grammar.isLeftRecursive
  let grammar := if hadLeftRecursion then grammar.removeLeftRecursion.1 else grammar
  let grammar := grammar.tag settings.removeContradictions
  let grammar := if settings.simplify then grammar.toSimpleForm.1 else grammar
  { grammar, hadLeftRecursion }

/-- Judges every cycle of a grammar, unless the grammar is too large. -/
def judge (settings : Settings) (grammar : Grammar) : Verdict × List JudgedCycle :=
  if settings.maxNonterminals < grammar.nonterminals.length then (.tooLarge, [])
  else
    let judged := ((DependencyGraph.ofGrammar grammar).judgedCycles grammar).map
      fun (cycle, valid) => { vertices := cycle.vertices, valid : JudgedCycle }
    (if judged.all JudgedCycle.valid then .visiblyPushdown else .notVisiblyPushdown, judged)

/-- Judges a tagged grammar. -/
def validate (settings : Settings) (tagged : TaggedGrammar) : Analysis :=
  let (verdict, cycles) := settings.judge tagged.grammar
  { grammar := tagged.grammar
    hadLeftRecursion := tagged.hadLeftRecursion
    verdict
    cycles
    search := if settings.bruteForce then some (.ofGrammar tagged.grammar) else none }

/-- Tags a grammar and judges it. -/
def analyze (settings : Settings) (grammar : Grammar) : Analysis :=
  settings.validate (settings.tag grammar)

end Settings

namespace Analysis

/-- Whether the grammar was found to be a visibly pushdown grammar. -/
def isVisiblyPushdown (analysis : Analysis) : Bool :=
  analysis.verdict = .visiblyPushdown

/-- Whether at least one terminal is tagged as a call. -/
def isTagged (analysis : Analysis) : Bool :=
  !analysis.grammar.calls.isEmpty

end Analysis

end VisiblyPushdown
