import VisiblyPushdown.Main
import VisiblyPushdown.Proofs.Built
import VisiblyPushdown.Proofs.LeftRecursion
import VisiblyPushdown.Proofs.Recursion
import VisiblyPushdown.Proofs.FoldedRecursion
import VisiblyPushdown.Proofs.WellMatched
import VisiblyPushdown.Proofs.LeadingMarks
import VisiblyPushdown.Proofs.Correspondence
import VisiblyPushdown.Proofs.DeadRules
import VisiblyPushdown.Proofs.TerminalOccurrences
import VisiblyPushdown.Proofs.TerminalRoles
import VisiblyPushdown.Proofs.Harvest
import VisiblyPushdown.Proofs.Selection
import VisiblyPushdown.Proofs.Delimiters
import VisiblyPushdown.Proofs.CursorOrder
import VisiblyPushdown.Proofs.Declarations
import VisiblyPushdown.Proofs.SymbolTable
import VisiblyPushdown.Proofs.Shortening
import VisiblyPushdown.Proofs.FileCreation
import VisiblyPushdown.Proofs.BatchReports
import VisiblyPushdown.Proofs.PrintedGrammar
import VisiblyPushdown.Proofs.RemainingRecursion
import VisiblyPushdown.Proofs.SecondRound
import VisiblyPushdown.Proofs.RuleNames
import VisiblyPushdown.Proofs.BlockReuse
import VisiblyPushdown.Proofs.NonemptyWords
import VisiblyPushdown.Proofs.SearchTurns
import VisiblyPushdown.Proofs.Interiors
import VisiblyPushdown.Proofs.EncodedDescription
import VisiblyPushdown.Proofs.Resolution
import VisiblyPushdown.Proofs.LongestMatch
import VisiblyPushdown.Proofs.Layout
import VisiblyPushdown.Proofs.TokenSpans
import VisiblyPushdown.Proofs.CommentEnds
import VisiblyPushdown.Proofs.EmbeddedActions
import VisiblyPushdown.Proofs.CheckedLexing
import VisiblyPushdown.Proofs.CheckedReader
import VisiblyPushdown.Proofs.CheckedSteps
import VisiblyPushdown.Proofs.CheckedParsing
import VisiblyPushdown.Proofs.BatchIndependence
import VisiblyPushdown.Proofs.Repair
import VisiblyPushdown.Proofs.BlockLanguage
import VisiblyPushdown.Proofs.Colours
import VisiblyPushdown.Proofs.Draining
import VisiblyPushdown.Proofs.FurtherNames
