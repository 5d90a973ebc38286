import VisiblyPushdown.Analysis
import VisiblyPushdown.Grammar.Description
import VisiblyPushdown.Proofs.Reachability

/-!
# Stored reachable symbols

A grammar stores the symbols that were reachable when it was last refreshed. The passes that choose
tags leave the rules alone, and those that change rules refresh the grammar, so that after tagging
and simplification the stored symbols are the reachable ones.
-/

namespace VisiblyPushdown

namespace Grammar

/-- Whether the stored reachable symbols are those that the rules make reachable. -/
structure IsRefreshed (grammar : Grammar) : Prop where
  nonterminals_eq : grammar.nonterminals = grammar.reachable
  terminals_eq : grammar.terminals = grammar.reachableTerminals

variable {grammar : Grammar}

theorem IsRefreshed.terminals_subset (refreshed : grammar.IsRefreshed) :
    grammar.terminals ⊆ grammar.reachableTerminals :=
  fun _ mem => refreshed.terminals_eq ▸ mem

theorem isRefreshed_refresh (grammar : Grammar) : grammar.refresh.IsRefreshed :=
  ⟨rfl, rfl⟩

theorem isRefreshed_harvest (grammar : Grammar) : grammar.harvest.IsRefreshed :=
  ⟨rfl, rfl⟩

theorem IsRefreshed.assignRoles (refreshed : grammar.IsRefreshed) (dropRejected : Bool) :
    (grammar.assignRoles dropRejected).IsRefreshed :=
  ⟨refreshed.nonterminals_eq, refreshed.terminals_eq⟩

theorem IsRefreshed.demoteUnmatched (refreshed : grammar.IsRefreshed) :
    grammar.demoteUnmatched.IsRefreshed :=
  ⟨refreshed.nonterminals_eq, refreshed.terminals_eq⟩

theorem isRefreshed_tag (grammar : Grammar) (dropRejected : Bool) :
    (grammar.tag dropRejected).IsRefreshed :=
  ((isRefreshed_harvest grammar).assignRoles dropRejected).demoteUnmatched.assignRoles dropRejected

theorem IsRefreshed.toSimpleForm (refreshed : grammar.IsRefreshed) :
    grammar.toSimpleForm.1.IsRefreshed := by
  unfold Grammar.toSimpleForm
  split
  · exact refreshed
  · exact isRefreshed_refresh _

end Grammar

theorem Description.isRefreshed_resolve {description : Description} {grammar : Grammar}
    (resolved : description.resolve = .ok grammar) : grammar.IsRefreshed := by
  unfold resolve at resolved
  split at resolved
  · cases resolved
  · split at resolved
    · split at resolved
      · cases resolved
      · cases resolved
        exact Grammar.isRefreshed_refresh _
    · cases resolved

theorem Settings.isRefreshed_tag (settings : Settings) (grammar : Grammar) :
    (settings.tag grammar).grammar.IsRefreshed := by
  unfold Settings.tag
  dsimp only
  split
  · exact (Grammar.isRefreshed_tag _ _).toSimpleForm
  · exact Grammar.isRefreshed_tag _ _

end VisiblyPushdown
