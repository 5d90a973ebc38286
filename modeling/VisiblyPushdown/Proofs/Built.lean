import VisiblyPushdown.Analysis
import VisiblyPushdown.Proofs.SimpleForm
import VisiblyPushdown.Proofs.Unwinding

/-!
# Grammars that can be built

Well-formedness is no restriction: it holds of each grammar that comes from a description or is
put together symbol by symbol and alternative by alternative, and every pass keeps it, whatever the
state of the tagging.
-/

namespace VisiblyPushdown.Grammar

/-- The grammars that construction and passes lead to, in any order. -/
inductive Built : Grammar → Prop where
  | ofStart (name : String) : Built (.ofStart name)
  | resolve {description : Description} {grammar : Grammar}
      (resolved : description.resolve = .ok grammar) : Built grammar
  | withName {grammar : Grammar} (built : Built grammar) (name : Option String) :
      Built { grammar with name }
  | intern {grammar : Grammar} (built : Built grammar) (symbol : Symbol) :
      Built (grammar.intern symbol)
  | addAlternative {grammar : Grammar} (built : Built grammar) {symbol : Symbol}
      (known : symbol ∈ grammar.symbols) {alternative : Alternative}
      (mentioned : ∀ occurrence ∈ alternative, occurrence.symbol ∈ grammar.symbols) :
      Built (grammar.addAlternative symbol alternative)
  | removeLeftRecursion {grammar : Grammar} (built : Built grammar) :
      Built grammar.removeLeftRecursion.1
  | harvest {grammar : Grammar} (built : Built grammar) : Built grammar.harvest
  | assignRoles {grammar : Grammar} (built : Built grammar) (dropRejected : Bool) :
      Built (grammar.assignRoles dropRejected)
  | demoteUnmatched {grammar : Grammar} (built : Built grammar) : Built grammar.demoteUnmatched
  | toSimpleForm {grammar : Grammar} (built : Built grammar) : Built grammar.toSimpleForm.1

theorem WellFormed.removeLeftRecursion {grammar : Grammar} (wellFormed : grammar.WellFormed) :
    grammar.removeLeftRecursion.1.WellFormed := by
  obtain ⟨_, unwinding⟩ := exists_isUnwinding_removeLeftRecursion wellFormed
  exact unwinding.wellFormed

theorem WellFormed.toSimpleForm {grammar : Grammar} (wellFormed : grammar.WellFormed) :
    grammar.toSimpleForm.1.WellFormed := by
  rw [Grammar.toSimpleForm]
  split
  · exact wellFormed
  · obtain ⟨_, progress⟩ :=
      (SpanExtraction.inProgress_start grammar.brackets wellFormed).shortenAll wellFormed
        (grammar.reachable.length + grammar.callOccurrenceCount)
    exact progress.sound.wellFormed.of_eq rfl rfl rfl

/-- Every grammar that can be built is well formed. -/
theorem Built.wellFormed {grammar : Grammar} (built : grammar.Built) : grammar.WellFormed := by
  induction built with
  | ofStart name => exact wellFormed_ofStart name
  | resolve resolved => exact Description.wellFormed_resolve resolved
  | withName _ _ ih => exact ih.of_eq rfl rfl rfl
  | intern _ symbol ih => exact ih.intern symbol
  | addAlternative _ known mentioned ih => exact ih.addAlternative known mentioned
  | removeLeftRecursion _ ih => exact ih.removeLeftRecursion
  | harvest _ ih => exact ih.of_eq rfl rfl rfl
  | assignRoles _ _ ih => exact ih.of_eq rfl rfl rfl
  | demoteUnmatched _ ih => exact ih.of_eq rfl rfl rfl
  | toSimpleForm _ ih => exact ih.toSimpleForm

theorem Built.tag {grammar : Grammar} (built : grammar.Built) (dropRejected : Bool) :
    (grammar.tag dropRejected).Built :=
  ((built.harvest.assignRoles dropRejected).demoteUnmatched).assignRoles dropRejected

/-- What an analysis judges can be built when the grammar that it is given can. -/
theorem Built.tag_settings {grammar : Grammar} (built : grammar.Built) (settings : Settings) :
    (settings.tag grammar).grammar.Built := by
  have prepared :
      (if grammar.isLeftRecursive then grammar.removeLeftRecursion.1 else grammar).Built := by
    split
    · exact built.removeLeftRecursion
    · exact built
  have tagged := prepared.tag settings.removeContradictions
  rw [Settings.tag]
  dsimp only
  cases settings.simplify with
  | true => exact tagged.toSimpleForm
  | false => exact tagged

end VisiblyPushdown.Grammar
