/-!
# Why there is no grammar

The reasons for which no grammar can be had from a text, and their wording.
-/

namespace VisiblyPushdown

/-- What is wrong at a place of a source text. -/
inductive Fault where
  /-- Something definite has to stand here; nothing is found at the end of the text. -/
  | expected (what : String) (found : Option String)
  | expectedRule (found : String)
  | expectedElement (found : String)
  | expectedSet
  | unclosedParenthesis
  | unclosedOptions
deriving DecidableEq, Repr

namespace Fault

/-- The wording of the fault. -/
def message : Fault → String
  | expected what none => s!"expected {what}, found end of input"
  | expected what (some found) => s!"expected {what}, found `{found}`"
  | expectedRule found => s!"expected rule, found `{found}`"
  | expectedElement found => s!"expected grammar element, found `{found}`"
  | expectedSet => "expected set after `~`"
  | unclosedParenthesis => "unclosed `(`"
  | unclosedOptions => "unclosed element options"

end Fault

/-- Why no grammar can be had from a text. -/
inductive GrammarError where
  /-- The grammar has no parser rule, or its start symbol is not declared. -/
  | noRules (grammar : String)
  /-- A rule holds code, which would be lost. -/
  | embeddedAction (rule text : String)
  /-- An occurrence is not declared with its kind. -/
  | unknownSymbol (name : String)
  | malformed (line : Nat) (fault : Fault)
  | invalidJson
deriving DecidableEq, Repr

namespace GrammarError

/-- The wording of the error. -/
def message : GrammarError → String
  | noRules grammar => s!"no parser rules found in grammar `{grammar}`"
  | embeddedAction rule text => s!"rule `{rule}` contains an embedded action `{text}`"
  | unknownSymbol name => s!"unknown symbol `{name}`"
  | malformed line fault => "syntax error at line " ++ toString line ++ ": " ++ fault.message
  | invalidJson => "invalid grammar JSON"

end GrammarError

end VisiblyPushdown
