import VisiblyPushdown.Grammar.Error
import VisiblyPushdown.Grammar.Reachable

/-!
# Grammar descriptions

A description is a grammar as it is written down: declared names, a start name and rules by name.
`resolve` turns it into a grammar. Rule names count as declared nonterminals, and every occurrence
has to be declared with its kind.
-/

namespace VisiblyPushdown

/-- A grammar by names; declared names and rules keep the order in which they were written. -/
structure Description where
  name : Option String := none
  start : Option String := none
  terminals : List String := []
  nonterminals : List String := []
  rules : List (String × List Alternative) := []
deriving DecidableEq, Repr

namespace Description

/-- The name under which errors speak of the grammar. -/
def displayName (description : Description) : String :=
  description.name.getD "<anonymous>"

/-- Whether a name is declared as a nonterminal, by a declaration or by a rule. -/
def declaresNonterminal (description : Description) (name : String) : Bool :=
  name ∈ description.nonterminals || (description.rules.lookup name).isSome

/-- Whether a symbol is declared with its kind. -/
def declares (description : Description) (symbol : Symbol) : Bool :=
  match symbol.kind with
  | .terminal => symbol.name ∈ description.terminals
  | .nonterminal => description.declaresNonterminal symbol.name

/-- The first symbol of the rules that is not declared. -/
def undeclared? (description : Description) : Option Symbol :=
  (description.rules.flatMap fun rule => rule.2.flatMap (·.map Occurrence.symbol)).find?
    (!description.declares ·)

/-- Adds one alternative, with its symbols, to a nonterminal. -/
def addAlternative (symbol : Symbol) (grammar : Grammar) (alternative : Alternative) : Grammar :=
  (alternative.map Occurrence.symbol).foldl Grammar.intern grammar
    |>.addAlternative symbol alternative

/-- Adds one rule, with its symbols, to a grammar. -/
def addRule (grammar : Grammar) (rule : String × List Alternative) : Grammar :=
  let symbol : Symbol := ⟨rule.1, .nonterminal⟩
  rule.2.foldl (addAlternative symbol) (grammar.intern symbol)

/-- The grammar that a description with the given start name stands for. -/
def toGrammar (description : Description) (start : String) : Grammar :=
  let declared := description.nonterminals.map (Symbol.mk · .nonterminal) ++
    description.terminals.map (Symbol.mk · .terminal)
  let grammar : Grammar := { Grammar.ofStart start with name := description.name }
  (description.rules.foldl addRule (declared.foldl Grammar.intern grammar)).refresh

/-- The grammar that a description stands for, or the first reason why there is none. -/
def resolve (description : Description) : Except GrammarError Grammar :=
  match description.start with
  | none => .error (.noRules description.displayName)
  | some start =>
    if description.declaresNonterminal start then
      match description.undeclared? with
      | some symbol => .error (.unknownSymbol symbol.name)
      | none => .ok (description.toGrammar start)
    else .error (.noRules description.displayName)

end Description

end VisiblyPushdown
