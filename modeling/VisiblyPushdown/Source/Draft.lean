import VisiblyPushdown.Grammar.Description

/-!
# Drafts

A draft is a description that is being read from source text. A parenthesized block becomes a rule
of its own, and blocks with the same text share one.
-/

namespace VisiblyPushdown.Source

/-- What was read so far, and the rule names of the blocks, by the text of the block. -/
structure Draft where
  description : Description := {}
  blocks : List (String × String) := []
deriving DecidableEq, Repr

namespace Draft

/-- Declares a terminal that is mentioned. -/
def mentionTerminal (draft : Draft) (name : String) : Symbol × Draft :=
  (⟨name, .terminal⟩,
    { draft with
      description.terminals := InsertionOrder.insert draft.description.terminals name })

/-- Declares a nonterminal that is mentioned. -/
def mentionNonterminal (draft : Draft) (name : String) : Symbol × Draft :=
  (⟨name, .nonterminal⟩,
    { draft with
      description.nonterminals := InsertionOrder.insert draft.description.nonterminals name })

/-- Gives a rule its alternatives. -/
def setRule (draft : Draft) (name : String) (alternatives : List Alternative) : Draft :=
  { draft with description.rules := InsertionOrder.put draft.description.rules name alternatives }

/-- Whether there is a rule of that name. -/
def hasRule (draft : Draft) (name : String) : Bool :=
  (draft.description.rules.lookup name).isSome

/-- Declares a rule whose alternatives are still to be read; the first one becomes the start. -/
def openRule (draft : Draft) (name : String) : Draft :=
  let draft := (draft.mentionNonterminal name).2.setRule name []
  { draft with description.start := some (draft.description.start.getD name) }

/-- The rule name for a block that was not met before, and the draft that knows it. -/
def openBlock (draft : Draft) (text : String) : String × Draft :=
  let name := "_new_rule_" ++ toString (draft.blocks.length + 1)
  let draft := (draft.mentionNonterminal name).2.setRule name []
  (name, { draft with blocks := draft.blocks ++ [(text, name)] })

end Draft

end VisiblyPushdown.Source
