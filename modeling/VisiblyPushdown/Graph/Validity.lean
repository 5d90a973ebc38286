import VisiblyPushdown.Graph.Cycle

/-!
# Valid cycles

A recursion respects the call/return discipline when some step of it is bracketed, that is, preceded
directly by a call and followed at the end of its alternative by a return, or when every step is in
tail position and something that stands before one of them can produce a terminal, so that the
recursion cannot spin on the empty word.
-/

namespace VisiblyPushdown

namespace Grammar

/-- Whether a call stands directly before the edge's target and a return ends its alternative. -/
def isBracketed (grammar : Grammar) (edge : Edge) : Bool :=
  match edge.before.getLast?, edge.after.getLast? with
  | some before, some after => before ∈ grammar.calls && after ∈ grammar.returns
  | _, _ => false

/--
Whether a recursion through the given edges respects the call/return discipline, where `nonempty`
says which nonterminals can derive a word that is not empty.
-/
def isDisciplined (grammar : Grammar) (nonempty : Symbol → Bool) (edges : List Edge) : Bool :=
  edges.any grammar.isBracketed ||
    (edges.all (·.after.isEmpty) &&
      edges.any (·.before.any fun symbol => symbol.isTerminal || nonempty symbol))

/-- Whether a recursion through the given edges respects the call/return discipline. -/
def isValidCycle (grammar : Grammar) (edges : List Edge) : Bool :=
  grammar.isDisciplined grammar.canDeriveNonempty edges

end Grammar

namespace DependencyGraph

/-- Whether a cycle of the graph respects the call/return discipline of the grammar. -/
def isValid (graph : DependencyGraph) (grammar : Grammar) (cycle : Cycle) : Bool :=
  grammar.isValidCycle (graph.edgesAt cycle.edges)

/-- Whether each vertex can derive a word that is not empty, found out when it is first asked. -/
def nonemptyTable (graph : DependencyGraph) (grammar : Grammar) :
    Std.TreeMap Symbol (Thunk Bool) :=
  LookupTable.ofFunction compare graph.vertexList fun symbol =>
    Thunk.mk fun _ => grammar.canDeriveNonempty symbol

/-- The cycles of the graph, each with the answer whether it is valid. -/
def judgedCycles (graph : DependencyGraph) (grammar : Grammar) : List (Cycle × Bool) :=
  let table := graph.nonemptyTable grammar
  let nonempty symbol := (table[symbol]?.map Thunk.get).getD (grammar.canDeriveNonempty symbol)
  graph.cycles.map fun cycle =>
    (cycle, grammar.isDisciplined nonempty (graph.edgesAt cycle.edges))

theorem judgedCycles_eq (graph : DependencyGraph) (grammar : Grammar) :
    graph.judgedCycles grammar =
      graph.cycles.map fun cycle => (cycle, graph.isValid grammar cycle) := by
  have same (symbol : Symbol) :
      (((graph.nonemptyTable grammar)[symbol]?).map Thunk.get).getD
        (grammar.canDeriveNonempty symbol) = grammar.canDeriveNonempty symbol := by
    rw [nonemptyTable, LookupTable.getElem?_ofFunction]
    split <;> rfl
  simp only [judgedCycles, same]
  rfl

end DependencyGraph

end VisiblyPushdown
