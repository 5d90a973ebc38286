import VisiblyPushdown.Grammar.Reachable

/-!
# Dependency graphs

The dependency graph of a grammar has a vertex for every reachable nonterminal and an edge for every
occurrence of a nonterminal in its alternatives. An edge remembers what stands around the
occurrence. Two occurrences are two edges even when their contexts agree. The graph is a
view of one state of the grammar and has to be built again when the rules change.
-/

namespace VisiblyPushdown

/-- An occurrence of `target` in an alternative of `source`, between `before` and `after`. -/
structure Edge where
  source : Symbol
  target : Symbol
  before : List Symbol
  after : List Symbol
deriving DecidableEq, Repr

/--
A graph over nonterminals. Vertices stand in the order of their discovery, each with the numbers of
the edges that leave it; an edge's number is its position.
-/
structure DependencyGraph where
  vertices : List (Symbol × List Nat) := []
  edges : Array Edge := #[]
deriving DecidableEq, Repr

namespace Edge

/-- The edges of an alternative of `source`, of which the symbols `passed` were read, last first. -/
def ofSymbols (source : Symbol) (passed : List Symbol) : List Symbol → List Edge
  | [] => []
  | symbol :: after =>
    let others := ofSymbols source (symbol :: passed) after
    if symbol.isNonterminal then
      { source, target := symbol, before := passed.reverse, after } :: others
    else others

/-- The edges of one alternative of `source`, one for each nonterminal in it. -/
def ofAlternative (source : Symbol) (alternative : Alternative) : List Edge :=
  ofSymbols source [] (alternative.map Occurrence.symbol)

end Edge

namespace Grammar

/-- The edges that leave a nonterminal, alternative by alternative. -/
def edgesFrom (grammar : Grammar) (symbol : Symbol) : List Edge :=
  (grammar.alternatives symbol).flatMap (Edge.ofAlternative symbol)

end Grammar

namespace DependencyGraph

/-- The vertices without their edges. -/
def vertexList (graph : DependencyGraph) : List Symbol :=
  graph.vertices.map Prod.fst

/-- The numbers of the edges that leave a vertex. -/
def outEdges (graph : DependencyGraph) (vertex : Symbol) : List Nat :=
  (graph.vertices.lookup vertex).getD []

/-- The edges with the given numbers. -/
def edgesAt (graph : DependencyGraph) (numbers : List Nat) : List Edge :=
  numbers.filterMap (graph.edges[·]?)

/-- The edges that leave a vertex, as pairs of number and target. -/
def steps (graph : DependencyGraph) (vertex : Symbol) : List (Nat × Symbol) :=
  (graph.outEdges vertex).filterMap fun number =>
    (graph.edges[number]?).map fun edge => (number, edge.target)

theorem steps_eq_nil {graph : DependencyGraph} {vertex : Symbol}
    (unknown : vertex ∉ graph.vertexList) : graph.steps vertex = [] := by
  have absent : graph.vertices.lookup vertex = none := by
    rw [List.lookup_eq_none_iff]
    rintro ⟨known, numbers⟩ known_mem
    simpa using fun same : vertex = known =>
      unknown (same ▸ List.mem_map_of_mem (f := Prod.fst) known_mem)
  simp [steps, outEdges, absent]

/-- Adds an edge behind the others, and its number to those that leave its source. -/
def addEdge (graph : DependencyGraph) (edge : Edge) : DependencyGraph where
  vertices := InsertionOrder.put graph.vertices edge.source
    (graph.outEdges edge.source ++ [graph.edges.size])
  edges := graph.edges.push edge

/-- Adds a vertex that no edge leaves yet. -/
def addVertex (graph : DependencyGraph) (vertex : Symbol) : DependencyGraph :=
  { graph with vertices := graph.vertices ++ [(vertex, [])] }

end DependencyGraph

/-- A graph that is being discovered, and its vertices still to be visited, the next one first. -/
structure Discovery where
  graph : DependencyGraph
  stack : List Symbol
deriving DecidableEq, Repr

namespace Discovery

/-- Adds an edge. A target that was no vertex becomes one and is to be visited next. -/
def follow (discovery : Discovery) (edge : Edge) : Discovery :=
  let graph := discovery.graph.addEdge edge
  if edge.target ∈ graph.vertexList then { discovery with graph }
  else { graph := graph.addVertex edge.target, stack := edge.target :: discovery.stack }

/-- Visits at most `visits` vertices from the stack and follows every edge that leaves them. -/
def run (grammar : Grammar) : (visits : Nat) → Discovery → DependencyGraph
  | 0, discovery => discovery.graph
  | _ + 1, ⟨graph, []⟩ => graph
  | visits + 1, ⟨graph, source :: stack⟩ =>
    run grammar visits ((grammar.edgesFrom source).foldl follow ⟨graph, stack⟩)

end Discovery

namespace DependencyGraph

/--
The dependency graph of a grammar, discovered from the start symbol. Edges stand in the order in
which their sources are visited, and a vertex is discovered when it first becomes the target of an
edge. As with reachable symbols, the number of occurrences in the rules bounds the visits.
-/
def ofGrammar (grammar : Grammar) : DependencyGraph :=
  Discovery.run grammar (grammar.occurrenceCount + 1)
    { graph := addVertex {} grammar.start, stack := [grammar.start] }

end DependencyGraph

end VisiblyPushdown
