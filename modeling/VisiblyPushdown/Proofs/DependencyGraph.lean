import VisiblyPushdown.Proofs.Discovery
import VisiblyPushdown.Proofs.Reachability

/-!
# Contents of the dependency graph

The vertices of the dependency graph are the reachable nonterminals, its edges are the occurrences
of nonterminals in reachable alternatives, and the steps from a vertex are the edges with that
source. `lists_occurrences_ofGrammar` says so with the order of edges and of their numbers.
-/

namespace VisiblyPushdown

namespace Grammar

/-- A symbol mentions exactly the targets of the edges that leave it. -/
theorem mentions_iff_exists_edge {grammar : Grammar} {symbol other : Symbol} :
    grammar.Mentions symbol other ↔ ∃ edge ∈ grammar.edgesFrom symbol, edge.target = other := by
  rw [← mem_successors, ← map_target_edgesFrom, List.mem_map]

end Grammar

namespace DependencyGraph

/-- Whether the edge with the given number leads from `source` to `target`. -/
def Leads (graph : DependencyGraph) (source : Symbol) (number : Nat) (target : Symbol) : Prop :=
  ∃ edge, graph.edges[number]? = some edge ∧ edge.source = source ∧ edge.target = target

section OfGrammar

variable {grammar : Grammar}

/-- The edges come in the order in which `reachable` lists their sources. -/
theorem toList_edges_ofGrammar :
    (ofGrammar grammar).edges.toList = grammar.reachable.flatMap grammar.edgesFrom :=
  (Discovery.run_eq_explore grammar _ (addVertex {} grammar.start) (List.Subset.refl _)).1

/-- The vertices come in the order in which edges first lead to them. -/
theorem vertexList_ofGrammar :
    (ofGrammar grammar).vertexList = InsertionOrder.insertAll [grammar.start]
      ((ofGrammar grammar).edges.toList.map Edge.target) := by
  rw [toList_edges_ofGrammar]
  exact (Discovery.run_eq_explore grammar _ (addVertex {} grammar.start) (List.Subset.refl _)).2

theorem isNumbered_ofGrammar : (ofGrammar grammar).IsNumbered := by
  apply Discovery.isNumbered_run
  intro source
  rw [outEdges_addVertex]
  rfl

/-- The edges are the occurrences of nonterminals in the alternatives of reachable symbols. -/
theorem mem_edges_ofGrammar {edge : Edge} :
    edge ∈ (ofGrammar grammar).edges ↔
      grammar.Reaches grammar.start edge.source ∧ edge ∈ grammar.edgesFrom edge.source := by
  rw [← Array.mem_toList_iff, toList_edges_ofGrammar, List.mem_flatMap]
  constructor
  · rintro ⟨source, source_mem, edge_mem⟩
    obtain ⟨rfl, _⟩ := Grammar.mem_edgesFrom.1 edge_mem
    exact ⟨Grammar.mem_reachable.1 source_mem, edge_mem⟩
  · rintro ⟨reached, edge_mem⟩
    exact ⟨edge.source, Grammar.mem_reachable.2 reached, edge_mem⟩

/-- The vertices are the reachable nonterminals, the start symbol included. -/
theorem mem_vertexList_ofGrammar {vertex : Symbol} :
    vertex ∈ (ofGrammar grammar).vertexList ↔ grammar.Reaches grammar.start vertex := by
  have vertices : vertex ∈ (ofGrammar grammar).vertexList ↔
      vertex = grammar.start ∨ ∃ edge ∈ (ofGrammar grammar).edges, edge.target = vertex := by
    simp [vertexList_ofGrammar, eq_comm]
  rw [vertices]
  constructor
  · rintro (rfl | ⟨edge, edge_mem, rfl⟩)
    · exact .refl
    · obtain ⟨reached, leaving⟩ := mem_edges_ofGrammar.1 edge_mem
      exact reached.tail (Grammar.mentions_iff_exists_edge.2 ⟨edge, leaving, rfl⟩)
  · intro reached
    cases reached with
    | refl => exact .inl rfl
    | tail reached mentions =>
        obtain ⟨edge, leaving, target_eq⟩ := Grammar.mentions_iff_exists_edge.1 mentions
        obtain ⟨rfl, _⟩ := Grammar.mem_edgesFrom.1 leaving
        exact .inr ⟨edge, mem_edges_ofGrammar.2 ⟨reached, leaving⟩, target_eq⟩

theorem mem_outEdges_ofGrammar {source : Symbol} {number : Nat} :
    number ∈ (ofGrammar grammar).outEdges source ↔
      ∃ target, (ofGrammar grammar).Leads source number target := by
  rw [isNumbered_ofGrammar, numbersFrom, List.mem_filter, List.mem_range, decide_eq_true_eq,
    Option.map_eq_some_iff]
  constructor
  · rintro ⟨_, edge, known, source_eq⟩
    exact ⟨edge.target, edge, known, source_eq, rfl⟩
  · rintro ⟨_, edge, known, source_eq, _⟩
    exact ⟨(Array.getElem?_eq_some_iff.1 known).1, edge, known, source_eq⟩

/-- The steps from a vertex are exactly the edges with that source. -/
theorem mem_steps_ofGrammar {source target : Symbol} {number : Nat} :
    (number, target) ∈ (ofGrammar grammar).steps source ↔
      (ofGrammar grammar).Leads source number target := by
  simp only [steps, List.mem_filterMap, mem_outEdges_ofGrammar, Option.map_eq_some_iff,
    Prod.mk.injEq]
  constructor
  · rintro ⟨_, ⟨_, edge, edge_known, source_eq, _⟩, other, other_known, rfl, rfl⟩
    obtain rfl := Option.some.inj (edge_known.symm.trans other_known)
    exact ⟨edge, edge_known, source_eq, rfl⟩
  · rintro ⟨edge, edge_known, source_eq, rfl⟩
    exact ⟨number, ⟨edge.target, edge, edge_known, source_eq, rfl⟩, edge, edge_known, rfl, rfl⟩

theorem nodup_vertexList_ofGrammar : (ofGrammar grammar).vertexList.Nodup := by
  rw [vertexList_ofGrammar]
  exact InsertionOrder.nodup_insertAll (List.nodup_singleton grammar.start) _

/-- The vertices are the least set with the start symbol and what its members mention. -/
theorem isLeast_vertexList_ofGrammar :
    IsLeast {symbols : Set Symbol | grammar.start ∈ symbols ∧
        ∀ symbol ∈ symbols, ∀ other, grammar.Mentions symbol other → other ∈ symbols}
      {vertex | vertex ∈ (ofGrammar grammar).vertexList} := by
  simp only [mem_vertexList_ofGrammar]
  refine ⟨⟨.refl, fun symbol reached other mentions => reached.tail mentions⟩, ?_⟩
  rintro symbols ⟨start_mem, closed⟩ vertex reached
  induction reached with
  | refl => exact start_mem
  | tail _ mentions ih => exact closed _ ih _ mentions

theorem map_target_edges_ofGrammar :
    (ofGrammar grammar).edges.toList.map Edge.target =
      (grammar.reachableAlternatives.flatMap (·.map Occurrence.symbol)).filter
        Symbol.isNonterminal := by
  simp only [toList_edges_ofGrammar, List.map_flatMap, Grammar.map_target_edgesFrom,
    Grammar.successors, Grammar.reachableAlternatives, List.flatMap_assoc, List.filter_flatMap]

/--
The dependency graph agrees with the list of reachable nonterminals. These are its vertices, none
twice, and the least set with the start symbol and what its members mention. The edges follow that
list: for each nonterminal, alternative by alternative, one edge for every place at which a
nonterminal stands, with the symbols in front of the place and behind it. So the targets are all
occurrences of nonterminals, none lost and none merged. Every vertex is kept with the numbers of the
edges that leave it, in order.
-/
theorem lists_occurrences_ofGrammar (grammar : Grammar) :
    let graph := ofGrammar grammar
    (graph.vertexList.Nodup ∧ graph.vertexList.Perm grammar.reachable) ∧
    IsLeast {symbols : Set Symbol | grammar.start ∈ symbols ∧
        ∀ symbol ∈ symbols, ∀ other, grammar.Mentions symbol other → other ∈ symbols}
      {vertex | vertex ∈ graph.vertexList} ∧
    graph.edges.toList =
      (grammar.reachable.flatMap fun source =>
        (grammar.alternatives source).flatMap fun alternative =>
          (List.range alternative.length).filterMap
            (Edge.at? source (alternative.map Occurrence.symbol))) ∧
    (∀ source symbols position edge, Edge.at? source symbols position = some edge ↔
      edge.source = source ∧ edge.target.isNonterminal ∧ edge.before.length = position ∧
        edge.before ++ [edge.target] ++ edge.after = symbols) ∧
    graph.edges.toList.map Edge.target =
      (grammar.reachableAlternatives.flatMap (·.map Occurrence.symbol)).filter
        Symbol.isNonterminal ∧
    ∀ vertex, graph.outEdges vertex =
      (List.range graph.edges.size).filter fun number =>
        graph.edges[number]?.map Edge.source = some vertex := by
  intro graph
  have same_vertices : graph.vertexList.Perm grammar.reachable := by
    rw [List.perm_ext_iff_of_nodup nodup_vertexList_ofGrammar grammar.nodup_reachable]
    exact fun vertex => mem_vertexList_ofGrammar.trans Grammar.mem_reachable.symm
  refine ⟨⟨nodup_vertexList_ofGrammar, same_vertices⟩, isLeast_vertexList_ofGrammar, ?_, ?_,
    map_target_edges_ofGrammar, isNumbered_ofGrammar⟩
  · rw [toList_edges_ofGrammar]
    congr 1
    funext source
    rw [Grammar.edgesFrom, Edge.ofAlternative_eq]
  · intro source symbols position edge
    rw [Edge.at?_eq_some_iff, List.append_assoc, List.singleton_append]

/-- The same nonterminal between the same symbols, once with a mark and once without: two edges. -/
example :
    let start : Symbol := ⟨"s", .nonterminal⟩
    let item : Symbol := ⟨"t", .nonterminal⟩
    let graph := ofGrammar
      { start, rules := [(start, [[.bare item], [⟨item, .optional⟩]])] }
    graph.edges = #[⟨start, item, [], []⟩, ⟨start, item, [], []⟩] ∧
      graph.vertices = [(start, [0, 1]), (item, [])] := by
  decide

end OfGrammar

end DependencyGraph

end VisiblyPushdown
