import VisiblyPushdown.Proofs.Edges

/-!
# Discovering the dependency graph

The dependency graph is discovered with a stack of its own: targets of edges are put on it when they
become vertices. Reachable symbols are explored with another stack, which takes the symbols that
were not seen before. The two runs go side by side. The vertices are the symbols that were seen, in
the same order, so both have the same stack at every visit, and the edges come in the order in which
`reachable` lists their sources.

The numbers that are kept with a vertex while vertices are still being found are in the end those of
all edges that leave it.
-/

namespace VisiblyPushdown

namespace InsertionOrder

variable {κ β : Type} [DecidableEq κ]

theorem map_fst_put (entries : List (κ × β)) (key : κ) (value : β) :
    (put entries key value).map Prod.fst = insert (entries.map Prod.fst) key := by
  induction entries with
  | nil => rfl
  | cons entry entries ih =>
      rcases entry with ⟨known, old⟩
      by_cases same : known = key
      · simp [put, insert, same]
      · by_cases present : key ∈ entries.map Prod.fst
        · simp only [put, same, if_false, List.map_cons, ih, insert, present, if_true,
            List.mem_cons_of_mem]
        · simp only [put, same, if_false, List.map_cons, ih, insert, present, List.mem_cons,
            Ne.symm same, or_self, List.cons_append]

theorem insertAll_append (members extra additions : List κ) :
    insertAll (members ++ extra) additions =
      members ++ insertAll extra (additions.filter (· ∉ members)) := by
  induction additions generalizing extra with
  | nil => rfl
  | cons added additions ih =>
      by_cases known : added ∈ members
      · have kept : insert (members ++ extra) added = members ++ extra :=
          if_pos (List.mem_append_left extra known)
        rw [List.filter_cons_of_neg (by simp [known]), ← ih extra, insertAll, List.foldl_cons, kept]
        rfl
      · have grown : insert (members ++ extra) added = members ++ insert extra added := by
          simp only [insert, List.mem_append, known, false_or]
          split
          · rfl
          · rw [List.append_assoc]
        rw [List.filter_cons_of_pos (by simp [known]), insertAll, List.foldl_cons, grown]
        exact ih (insert extra added)

/-- What is added comes behind the members, each addition at the place of its first occurrence. -/
theorem insertAll_eq_append (members additions : List κ) :
    insertAll members additions = members ++ distinct (additions.filter (· ∉ members)) := by
  have grown := insertAll_append members [] additions
  rwa [List.append_nil] at grown

end InsertionOrder

namespace DependencyGraph

variable (graph : DependencyGraph) (vertex : Symbol) (edge : Edge)

@[simp]
theorem vertexList_addVertex :
    (graph.addVertex vertex).vertexList = graph.vertexList ++ [vertex] := by
  simp [addVertex, vertexList]

theorem vertexList_addEdge :
    (graph.addEdge edge).vertexList = InsertionOrder.insert graph.vertexList edge.source :=
  InsertionOrder.map_fst_put _ _ _

@[simp]
theorem toList_edges_addEdge :
    (graph.addEdge edge).edges.toList = graph.edges.toList ++ [edge] := by
  simp [addEdge]

@[simp]
theorem outEdges_addVertex (source : Symbol) :
    (graph.addVertex vertex).outEdges source = graph.outEdges source := by
  rw [outEdges, addVertex, List.lookup_append, outEdges]
  cases graph.vertices.lookup source with
  | some numbers => rfl
  | none =>
      by_cases same : source = vertex
      · simp [same]
      · simp [List.lookup_cons, beq_false_of_ne same]

theorem outEdges_addEdge (source : Symbol) :
    (graph.addEdge edge).outEdges source =
      graph.outEdges source ++ if edge.source = source then [graph.edges.size] else [] := by
  by_cases same : edge.source = source
  · rw [if_pos same, ← same, outEdges, addEdge, InsertionOrder.lookup_put_self, Option.getD_some]
  · rw [if_neg same, List.append_nil, outEdges, addEdge,
      InsertionOrder.lookup_put_of_ne _ _ (Ne.symm same), outEdges]

/-- The numbers of the edges with a given source, in order. -/
def numbersFrom (source : Symbol) : List Nat :=
  (List.range graph.edges.size).filter fun number =>
    graph.edges[number]?.map Edge.source = some source

@[simp]
theorem numbersFrom_addVertex (source : Symbol) :
    (graph.addVertex vertex).numbersFrom source = graph.numbersFrom source :=
  rfl

theorem numbersFrom_addEdge (source : Symbol) :
    (graph.addEdge edge).numbersFrom source =
      graph.numbersFrom source ++ if edge.source = source then [graph.edges.size] else [] := by
  have earlier : (List.range graph.edges.size).filter (fun number =>
      (graph.addEdge edge).edges[number]?.map Edge.source = some source) =
        graph.numbersFrom source := by
    apply List.filter_congr
    intro number inside
    rw [addEdge, Array.getElem?_push, if_neg (Nat.ne_of_lt (List.mem_range.1 inside))]
  have more : (graph.addEdge edge).edges.size = graph.edges.size + 1 := Array.size_push edge
  rw [numbersFrom, more, List.range_succ, List.filter_append, earlier]
  by_cases same : edge.source = source <;> simp [addEdge, same]

/-- Whether each vertex is kept with the numbers of the edges that leave it. -/
def IsNumbered (graph : DependencyGraph) : Prop :=
  ∀ source, graph.outEdges source = graph.numbersFrom source

variable {graph} in
theorem IsNumbered.addEdge (numbered : graph.IsNumbered) (edge : Edge) :
    (graph.addEdge edge).IsNumbered := by
  intro source
  rw [outEdges_addEdge, numbersFrom_addEdge, numbered source]

end DependencyGraph

namespace Discovery

open DependencyGraph

variable {grammar : Grammar} {discovery : Discovery} {source : Symbol} {edges : List Edge}

theorem isNumbered_follow (numbered : discovery.graph.IsNumbered) (edge : Edge) :
    (discovery.follow edge).graph.IsNumbered := by
  have added := numbered.addEdge edge
  unfold follow
  dsimp only
  split
  · exact added
  · intro source
    rw [outEdges_addVertex, numbersFrom_addVertex, added source]

theorem isNumbered_foldl_follow (discovery : Discovery) (numbered : discovery.graph.IsNumbered)
    (edges : List Edge) : (edges.foldl follow discovery).graph.IsNumbered := by
  induction edges generalizing discovery with
  | nil => exact numbered
  | cons edge edges ih => exact ih _ (isNumbered_follow numbered edge)

theorem isNumbered_run (grammar : Grammar) (visits : Nat) (numbered : discovery.graph.IsNumbered) :
    (run grammar visits discovery).IsNumbered := by
  induction visits generalizing discovery with
  | zero => exact numbered
  | succ visits ih =>
      rcases discovery with ⟨graph, _ | ⟨source, stack⟩⟩
      · exact numbered
      · exact ih (isNumbered_foldl_follow ⟨graph, stack⟩ numbered _)

@[simp]
theorem toList_edges_follow (discovery : Discovery) (edge : Edge) :
    (discovery.follow edge).graph.edges.toList = discovery.graph.edges.toList ++ [edge] := by
  rw [← toList_edges_addEdge]
  unfold follow
  dsimp only
  split <;> rfl

@[simp]
theorem toList_edges_foldl_follow (discovery : Discovery) (edges : List Edge) :
    (edges.foldl follow discovery).graph.edges.toList =
      discovery.graph.edges.toList ++ edges := by
  induction edges generalizing discovery with
  | nil => simp
  | cons edge edges ih => simp [ih]

/-- A target that is discovered becomes the last vertex and the top of the stack. -/
theorem follow_discovers {edge : Edge} (known : edge.source ∈ discovery.graph.vertexList) :
    (discovery.follow edge).graph.vertexList =
        InsertionOrder.insert discovery.graph.vertexList edge.target ∧
      ∃ fresh, (discovery.follow edge).graph.vertexList = discovery.graph.vertexList ++ fresh ∧
        (discovery.follow edge).stack = fresh.reverse ++ discovery.stack := by
  have same : (discovery.graph.addEdge edge).vertexList = discovery.graph.vertexList := by
    rw [vertexList_addEdge]
    exact if_pos known
  unfold follow InsertionOrder.insert
  dsimp only
  rw [same]
  split
  · exact ⟨same, [], by simp [same]⟩
  · exact ⟨by simp [same], [edge.target], by simp [same]⟩

theorem foldl_follow_discovers (discovery : Discovery)
    (known : source ∈ discovery.graph.vertexList) (leaving : ∀ edge ∈ edges, edge.source = source) :
    (edges.foldl follow discovery).graph.vertexList =
        InsertionOrder.insertAll discovery.graph.vertexList (edges.map Edge.target) ∧
      ∃ fresh,
        (edges.foldl follow discovery).graph.vertexList = discovery.graph.vertexList ++ fresh ∧
        (edges.foldl follow discovery).stack = fresh.reverse ++ discovery.stack := by
  induction edges generalizing discovery with
  | nil => exact ⟨rfl, [], by simp⟩
  | cons edge edges ih =>
      rw [List.forall_mem_cons] at leaving
      rcases follow_discovers (leaving.1.symm ▸ known) with ⟨inserted, first, grown, stacked⟩
      have known_still : source ∈ (discovery.follow edge).graph.vertexList :=
        grown ▸ List.mem_append_left first known
      rcases ih _ known_still leaving.2 with ⟨inserted_all, later, grown_on, stacked_on⟩
      rw [List.foldl_cons]
      refine ⟨?_, first ++ later, ?_, ?_⟩
      · rw [inserted_all, inserted]
        rfl
      · rw [grown_on, grown, List.append_assoc]
      · rw [stacked_on, stacked, List.reverse_append, List.append_assoc]

/-- A visit discovers the successors that were no vertices before, as an exploration does. -/
theorem visit_discovers {graph : DependencyGraph} (grammar : Grammar) (stack : List Symbol)
    (known : source ∈ graph.vertexList) :
    let fresh := InsertionOrder.distinct
      ((grammar.successors source).filter (· ∉ graph.vertexList))
    let next := (grammar.edgesFrom source).foldl follow ⟨graph, stack⟩
    next.graph.vertexList = graph.vertexList ++ fresh ∧ next.stack = fresh.reverse ++ stack ∧
      next.graph.edges.toList = graph.edges.toList ++ grammar.edgesFrom source := by
  intro fresh next
  rcases foldl_follow_discovers ⟨graph, stack⟩ known
    (fun edge mem => (Grammar.mem_edgesFrom.1 mem).1) with ⟨inserted, found, grown, stacked⟩
  have inserted_fresh : next.graph.vertexList = graph.vertexList ++ fresh := by
    rw [inserted, Grammar.map_target_edgesFrom]
    exact InsertionOrder.insertAll_eq_append _ _
  have found_eq : found = fresh := List.append_cancel_left (grown.symm.trans inserted_fresh)
  exact ⟨inserted_fresh, found_eq ▸ stacked, toList_edges_foldl_follow _ _⟩

/--
The discovery visits what the exploration of successors visits, in the same order: both have the
same stack, and the vertices are what the exploration has seen.
-/
theorem run_eq_explore (grammar : Grammar) (visits : Nat) (graph : DependencyGraph)
    {stack : List Symbol} (known : stack ⊆ graph.vertexList) :
    let leaving := (Grammar.explore grammar.successors visits stack graph.vertexList).flatMap
      grammar.edgesFrom
    (run grammar visits ⟨graph, stack⟩).edges.toList = graph.edges.toList ++ leaving ∧
      (run grammar visits ⟨graph, stack⟩).vertexList =
        InsertionOrder.insertAll graph.vertexList (leaving.map Edge.target) := by
  induction visits generalizing graph stack with
  | zero => simp [run, Grammar.explore, InsertionOrder.insertAll]
  | succ visits ih =>
      cases stack with
      | nil => simp [run, Grammar.explore, InsertionOrder.insertAll]
      | cons source stack =>
          rw [List.cons_subset] at known
          have inserted := InsertionOrder.insertAll_eq_append graph.vertexList
            (grammar.successors source)
          rw [run, Grammar.explore]
          dsimp only
          rcases visit_discovers grammar stack known.1 with ⟨grown, stacked, followed⟩
          generalize InsertionOrder.distinct ((grammar.successors source).filter
            (· ∉ graph.vertexList)) = fresh at *
          generalize (grammar.edgesFrom source).foldl follow ⟨graph, stack⟩ = next at *
          rcases next with ⟨next, _⟩
          dsimp only at grown stacked followed
          subst stacked
          have known_still : fresh.reverse ++ stack ⊆ next.vertexList := by
            simp only [grown, List.append_subset, List.reverse_subset, List.subset_append_right,
              true_and]
            exact List.subset_append_of_subset_left fresh known.2
          rcases ih next known_still with ⟨edges_eq, vertices_eq⟩
          rw [grown] at edges_eq vertices_eq
          rw [List.flatMap_cons, List.map_append, Grammar.map_target_edgesFrom]
          constructor
          · rw [edges_eq, followed, List.append_assoc]
          · rw [vertices_eq, ← inserted]
            simp only [InsertionOrder.insertAll, List.foldl_append]

end Discovery

end VisiblyPushdown
