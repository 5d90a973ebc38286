import Mathlib.Data.List.Rotate
import VisiblyPushdown.Graph.Cycle
import VisiblyPushdown.Proofs.DependencyGraph

/-!
# Enumeration of simple cycles

A walk follows edges from vertex to vertex; it is closed when it comes back to its first vertex, and
a closed walk without a repeated vertex is a simple cycle, read from one of its vertices. On the
dependency graph of a grammar the depth first search lists every simple cycle once for each of its
vertices, and nothing else.

For soundness the search carries a walk from its root that repeats no vertex: a step back into that
walk cuts a simple cycle off its end. For completeness a simple cycle is followed from its first
vertex: none of its steps leads back before the last one does, and the bound on the length of the
search is not reached, for a simple cycle has no more steps than the graph has vertices.
-/

namespace VisiblyPushdown.DependencyGraph

/-- A walk between two vertices, as the sequence of its steps. -/
inductive Walk (graph : DependencyGraph) : Symbol → Cycle → Symbol → Prop where
  | nil (vertex : Symbol) : Walk graph vertex [] vertex
  | cons {vertex next last : Symbol} {number : Nat} {steps : Cycle}
      (leads : graph.Leads vertex number next) (rest : Walk graph next steps last) :
      Walk graph vertex ((vertex, number) :: steps) last

/-- Whether a sequence of steps is a walk of at least one step back to its first vertex. -/
def IsClosedWalk (graph : DependencyGraph) (walk : Cycle) : Prop :=
  walk ≠ [] ∧ ∃ root, graph.Walk root walk root

/-- Whether a sequence of steps is a closed walk that leaves no vertex twice. -/
def IsSimpleCycle (graph : DependencyGraph) (cycle : Cycle) : Prop :=
  graph.IsClosedWalk cycle ∧ cycle.vertices.Nodup

section Walks

variable {graph : DependencyGraph}

theorem walk_nil_iff {first last : Symbol} : graph.Walk first [] last ↔ first = last := by
  constructor
  · rintro ⟨⟩
    rfl
  · rintro rfl
    exact .nil first

theorem walk_cons_iff {first source last : Symbol} {number : Nat} {steps : Cycle} :
    graph.Walk first ((source, number) :: steps) last ↔
      first = source ∧ ∃ next, graph.Leads source number next ∧ graph.Walk next steps last := by
  constructor
  · rintro ⟨⟩
    exact ⟨rfl, _, ‹_›, ‹_›⟩
  · rintro ⟨rfl, next, leads, rest⟩
    exact .cons leads rest

theorem walk_append_iff {first last : Symbol} {earlier later : Cycle} :
    graph.Walk first (earlier ++ later) last ↔
      ∃ middle, graph.Walk first earlier middle ∧ graph.Walk middle later last := by
  induction earlier generalizing first with
  | nil => simp [walk_nil_iff]
  | cons step earlier ih =>
      rcases step with ⟨source, number⟩
      simp only [List.cons_append, walk_cons_iff, ih]
      constructor
      · rintro ⟨rfl, next, leads, middle, left, right⟩
        exact ⟨middle, ⟨rfl, next, leads, left⟩, right⟩
      · rintro ⟨middle, ⟨rfl, next, leads, left⟩, right⟩
        exact ⟨rfl, next, leads, middle, left, right⟩

/-- A walk, read position by position: each edge leads to the vertex of the next step. -/
theorem walk_iff_getElem? {first last : Symbol} {steps : Cycle} :
    graph.Walk first steps last ↔
      (steps.vertices ++ [last])[0]? = some first ∧
        ∀ (i : Nat) (source : Symbol) (number : Nat), steps[i]? = some (source, number) →
          ∃ target, graph.Leads source number target ∧
            (steps.vertices ++ [last])[i + 1]? = some target := by
  induction steps generalizing first with
  | nil => simp [walk_nil_iff, Cycle.vertices, eq_comm]
  | cons step steps ih =>
      rcases step with ⟨source, number⟩
      simp only [walk_cons_iff, ih]
      constructor
      · rintro ⟨rfl, next, leads, next_first, later⟩
        refine ⟨by simp [Cycle.vertices], ?_⟩
        intro i other label known
        cases i with
        | zero =>
            obtain ⟨rfl, rfl⟩ : first = other ∧ number = label := by simpa using known
            exact ⟨next, leads, next_first⟩
        | succ i => exact later i other label (by simpa using known)
      · rintro ⟨first_eq, all⟩
        obtain ⟨next, leads, next_first⟩ := all 0 source number rfl
        obtain rfl : source = first := by simpa [Cycle.vertices] using first_eq
        exact ⟨rfl, next, leads, next_first, fun i other label known =>
          all (i + 1) other label (by simpa using known)⟩

/-- A closed walk, read position by position around the circle. -/
theorem isClosedWalk_iff_getElem? {walk : Cycle} :
    graph.IsClosedWalk walk ↔
      walk ≠ [] ∧ ∀ (i : Nat) (source : Symbol) (number : Nat), walk[i]? = some (source, number) →
        ∃ target, graph.Leads source number target ∧
          walk.vertices[(i + 1) % walk.length]? = some target := by
  unfold IsClosedWalk
  refine and_congr_right fun nonempty => ?_
  have positive : 0 < walk.vertices.length := by
    simpa [Cycle.vertices, List.length_pos_iff] using nonempty
  obtain ⟨root, root_eq⟩ : ∃ root, walk.vertices[0]? = some root :=
    ⟨_, List.getElem?_eq_getElem positive⟩
  have around (i : Nat) (inside : i < walk.length) :
      (walk.vertices ++ [root])[i + 1]? = walk.vertices[(i + 1) % walk.length]? := by
    have length_eq : walk.vertices.length = walk.length := by simp [Cycle.vertices]
    by_cases last : i + 1 = walk.length
    · rw [List.getElem?_append_right (by omega), last, Nat.mod_self, root_eq, length_eq]
      simp
    · rw [List.getElem?_append_left (by omega), Nat.mod_eq_of_lt (by omega)]
  constructor
  · rintro ⟨vertex, path⟩
    obtain ⟨first_eq, later⟩ := walk_iff_getElem?.1 path
    rw [List.getElem?_append_left positive, root_eq] at first_eq
    obtain rfl := Option.some.inj first_eq
    intro i source number known
    obtain ⟨target, leads, target_eq⟩ := later i source number known
    rw [around i (List.getElem?_eq_some_iff.1 known).1] at target_eq
    exact ⟨target, leads, target_eq⟩
  · intro all
    refine ⟨root, walk_iff_getElem?.2 ⟨?_, ?_⟩⟩
    · rw [List.getElem?_append_left positive, root_eq]
    · intro i source number known
      rw [around i (List.getElem?_eq_some_iff.1 known).1]
      exact all i source number known

theorem zip_vertices_edges (cycle : Cycle) : cycle.vertices.zip cycle.edges = cycle :=
  (List.zip_of_prod rfl rfl).symm

/-- A simple cycle, read position by position in its vertices and its edges. -/
theorem isSimpleCycle_iff_getElem? {cycle : Cycle} :
    graph.IsSimpleCycle cycle ↔
      0 < cycle.vertices.length ∧ cycle.vertices.Nodup ∧
        ∀ i < cycle.vertices.length, ∃ source number target, cycle.vertices[i]? = some source ∧
          cycle.edges[i]? = some number ∧
            cycle.vertices[(i + 1) % cycle.vertices.length]? = some target ∧
              graph.Leads source number target := by
  have length_eq : cycle.vertices.length = cycle.length := by simp [Cycle.vertices]
  rw [IsSimpleCycle, isClosedWalk_iff_getElem?, length_eq, List.length_pos_iff, and_assoc,
    and_comm (b := cycle.vertices.Nodup)]
  refine and_congr_right fun _ => and_congr_right fun _ => ?_
  constructor
  · intro all i inside
    obtain ⟨target, leads, target_eq⟩ := all i cycle[i].1 cycle[i].2 (by simp [inside])
    exact ⟨cycle[i].1, cycle[i].2, target, by simp [Cycle.vertices, inside],
      by simp [Cycle.edges, inside], target_eq, leads⟩
  · intro all i source number known
    obtain ⟨other, label, target, other_eq, label_eq, target_eq, leads⟩ :=
      all i (List.getElem?_eq_some_iff.1 known).1
    obtain rfl : source = other := by simpa [Cycle.vertices, known] using other_eq
    obtain rfl : number = label := by simpa [Cycle.edges, known] using label_eq
    exact ⟨target, leads, target_eq⟩

theorem IsClosedWalk.rotate {walk : Cycle} (closed : graph.IsClosedWalk walk) (positions : Nat) :
    graph.IsClosedWalk (walk.rotate positions) := by
  induction positions with
  | zero => simpa using closed
  | succ positions ih =>
      obtain ⟨nonempty, root, path⟩ := ih
      rw [← List.rotate_rotate]
      cases rotated : walk.rotate positions with
      | nil => exact absurd rotated nonempty
      | cons step steps =>
          rcases step with ⟨source, number⟩
          rw [rotated, walk_cons_iff] at path
          obtain ⟨rfl, next, leads, rest⟩ := path
          rw [List.rotate_cons_succ, List.rotate_zero]
          exact ⟨by simp, next, walk_append_iff.2 ⟨root, rest, .cons leads (.nil next)⟩⟩

theorem IsSimpleCycle.rotate {cycle : Cycle} (simple : graph.IsSimpleCycle cycle)
    (positions : Nat) : graph.IsSimpleCycle (cycle.rotate positions) := by
  refine ⟨simple.1.rotate positions, ?_⟩
  rw [Cycle.vertices, List.map_rotate]
  exact List.nodup_rotate.2 simple.2

/-- Another edge between the same vertices may take the place of an edge of a simple cycle. -/
theorem IsSimpleCycle.set_parallel {cycle : Cycle} (simple : graph.IsSimpleCycle cycle) {i : Nat}
    {source target : Symbol} {number parallel : Nat} (known : cycle[i]? = some (source, number))
    (leads : graph.Leads source number target) (beside : graph.Leads source parallel target) :
    graph.IsSimpleCycle (cycle.set i (source, parallel)) := by
  obtain ⟨closed, nodup⟩ := simple
  have vertices_eq : Cycle.vertices (cycle.set i (source, parallel)) = cycle.vertices := by
    rw [Cycle.vertices, Cycle.vertices, List.map_set]
    refine List.ext_getElem? fun j => ?_
    obtain ⟨inside, at_i⟩ := List.getElem?_eq_some_iff.1 known
    rw [List.getElem?_set]
    split
    · next same =>
        subst same
        simp [inside, at_i]
    · rfl
  refine ⟨?_, vertices_eq ▸ nodup⟩
  rw [isClosedWalk_iff_getElem?] at closed ⊢
  refine ⟨by simpa using closed.1, ?_⟩
  intro j other label other_known
  rw [vertices_eq, List.length_set]
  rw [List.getElem?_set] at other_known
  by_cases same : i = j
  · subst same
    obtain ⟨rfl, rfl⟩ : source = other ∧ parallel = label := by
      simpa [(List.getElem?_eq_some_iff.1 known).1] using other_known
    obtain ⟨next, next_leads, next_eq⟩ := closed.2 i source number known
    obtain ⟨edge, edge_known, _, rfl⟩ := leads
    obtain ⟨_, same_known, _, rfl⟩ := next_leads
    obtain rfl := Option.some.inj (edge_known.symm.trans same_known)
    exact ⟨edge.target, beside, next_eq⟩
  · exact closed.2 j other label (by simpa [same] using other_known)

end Walks

section Search

theorem walkFrom?_eq_none_iff {vertex : Symbol} {walk : Cycle} :
    walkFrom? vertex walk = none ↔ ∀ step ∈ walk, step.1 ≠ vertex := by
  refine ⟨?_, walkFrom?_eq_none⟩
  induction walk with
  | nil => simp
  | cons step earlier ih =>
      rw [walkFrom?]
      split
      · simp
      · next different => simpa [different] using ih

/-- A walk is cut at its last visit of the vertex. -/
theorem walkFrom?_eq_some_iff {vertex : Symbol} {walk cycle : Cycle} :
    walkFrom? vertex walk = some cycle ↔
      ∃ later number earlier, walk = later ++ (vertex, number) :: earlier ∧
        (∀ step ∈ later, step.1 ≠ vertex) ∧ cycle = (vertex, number) :: later.reverse := by
  induction walk generalizing cycle with
  | nil => simp [walkFrom?]
  | cons step walk ih =>
      rcases step with ⟨source, label⟩
      rw [walkFrom?]
      constructor
      · split
        · next same =>
            rintro ⟨rfl⟩
            obtain rfl : source = vertex := same
            exact ⟨[], label, walk, rfl, by simp, rfl⟩
        · next different =>
            intro found
            obtain ⟨cut, cut_eq, rfl⟩ := Option.map_eq_some_iff.1 found
            obtain ⟨later, number, earlier, rfl, apart, rfl⟩ := ih.1 cut_eq
            exact ⟨(source, label) :: later, number, earlier, rfl,
              List.forall_mem_cons.2 ⟨different, apart⟩, by simp⟩
      · rintro ⟨later, number, earlier, split, apart, rfl⟩
        cases later with
        | nil =>
            obtain ⟨same, rfl⟩ := List.cons.inj split
            obtain ⟨rfl, rfl⟩ := Prod.mk.inj same
            simp
        | cons first later =>
            obtain ⟨rfl, rfl⟩ := List.cons.inj split
            rw [List.forall_mem_cons] at apart
            rw [if_neg apart.1, ih.2 ⟨later, number, earlier, rfl, apart.2, rfl⟩]
            simp

variable {graph : DependencyGraph}

/-- A search that continues a walk without repeated vertices finds simple cycles only. -/
theorem isSimpleCycle_of_mem_closedWalks
    (steps_lead : ∀ {source number target},
      (number, target) ∈ graph.steps source → graph.Leads source number target)
    {length : Nat} {walk : Cycle} {root vertex : Symbol}
    (path : graph.Walk root walk.reverse vertex)
    (nodup : (vertex :: walk.vertices).Nodup) {cycle : Cycle}
    (cycle_mem : cycle ∈ closedWalks graph.steps length walk vertex) :
    graph.IsSimpleCycle cycle := by
  induction length generalizing walk vertex with
  | zero => simp [closedWalks] at cycle_mem
  | succ length ih =>
      rw [closedWalks, List.mem_flatMap] at cycle_mem
      obtain ⟨⟨number, target⟩, step_mem, found⟩ := cycle_mem
      have longer : graph.Walk root ((vertex, number) :: walk).reverse target := by
        rw [List.reverse_cons, walk_append_iff]
        exact ⟨vertex, path, .cons (steps_lead step_mem) (.nil target)⟩
      cases closing : walkFrom? target ((vertex, number) :: walk) with
      | some cut =>
          obtain rfl : cycle = cut := by simpa [closing] using found
          obtain ⟨later, label, earlier, split, _, rfl⟩ := walkFrom?_eq_some_iff.1 closing
          rw [split, List.reverse_append, List.reverse_cons, List.append_assoc,
            walk_append_iff] at longer
          obtain ⟨middle, _, around⟩ := longer
          obtain ⟨rfl, _⟩ := walk_cons_iff.1 around
          refine ⟨⟨by simp, middle, around⟩, ?_⟩
          have nodup_split : (Cycle.vertices (later ++ (middle, label) :: earlier)).Nodup :=
            split ▸ nodup
          simp only [Cycle.vertices, List.map_append, List.map_cons, List.map_reverse,
            List.nodup_append, List.nodup_cons, List.nodup_reverse, List.mem_reverse]
            at nodup_split ⊢
          refine ⟨?_, nodup_split.1⟩
          intro again
          exact nodup_split.2.2 middle again middle List.mem_cons_self rfl
      | none =>
          rw [closing] at found
          refine ih longer ?_ found
          refine List.nodup_cons.2 ⟨?_, nodup⟩
          intro visited
          obtain ⟨step, step_mem, same⟩ := List.mem_map.1 visited
          exact walkFrom?_eq_none_iff.1 closing step step_mem same

/-- A search that has followed the first steps of a simple cycle finds that cycle. -/
theorem mem_closedWalks_of_isSimpleCycle
    (leads_steps : ∀ {source number target},
      graph.Leads source number target → (number, target) ∈ graph.steps source)
    {length : Nat} {passed rest : Cycle} {root vertex : Symbol}
    (nodup : (passed ++ rest).vertices.Nodup) (first : (passed ++ rest).vertices[0]? = some root)
    (path : graph.Walk vertex rest root) (rest_nonempty : rest ≠ [])
    (enough : rest.length ≤ length) :
    passed ++ rest ∈ closedWalks graph.steps length passed.reverse vertex := by
  induction rest generalizing passed vertex length with
  | nil => exact absurd rfl rest_nonempty
  | cons step rest ih =>
      rcases step with ⟨source, number⟩
      obtain ⟨rfl, next, leads, later⟩ := walk_cons_iff.1 path
      cases length with
      | zero => simp at enough
      | succ length =>
          rw [closedWalks, List.mem_flatMap]
          refine ⟨(number, next), leads_steps leads, ?_⟩
          cases rest with
          | nil =>
              obtain rfl := walk_nil_iff.1 later
              have closing : walkFrom? next ((vertex, number) :: passed.reverse) =
                  some (passed ++ [(vertex, number)]) := by
                rw [walkFrom?_eq_some_iff]
                cases passed with
                | nil =>
                    obtain rfl : vertex = next := by simpa [Cycle.vertices] using first
                    exact ⟨[], number, [], rfl, by simp, rfl⟩
                | cons head passed =>
                    rcases head with ⟨origin, label⟩
                    obtain rfl : origin = next := by simpa [Cycle.vertices] using first
                    refine ⟨(vertex, number) :: passed.reverse, label, [], by simp, ?_, by simp⟩
                    intro step step_mem same
                    simp only [Cycle.vertices, List.cons_append, List.map_cons, List.map_append,
                      List.nodup_cons] at nodup
                    refine nodup.1 ?_
                    simp only [List.mem_append, List.mem_map, List.mem_cons, List.mem_reverse]
                      at step_mem ⊢
                    rcases step_mem with rfl | step_mem
                    · exact .inr (.inl same.symm)
                    · exact .inl ⟨step, step_mem, same⟩
              simp [closing]
          | cons following rest =>
              have open_walk : walkFrom? next ((vertex, number) :: passed.reverse) = none := by
                rcases following with ⟨origin, label⟩
                obtain ⟨rfl, _⟩ := walk_cons_iff.1 later
                refine walkFrom?_eq_none fun step step_mem same => ?_
                simp only [Cycle.vertices, List.map_append, List.map_cons, List.nodup_append,
                  List.nodup_cons, List.mem_cons] at nodup
                rcases List.mem_cons.1 step_mem with rfl | step_mem
                · exact nodup.2.1.1 (.inl same)
                · exact nodup.2.2 step.1 (List.mem_map_of_mem (List.mem_reverse.1 step_mem)) next
                    (.inr (.inl rfl)) same
              have continued : passed ++ [(vertex, number)] ++ following :: rest ∈
                  closedWalks graph.steps length (passed ++ [(vertex, number)]).reverse next :=
                ih (by simpa using nodup) (by simpa using first) later (by simp)
                  (by simpa using enough)
              simpa [open_walk] using continued

end Search

section OfGrammar

variable {grammar : Grammar}

theorem vertices_subset_of_walk {first last : Symbol} {steps : Cycle}
    (path : (ofGrammar grammar).Walk first steps last) :
    steps.vertices ⊆ (ofGrammar grammar).vertexList := by
  induction path with
  | nil vertex => simp [Cycle.vertices]
  | cons leads _ ih =>
      obtain ⟨edge, edge_known, rfl, _⟩ := leads
      have edge_mem := mem_edges_ofGrammar.1 (Array.mem_of_getElem? edge_known)
      exact List.cons_subset.2 ⟨mem_vertexList_ofGrammar.2 edge_mem.1, ih⟩

/-- The cycles that are listed are the simple cycles of the dependency graph. -/
theorem mem_cycles_ofGrammar {cycle : Cycle} :
    cycle ∈ (ofGrammar grammar).cycles ↔ (ofGrammar grammar).IsSimpleCycle cycle := by
  rw [cycles_eq, InsertionOrder.mem_distinct, List.mem_flatMap]
  constructor
  · rintro ⟨root, _, cycle_mem⟩
    exact isSimpleCycle_of_mem_closedWalks mem_steps_ofGrammar.1 (.nil root)
      (by simp [Cycle.vertices]) cycle_mem
  · rintro ⟨⟨nonempty, root, path⟩, nodup⟩
    have subset := vertices_subset_of_walk path
    have short : cycle.length ≤ (ofGrammar grammar).vertices.length := by
      simpa [Cycle.vertices, vertexList] using (List.subperm_of_subset nodup subset).length_le
    have first : cycle.vertices[0]? = some root := by
      have := (walk_iff_getElem?.1 path).1
      have positive : 0 < cycle.vertices.length := by
        simpa [Cycle.vertices, List.length_pos_iff] using nonempty
      rwa [List.getElem?_append_left positive] at this
    refine ⟨root, subset (List.mem_of_getElem? first), ?_⟩
    have listed : [] ++ cycle ∈
        closedWalks (ofGrammar grammar).steps (ofGrammar grammar).vertices.length [].reverse root :=
      mem_closedWalks_of_isSimpleCycle mem_steps_ofGrammar.2 nodup first path nonempty short
    exact listed

theorem nodup_cycles (graph : DependencyGraph) : graph.cycles.Nodup := by
  rw [cycles_eq]
  exact InsertionOrder.nodup_distinct _

/-- A cycle is listed from each of its vertices. -/
theorem countP_isRotated_cycles {cycle : Cycle} (cycle_mem : cycle ∈ (ofGrammar grammar).cycles) :
    (ofGrammar grammar).cycles.countP (List.IsRotated cycle ·) = cycle.length := by
  have simple := mem_cycles_ofGrammar.1 cycle_mem
  have same : ((ofGrammar grammar).cycles.filter (List.IsRotated cycle ·)).Perm
      cycle.cyclicPermutations := by
    rw [List.perm_ext_iff_of_nodup ((nodup_cycles _).filter _)
      (List.Nodup.cyclicPermutations (simple.2.of_map _))]
    intro other
    simp only [List.mem_filter, decide_eq_true_eq, List.mem_cyclicPermutations_iff,
      mem_cycles_ofGrammar]
    constructor
    · exact fun listed => listed.2.symm
    · rintro rotated
      obtain ⟨positions, rfl⟩ := rotated.symm
      exact ⟨simple.rotate positions, positions, rfl⟩
  rw [List.countP_eq_length_filter, same.length_eq,
    List.length_cyclicPermutations_of_ne_nil cycle simple.1.1]

/--
The cycles of a grammar's dependency graph, each as its vertices and edges, are listed without
repetition and are exactly the sequences of distinct vertices and as many edges in which each edge
leads to the next vertex, and the last one back to the first. So every cycle is listed once in each
of its rotations, and an edge parallel to one of its edges makes another cycle.
-/
theorem cycles_enumerate (grammar : Grammar) :
    let graph := ofGrammar grammar
    (graph.cycles.map fun cycle => (cycle.vertices, cycle.edges)).Nodup ∧
      (∀ vertices edges,
        (vertices, edges) ∈ graph.cycles.map (fun cycle => (cycle.vertices, cycle.edges)) ↔
          vertices.length = edges.length ∧ 0 < vertices.length ∧ vertices.Nodup ∧
            ∀ i < vertices.length, ∃ source number target, vertices[i]? = some source ∧
              edges[i]? = some number ∧ vertices[(i + 1) % vertices.length]? = some target ∧
                graph.Leads source number target) ∧
      (∀ cycle ∈ graph.cycles,
        (∀ rotation : Cycle, List.IsRotated cycle rotation → graph.cycles.count rotation = 1) ∧
          graph.cycles.countP (List.IsRotated cycle ·) = cycle.length) ∧
      ∀ cycle ∈ graph.cycles, ∀ (i : Nat) (source target : Symbol) (number parallel : Nat),
        cycle[i]? = some (source, number) → graph.Leads source number target →
          graph.Leads source parallel target → parallel ≠ number →
            cycle.set i (source, parallel) ∈ graph.cycles ∧
              cycle.set i (source, parallel) ≠ cycle := by
  intro graph
  refine ⟨?_, ?_, ?_, ?_⟩
  · refine graph.nodup_cycles.map_on fun left _ right _ same => ?_
    obtain ⟨same_vertices, same_edges⟩ := Prod.mk.inj same
    rw [← zip_vertices_edges left, ← zip_vertices_edges right, same_vertices, same_edges]
  · intro vertices edges
    rw [List.mem_map]
    constructor
    · rintro ⟨cycle, cycle_mem, same⟩
      obtain ⟨rfl, rfl⟩ := Prod.mk.inj same
      exact ⟨by simp [Cycle.vertices, Cycle.edges],
        isSimpleCycle_iff_getElem?.1 (mem_cycles_ofGrammar.1 cycle_mem)⟩
    · rintro ⟨length_eq, simple⟩
      have vertices_eq : Cycle.vertices (vertices.zip edges) = vertices :=
        List.map_fst_zip length_eq.le
      have edges_eq : Cycle.edges (vertices.zip edges) = edges := List.map_snd_zip length_eq.ge
      refine ⟨vertices.zip edges, mem_cycles_ofGrammar.2 ?_, by rw [vertices_eq, edges_eq]⟩
      rw [isSimpleCycle_iff_getElem?, vertices_eq, edges_eq]
      exact simple
  · intro cycle cycle_mem
    refine ⟨?_, countP_isRotated_cycles cycle_mem⟩
    rintro _ ⟨positions, rfl⟩
    refine List.count_eq_one_of_mem graph.nodup_cycles (mem_cycles_ofGrammar.2 ?_)
    exact (mem_cycles_ofGrammar.1 cycle_mem).rotate positions
  · intro cycle cycle_mem i source target number parallel known leads beside different
    have simple := mem_cycles_ofGrammar.1 cycle_mem
    refine ⟨mem_cycles_ofGrammar.2 (simple.set_parallel known leads beside), ?_⟩
    intro same
    have replaced : (cycle.set i (source, parallel))[i]? = some (source, parallel) := by
      rw [List.getElem?_set_self (List.getElem?_eq_some_iff.1 known).1]
    rw [same, known] at replaced
    exact different (Prod.mk.inj (Option.some.inj replaced)).2.symm

end OfGrammar

end VisiblyPushdown.DependencyGraph
