import VisiblyPushdown.Graph.DeadEnd
import VisiblyPushdown.LookupTable

/-!
# Simple cycles

A cycle is a closed walk that repeats no vertex, read from one of its vertices. Cycles are found by
walking depth first from every vertex: a step back to a vertex of the walk closes a cycle, a step to
any other vertex lengthens the walk. A vertex that the walk has left may be entered again, so every
simple cycle is found, from each of its vertices. The search keeps away from dead ends, and
`cycles_eq` says that it loses nothing by that.
-/

namespace VisiblyPushdown

/--
A cycle as the sequence of its steps: a vertex and the number of the edge that leads from it to the
vertex of the next step, and from the last vertex to the first.
-/
abbrev Cycle := List (Symbol × Nat)

namespace Cycle

/-- The vertices of a cycle, its root first. -/
def vertices (cycle : Cycle) : List Symbol :=
  cycle.map Prod.fst

/-- The numbers of the edges of a cycle. -/
def edges (cycle : Cycle) : List Nat :=
  cycle.map Prod.snd

/-- Orders steps by their vertices, and steps from the same vertex by their edges. -/
def stepOrder : Symbol × Nat → Symbol × Nat → Ordering :=
  compareLex (compareOn Prod.fst) (compareOn Prod.snd)

instance : Std.TransCmp stepOrder :=
  inferInstanceAs (Std.TransCmp (compareLex (compareOn Prod.fst) (compareOn Prod.snd)))

instance : Std.LawfulEqCmp stepOrder where
  eq_of_compare {left right} same := by
    rw [stepOrder, compareLex, Ordering.then_eq_eq] at same
    exact Prod.ext (Std.LawfulEqOrd.eq_of_compare same.1) (Std.LawfulEqOrd.eq_of_compare same.2)

/-- Orders cycles step by step. -/
def order : Cycle → Cycle → Ordering :=
  List.compareLex stepOrder

instance : Std.TransCmp order :=
  inferInstanceAs (Std.TransCmp (List.compareLex stepOrder))

instance : Std.LawfulEqCmp order :=
  inferInstanceAs (Std.LawfulEqCmp (List.compareLex stepOrder))

end Cycle

namespace DependencyGraph

/--
The part of a walk from its visit of `vertex` on, if it has one. A walk is a list of vertices, each
with the edge by which it was left, and is given with the last step first.
-/
def walkFrom? (vertex : Symbol) : List (Symbol × Nat) → Option Cycle
  | [] => none
  | step :: earlier =>
    if step.1 = vertex then some [step] else (walkFrom? vertex earlier).map (· ++ [step])

/-- The cycles closed by continuing a walk at `vertex` through at most `length` vertices. -/
def closedWalks (steps : Symbol → List (Nat × Symbol)) :
    (length : Nat) → (walk : List (Symbol × Nat)) → (vertex : Symbol) → List Cycle
  | 0, _, _ => []
  | length + 1, walk, vertex =>
    (steps vertex).flatMap fun step =>
      match walkFrom? step.2 ((vertex, step.1) :: walk) with
      | some cycle => [cycle]
      | none => closedWalks steps length ((vertex, step.1) :: walk) step.2

/-- The steps that avoid the given vertices. -/
def stepsAvoiding (avoided : SymbolSet) (steps : Symbol → List (Nat × Symbol))
    (vertex : Symbol) : List (Nat × Symbol) :=
  (steps vertex).filter fun step => !avoided.contains step.2

/-- A table of the steps from every vertex. -/
def stepTable (graph : DependencyGraph) (steps : Symbol → List (Nat × Symbol)) :
    Std.TreeMap Symbol (List (Nat × Symbol)) :=
  LookupTable.ofFunction compare graph.vertexList steps

/-- Every simple cycle of the graph, from each of its vertices, in the order of first discovery. -/
def cycles (graph : DependencyGraph) : List Cycle :=
  let table := graph.stepTable graph.steps
  let dead := deadEnds (table.getD · []) graph.vertexList
  let table := graph.stepTable (stepsAvoiding dead graph.steps)
  OrderedSet.toList <| OrderedSet.ofList Cycle.order <|
    (graph.vertexList.filter (!dead.contains ·)).flatMap
      (closedWalks (table.getD · []) graph.vertices.length [])

theorem walkFrom?_eq_none {vertex : Symbol} {walk : List (Symbol × Nat)}
    (new : ∀ step ∈ walk, step.1 ≠ vertex) : walkFrom? vertex walk = none := by
  induction walk with
  | nil => rfl
  | cons step earlier ih =>
    rw [List.forall_mem_cons] at new
    simp [walkFrom?, new.1, ih new.2]

/-- A walk that steps into a dead end is never closed. -/
theorem closedWalks_eq_nil {steps : Symbol → List (Nat × Symbol)} {dead : List Symbol}
    (retired : Retired steps dead) (length : Nat) {walk : List (Symbol × Nat)}
    (apart : ∀ step ∈ walk, step.1 ∉ dead) {vertex : Symbol} (vertex_dead : vertex ∈ dead) :
    closedWalks steps length walk vertex = [] := by
  induction retired generalizing length walk vertex with
  | nil => simp at vertex_dead
  | @cons head earlier _ new closed ih =>
    have apart_earlier : ∀ step ∈ walk, step.1 ∉ earlier := fun step step_mem =>
      mt (List.mem_cons_of_mem head) (apart step step_mem)
    rcases List.mem_cons.1 vertex_dead with rfl | vertex_mem
    · cases length with
      | zero => rfl
      | succ length =>
        rw [closedWalks, List.flatMap_eq_nil_iff]
        rintro ⟨edge, target⟩ step_mem
        have target_mem : target ∈ earlier := closed _ step_mem
        have apart_next : ∀ step ∈ (vertex, edge) :: walk, step.1 ∉ earlier := by
          simpa [new] using apart_earlier
        have open_walk : walkFrom? target ((vertex, edge) :: walk) = none :=
          walkFrom?_eq_none fun step step_walk same =>
            apart_next step step_walk (same ▸ target_mem)
        simp only [open_walk]
        exact ih length apart_next target_mem
    · exact ih length apart_earlier vertex_mem

/-- Away from dead ends, leaving out the steps into them loses no closed walk. -/
theorem closedWalks_stepsAvoiding {steps : Symbol → List (Nat × Symbol)} {dead : SymbolSet}
    (retired : Retired steps dead.newestFirst) (length : Nat) {walk : List (Symbol × Nat)}
    (apart : ∀ step ∈ walk, step.1 ∉ dead.newestFirst) {vertex : Symbol}
    (alive : vertex ∉ dead.newestFirst) :
    closedWalks (stepsAvoiding dead steps) length walk vertex =
      closedWalks steps length walk vertex := by
  induction length generalizing walk vertex with
  | zero => rfl
  | succ length ih =>
    rw [closedWalks, closedWalks, stepsAvoiding]
    induction steps vertex with
    | nil => rfl
    | cons step others rest =>
      rcases step with ⟨edge, target⟩
      have apart_next : ∀ step ∈ (vertex, edge) :: walk, step.1 ∉ dead.newestFirst := by
        simpa [alive] using apart
      rw [List.filter_cons, List.flatMap_cons]
      split
      · next target_alive =>
        rw [Bool.not_eq_true', ← Bool.not_eq_true, OrderedSet.contains, dead.mem_tree]
          at target_alive
        rw [List.flatMap_cons, rest]
        simp only [ih apart_next target_alive]
      · next target_dead =>
        rw [Bool.not_eq_true, Bool.not_eq_false', OrderedSet.contains, dead.mem_tree]
          at target_dead
        have open_walk : walkFrom? target ((vertex, edge) :: walk) = none :=
          walkFrom?_eq_none fun step step_walk same =>
            apart_next step step_walk (same ▸ target_dead)
        simp [open_walk, rest, closedWalks_eq_nil retired length apart_next target_dead]

theorem getD_stepTable (graph : DependencyGraph) {steps : Symbol → List (Nat × Symbol)}
    (unknown : ∀ vertex ∉ graph.vertexList, steps vertex = []) (vertex : Symbol) :
    (graph.stepTable steps).getD vertex [] = steps vertex := by
  rw [Std.TreeMap.getD_eq_getD_getElem?, stepTable, LookupTable.getElem?_ofFunction]
  split
  · rfl
  · next absent => simp [unknown vertex absent]

theorem cycles_eq (graph : DependencyGraph) :
    graph.cycles = InsertionOrder.distinct
      (graph.vertexList.flatMap (closedWalks graph.steps graph.vertices.length [])) := by
  have plain (vertex : Symbol) :
      (graph.stepTable graph.steps).getD vertex [] = graph.steps vertex :=
    graph.getD_stepTable (fun _ => steps_eq_nil) vertex
  simp only [cycles, OrderedSet.toList_ofList, plain]
  generalize found : deadEnds graph.steps graph.vertexList = dead
  have retired : Retired graph.steps dead.newestFirst := found ▸ retired_deadEnds _ _
  have avoiding (vertex : Symbol) :
      (graph.stepTable (stepsAvoiding dead graph.steps)).getD vertex [] =
        stepsAvoiding dead graph.steps vertex :=
    graph.getD_stepTable (fun _ unknown => by simp [stepsAvoiding, steps_eq_nil unknown]) vertex
  simp only [avoiding]
  congr 1
  induction graph.vertexList with
  | nil => rfl
  | cons vertex vertices ih =>
    rw [List.filter_cons, List.flatMap_cons]
    split
    · next alive =>
      rw [Bool.not_eq_true', ← Bool.not_eq_true, OrderedSet.contains, dead.mem_tree] at alive
      rw [List.flatMap_cons, ih, closedWalks_stepsAvoiding retired _ (by simp) alive]
    · next vertex_dead =>
      rw [Bool.not_eq_true, Bool.not_eq_false', OrderedSet.contains, dead.mem_tree] at vertex_dead
      rw [ih, closedWalks_eq_nil retired _ (by simp) vertex_dead, List.nil_append]

end DependencyGraph

end VisiblyPushdown
