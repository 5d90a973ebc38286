import VisiblyPushdown.Graph.Basic

/-!
# Dead ends

A vertex is a dead end when all its steps lead to dead ends, as is the case for a vertex without
steps. No walk through a dead end is ever closed, so a search for cycles may leave dead ends aside.
`retired_deadEnds` says that dead ends can be listed so that each one steps only to those behind it.
-/

namespace VisiblyPushdown.DependencyGraph

/-- Whether each vertex of a list steps only to vertices further back, and none is listed twice. -/
inductive Retired (steps : Symbol → List (Nat × Symbol)) : List Symbol → Prop where
  | nil : Retired steps []
  | cons {vertex : Symbol} {earlier : List Symbol} (retired : Retired steps earlier)
      (new : vertex ∉ earlier) (closed : ∀ step ∈ steps vertex, step.2 ∈ earlier) :
      Retired steps (vertex :: earlier)

/-- Adds a vertex to the known dead ends if all its steps lead to them. -/
def retire (steps : Symbol → List (Nat × Symbol)) (vertex : Symbol) (known : SymbolSet) :
    SymbolSet :=
  if (steps vertex).all (known.contains ·.2) then known.insert vertex else known

/--
Dead ends among the vertices, found in at most `rounds` passes from the last vertex to the first.
The passes end when one of them finds no more.
-/
def deadEndsFrom (steps : Symbol → List (Nat × Symbol)) (vertices : List Symbol) :
    (rounds : Nat) → (known : SymbolSet) → SymbolSet
  | 0, known => known
  | rounds + 1, known =>
    let next := vertices.foldr (retire steps) known
    if next.newestFirst.length = known.newestFirst.length then known
    else deadEndsFrom steps vertices rounds next

/-- The dead ends among the vertices. -/
def deadEnds (steps : Symbol → List (Nat × Symbol)) (vertices : List Symbol) : SymbolSet :=
  deadEndsFrom steps vertices vertices.length .empty

theorem retired_retire {steps : Symbol → List (Nat × Symbol)} {known : SymbolSet}
    (retired : Retired steps known.newestFirst) (vertex : Symbol) :
    Retired steps (retire steps vertex known).newestFirst := by
  unfold retire
  split
  · next closed =>
    unfold OrderedSet.insert
    split
    · exact retired
    · next new =>
      refine .cons retired (mt (known.mem_tree vertex).2 new) fun step step_mem => ?_
      exact (known.mem_tree step.2).1 (List.all_eq_true.1 closed step step_mem)
  · exact retired

theorem retired_foldr_retire {steps : Symbol → List (Nat × Symbol)} {known : SymbolSet}
    (retired : Retired steps known.newestFirst) (vertices : List Symbol) :
    Retired steps (vertices.foldr (retire steps) known).newestFirst := by
  induction vertices with
  | nil => exact retired
  | cons vertex vertices ih => exact retired_retire ih vertex

theorem retired_deadEndsFrom {steps : Symbol → List (Nat × Symbol)} (vertices : List Symbol)
    (rounds : Nat) {known : SymbolSet} (retired : Retired steps known.newestFirst) :
    Retired steps (deadEndsFrom steps vertices rounds known).newestFirst := by
  induction rounds generalizing known with
  | zero => exact retired
  | succ rounds ih =>
    unfold deadEndsFrom
    dsimp only
    split
    · exact retired
    · exact ih (retired_foldr_retire retired vertices)

theorem retired_deadEnds (steps : Symbol → List (Nat × Symbol)) (vertices : List Symbol) :
    Retired steps (deadEnds steps vertices).newestFirst :=
  retired_deadEndsFrom vertices vertices.length .nil

end VisiblyPushdown.DependencyGraph
