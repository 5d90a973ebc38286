import VisiblyPushdown.Proofs.Refresh
import VisiblyPushdown.Proofs.SimpleCycle

/-!
# Recursion through closed walks

A recursion of a grammar may follow any closed walk of its dependency graph, and visit vertices and
edges as often as it likes. Only simple cycles are judged, and that is enough: every step of a
closed walk lies on a simple cycle made of steps of that walk.

So when every simple cycle is valid and no edge of a closed walk is bracketed, each edge of the walk
lies on a valid cycle without a bracketed edge. All edges of such a cycle are in tail position, and
something before one of them is productive; hence the same holds of the walk.
-/

namespace VisiblyPushdown

namespace DependencyGraph

variable {graph : DependencyGraph}

/-- A walk that leaves some vertex twice comes apart at two visits of such a vertex. -/
theorem exists_split_of_not_nodup {walk : Cycle} (repeats : ¬walk.vertices.Nodup) :
    ∃ earlier vertex number middle again later,
      walk = earlier ++ ((vertex, number) :: middle ++ (vertex, again) :: later) := by
  induction walk with
  | nil => simp [Cycle.vertices] at repeats
  | cons step walk ih =>
      rcases step with ⟨vertex, number⟩
      by_cases visited : vertex ∈ Cycle.vertices walk
      · obtain ⟨⟨other, again⟩, step_mem, same⟩ := List.mem_map.1 visited
        obtain rfl : other = vertex := same
        obtain ⟨middle, later, rfl⟩ := List.append_of_mem step_mem
        exact ⟨[], other, number, middle, again, later, rfl⟩
      · have later_repeats : ¬(Cycle.vertices walk).Nodup := fun nodup =>
          repeats (List.nodup_cons.2 ⟨visited, nodup⟩)
        obtain ⟨earlier, other, label, middle, again, later, rfl⟩ := ih later_repeats
        exact ⟨(vertex, number) :: earlier, other, label, middle, again, later, rfl⟩

/-- A closed walk that leaves some vertex twice consists of two shorter closed walks. -/
theorem IsClosedWalk.exists_parts {walk : Cycle} (closed : graph.IsClosedWalk walk)
    (repeats : ¬walk.vertices.Nodup) :
    ∃ inner outer : Cycle, graph.IsClosedWalk inner ∧ graph.IsClosedWalk outer ∧
      inner.length < walk.length ∧ outer.length < walk.length ∧
        ∀ step, step ∈ walk ↔ step ∈ inner ∨ step ∈ outer := by
  obtain ⟨earlier, vertex, number, middle, again, later, rfl⟩ := exists_split_of_not_nodup repeats
  obtain ⟨_, root, path⟩ := closed
  obtain ⟨_, before, path⟩ := walk_append_iff.1 path
  obtain ⟨_, around, after⟩ := walk_append_iff.1 path
  obtain ⟨rfl, _⟩ := walk_cons_iff.1 around
  obtain ⟨rfl, _⟩ := walk_cons_iff.1 after
  refine ⟨_, earlier ++ _, ⟨by simp, _, around⟩,
    ⟨by simp, root, walk_append_iff.2 ⟨_, before, after⟩⟩, ?_, ?_, ?_⟩
  · simp only [List.length_append, List.length_cons]
    omega
  · simp only [List.length_append, List.length_cons]
    omega
  · intro step
    simp only [List.mem_append]
    tauto

/-- Every step of a closed walk lies on a simple cycle that takes only steps of the walk. -/
theorem IsClosedWalk.exists_isSimpleCycle {walk : Cycle} (closed : graph.IsClosedWalk walk)
    {step : Symbol × Nat} (step_mem : step ∈ walk) :
    ∃ cycle, graph.IsSimpleCycle cycle ∧ step ∈ cycle ∧ cycle ⊆ walk := by
  induction length_eq : walk.length using Nat.strong_induction_on generalizing walk with
  | _ length ih =>
      by_cases nodup : walk.vertices.Nodup
      · exact ⟨walk, ⟨closed, nodup⟩, step_mem, List.Subset.refl walk⟩
      -- A repeated vertex cuts the walk into two shorter closed walks, and the step lies on one.
      · obtain ⟨inner, outer, inner_closed, outer_closed, inner_shorter, outer_shorter,
          steps_iff⟩ := closed.exists_parts nodup
        rcases (steps_iff step).1 step_mem with step_inner | step_outer
        · obtain ⟨cycle, simple, step_cycle, subset⟩ :=
            ih _ (length_eq ▸ inner_shorter) inner_closed step_inner rfl
          exact ⟨cycle, simple, step_cycle, fun other other_mem =>
            (steps_iff other).2 (.inl (subset other_mem))⟩
        · obtain ⟨cycle, simple, step_cycle, subset⟩ :=
            ih _ (length_eq ▸ outer_shorter) outer_closed step_outer rfl
          exact ⟨cycle, simple, step_cycle, fun other other_mem =>
            (steps_iff other).2 (.inr (subset other_mem))⟩

theorem mem_edgesAt {walk : Cycle} {edge : Edge} :
    edge ∈ graph.edgesAt walk.edges ↔ ∃ step ∈ walk, graph.edges[step.2]? = some edge := by
  simp [edgesAt, Cycle.edges]

/-- When every simple cycle is valid, so is every closed walk. -/
theorem isValid_of_isSimpleCycle {grammar : Grammar}
    (valid : ∀ cycle, graph.IsSimpleCycle cycle → graph.isValid grammar cycle) {walk : Cycle}
    (closed : graph.IsClosedWalk walk) : graph.isValid grammar walk := by
  simp only [isValid, Grammar.isValidCycle, Grammar.isDisciplined, Bool.or_eq_true,
    Bool.and_eq_true, List.any_eq_true, List.all_eq_true] at valid ⊢
  by_cases bracketed : ∃ edge ∈ graph.edgesAt walk.edges, grammar.isBracketed edge
  · exact .inl bracketed
  · right
    have around (step : Symbol × Nat) (step_mem : step ∈ walk) :
        ∃ cycle : Cycle, step ∈ cycle ∧ cycle ⊆ walk ∧
          (∀ edge ∈ graph.edgesAt cycle.edges, edge.after.isEmpty) ∧
            ∃ edge ∈ graph.edgesAt cycle.edges, ∃ symbol ∈ edge.before,
              symbol.isTerminal ∨ grammar.canDeriveNonempty symbol := by
      obtain ⟨cycle, simple, step_cycle, subset⟩ := closed.exists_isSimpleCycle step_mem
      rcases valid cycle simple with ⟨edge, edge_mem, edge_bracketed⟩ | tail
      · obtain ⟨other, other_mem, known⟩ := mem_edgesAt.1 edge_mem
        have edge_walk := mem_edgesAt.2 ⟨other, subset other_mem, known⟩
        exact absurd ⟨edge, edge_walk, edge_bracketed⟩ bracketed
      · exact ⟨cycle, step_cycle, subset, tail⟩
    constructor
    · intro edge edge_mem
      obtain ⟨step, step_mem, known⟩ := mem_edgesAt.1 edge_mem
      obtain ⟨cycle, step_cycle, _, tail, _⟩ := around step step_mem
      exact tail edge (mem_edgesAt.2 ⟨step, step_cycle, known⟩)
    · obtain ⟨step, step_mem⟩ := List.exists_mem_of_ne_nil walk closed.1
      obtain ⟨cycle, _, subset, _, edge, edge_mem, productive⟩ := around step step_mem
      obtain ⟨other, other_mem, known⟩ := mem_edgesAt.1 edge_mem
      exact ⟨edge, mem_edgesAt.2 ⟨other, subset other_mem, known⟩, productive⟩

/-- Judging the listed cycles judges every closed walk. -/
theorem all_judgedCycles_iff {grammar : Grammar} :
    ((ofGrammar grammar).judgedCycles grammar).all Prod.snd ↔
      ∀ walk, (ofGrammar grammar).IsClosedWalk walk → (ofGrammar grammar).isValid grammar walk := by
  simp only [judgedCycles_eq, List.all_map, List.all_eq_true, Function.comp_apply,
    mem_cycles_ofGrammar]
  constructor
  · exact fun valid walk closed => isValid_of_isSimpleCycle valid closed
  · exact fun valid cycle simple => valid cycle simple.1

end DependencyGraph

namespace Settings

/--
An analysis ends without a judgement exactly when more nonterminals are reachable in the rewritten
grammar than the settings allow. Otherwise the grammar is found to be visibly pushdown exactly when
every closed walk through its dependency graph, of whatever length, is valid.
-/
theorem verdict_analyze (settings : Settings) (grammar : Grammar) :
    let analysis := settings.analyze grammar
    let final := analysis.grammar
    let graph := DependencyGraph.ofGrammar final
    let size := {symbol | final.Reaches final.start symbol}.encard
    (analysis.verdict = .tooLarge ↔ settings.maxNonterminals < size) ∧
      (analysis.verdict = .visiblyPushdown ↔ size ≤ settings.maxNonterminals ∧
        ∀ walk : Cycle, graph.IsClosedWalk walk →
          final.isValidCycle (graph.edgesAt walk.edges)) ∧
      (analysis.verdict = .notVisiblyPushdown ↔ size ≤ settings.maxNonterminals ∧
        ∃ walk : Cycle, graph.IsClosedWalk walk ∧
          ¬final.isValidCycle (graph.edgesAt walk.edges)) := by
  intro analysis final graph size
  have refreshed : final.IsRefreshed := settings.isRefreshed_tag grammar
  have size_eq : size = final.nonterminals.length := by
    rw [refreshed.nonterminals_eq]
    exact final.encard_reaches_start
  have verdict_eq : analysis.verdict =
      if settings.maxNonterminals < final.nonterminals.length then .tooLarge
      else if (graph.judgedCycles final).all Prod.snd then .visiblyPushdown
      else .notVisiblyPushdown := by
    change (settings.judge final).1 = _
    unfold judge
    split
    · rfl
    · dsimp only
      rw [List.all_map]
      rfl
  have judged : (graph.judgedCycles final).all Prod.snd ↔
      ∀ walk : Cycle, graph.IsClosedWalk walk → final.isValidCycle (graph.edgesAt walk.edges) :=
    DependencyGraph.all_judgedCycles_iff
  have large : settings.maxNonterminals < size ↔
      settings.maxNonterminals < final.nonterminals.length := by
    rw [size_eq, Nat.cast_lt]
  have refuted : (∃ walk : Cycle, graph.IsClosedWalk walk ∧
      ¬final.isValidCycle (graph.edgesAt walk.edges)) ↔
        ¬(graph.judgedCycles final).all Prod.snd := by
    rw [judged]
    simp
  rw [refuted, ← judged, ← not_lt, large, verdict_eq]
  split
  · next tooLarge => simp [tooLarge]
  · next small => cases (graph.judgedCycles final).all Prod.snd <;> simp [small]

end Settings

end VisiblyPushdown
