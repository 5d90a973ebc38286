import VisiblyPushdown.Proofs.Recursion

/-!
# Recursion that keeps to the discipline

Whether every closed walk of a dependency graph is valid can be said without numbered edges. A loose
edge is one that is not bracketed, and an idle edge is a loose edge with nothing productive in front
of its target. Every closed walk is valid exactly when a loose edge that leads back to its own
source through loose edges is in tail position, and when no idle edges form a cycle.

A grammar of this kind ranks its symbols: loose edges never lead upwards, and those that are not in
tail position lead strictly downwards.
-/

namespace VisiblyPushdown

open Relation

namespace Grammar

variable {grammar : Grammar}

/-- Whether an edge of the dependency graph is not bracketed. -/
structure IsLoose (grammar : Grammar) (edge : Edge) : Prop where
  reached : grammar.Reaches grammar.start edge.source
  leaving : edge ∈ grammar.edgesFrom edge.source
  not_bracketed : ¬grammar.isBracketed edge

/-- Whether a loose edge has nothing in front of its target that can produce a terminal. -/
structure IsIdle (grammar : Grammar) (edge : Edge) : Prop extends grammar.IsLoose edge where
  unproductive : ∀ symbol ∈ edge.before,
    ¬(symbol.isTerminal ∨ grammar.canDeriveNonempty symbol)

/-- One step of a recursion, along an edge of the given kind. -/
def Steps (kind : Edge → Prop) (source target : Symbol) : Prop :=
  ∃ edge, kind edge ∧ edge.source = source ∧ edge.target = target

/-- Whether every recursion of the grammar respects the call/return discipline. -/
structure RecursesVisibly (grammar : Grammar) : Prop where
  tail : ∀ edge, grammar.IsLoose edge →
    ReflTransGen (Steps grammar.IsLoose) edge.target edge.source → edge.after = []
  productive : ∀ symbol, ¬TransGen (Steps grammar.IsIdle) symbol symbol

theorem isBracketed_iff {edge : Edge} :
    grammar.isBracketed edge ↔ ∃ call ∈ grammar.calls, ∃ ret ∈ grammar.returns,
      edge.before.getLast? = some call ∧ edge.after.getLast? = some ret := by
  unfold isBracketed
  split
  · next before_last after_last => simp [before_last, after_last]
  · next missing =>
      simp only [Bool.false_eq_true, false_iff]
      rintro ⟨call, _, ret, _, before_last, after_last⟩
      exact missing call ret before_last after_last

theorem IsLoose.steps {edge : Edge} (loose : grammar.IsLoose edge) :
    Steps grammar.IsLoose edge.source edge.target :=
  ⟨edge, loose, rfl, rfl⟩

theorem IsIdle.steps {edge : Edge} (idle : grammar.IsIdle edge) :
    Steps grammar.IsIdle edge.source edge.target :=
  ⟨edge, idle, rfl, rfl⟩

theorem steps_isLoose_of_isIdle {source target : Symbol}
    (step : Steps grammar.IsIdle source target) : Steps grammar.IsLoose source target := by
  rcases step with ⟨edge, idle, source_eq, target_eq⟩
  exact ⟨edge, idle.toIsLoose, source_eq, target_eq⟩

theorem mentions_of_steps {source target : Symbol} (step : Steps grammar.IsLoose source target) :
    grammar.Mentions source target := by
  rcases step with ⟨edge, loose, rfl, rfl⟩
  exact mentions_iff_exists_edge.2 ⟨edge, loose.leaving, rfl⟩

theorem mentions_of_mem_before {edge : Edge} {source symbol : Symbol}
    (leaving : edge ∈ grammar.edgesFrom source) (mem : symbol ∈ edge.before)
    (nonterminal : symbol.isNonterminal) : grammar.Mentions source symbol := by
  rcases mem_edgesFrom.1 leaving with ⟨_, _, context_mem⟩
  rcases List.mem_map.1 context_mem with ⟨alternative, alternative_mem, split⟩
  have symbol_mem : symbol ∈ alternative.map Occurrence.symbol := by simp [split, mem]
  rcases List.mem_map.1 symbol_mem with ⟨occurrence, occurrence_mem, symbol_eq⟩
  exact ⟨nonterminal, alternative, alternative_mem, occurrence, occurrence_mem, symbol_eq⟩

theorem IsLoose.target_reached {edge : Edge} (loose : grammar.IsLoose edge) :
    grammar.Reaches grammar.start edge.target :=
  loose.reached.tail (mentions_of_steps loose.steps)

end Grammar

namespace DependencyGraph

open Grammar (Steps)

variable {graph : DependencyGraph} {kind : Edge → Prop} {first last : Symbol} {steps : Cycle}

theorem edgesAt_subset {other : Cycle} (subset : steps ⊆ other) :
    graph.edgesAt steps.edges ⊆ graph.edgesAt other.edges := by
  intro edge edge_mem
  rcases mem_edgesAt.1 edge_mem with ⟨step, step_mem, known⟩
  exact mem_edgesAt.2 ⟨step, subset step_mem, known⟩

theorem edgesAt_cons {number : Nat} {edge : Edge} (known : graph.edges[number]? = some edge) :
    graph.edgesAt (Cycle.edges ((first, number) :: steps)) = edge :: graph.edgesAt steps.edges := by
  simp [edgesAt, Cycle.edges, known]

theorem reflTransGen_of_walk (path : graph.Walk first steps last)
    (all : ∀ edge ∈ graph.edgesAt steps.edges, kind edge) :
    ReflTransGen (Steps kind) first last := by
  induction path with
  | nil => exact .refl
  | cons leads _ ih =>
      rcases leads with ⟨edge, known, source_eq, target_eq⟩
      rw [edgesAt_cons known, List.forall_mem_cons] at all
      exact .head ⟨edge, all.1, source_eq, target_eq⟩ (ih all.2)

theorem exists_walk_of_reflTransGen (listed : ∀ edge, kind edge → edge ∈ graph.edges)
    (path : ReflTransGen (Steps kind) first last) :
    ∃ steps, graph.Walk first steps last ∧ ∀ edge ∈ graph.edgesAt steps.edges, kind edge := by
  induction path using ReflTransGen.head_induction_on with
  | refl => exact ⟨[], .nil last, by simp [edgesAt, Cycle.edges]⟩
  | head step _ ih =>
      rcases step with ⟨edge, edge_kind, source_eq, target_eq⟩
      rcases ih with ⟨steps, path, all⟩
      rcases Array.mem_iff_getElem?.1 (listed edge edge_kind) with ⟨number, known⟩
      refine ⟨(_, number) :: steps, .cons ⟨edge, known, source_eq, target_eq⟩ path, ?_⟩
      rw [edgesAt_cons known, List.forall_mem_cons]
      exact ⟨edge_kind, all⟩

theorem exists_isClosedWalk (listed : ∀ edge, kind edge → edge ∈ graph.edges) {edge : Edge}
    (edge_kind : kind edge) (path : ReflTransGen (Steps kind) edge.target edge.source) :
    ∃ walk, graph.IsClosedWalk walk ∧ edge ∈ graph.edgesAt walk.edges ∧
      ∀ other ∈ graph.edgesAt walk.edges, kind other := by
  rcases exists_walk_of_reflTransGen listed path with ⟨steps, path, all⟩
  rcases Array.mem_iff_getElem?.1 (listed edge edge_kind) with ⟨number, known⟩
  refine ⟨(edge.source, number) :: steps, ?_, ?_⟩
  · exact ⟨List.cons_ne_nil _ _, edge.source, .cons ⟨edge, known, rfl, rfl⟩ path⟩
  · rw [edgesAt_cons known, List.forall_mem_cons]
    exact ⟨List.mem_cons_self, edge_kind, all⟩

/-- A closed walk leads from each of its edges back to the source of that edge. -/
theorem IsClosedWalk.reflTransGen {walk : Cycle} (closed : graph.IsClosedWalk walk)
    (all : ∀ edge ∈ graph.edgesAt walk.edges, kind edge) {edge : Edge}
    (edge_mem : edge ∈ graph.edgesAt walk.edges) :
    ReflTransGen (Steps kind) edge.target edge.source := by
  rcases closed with ⟨_, root, path⟩
  rcases mem_edgesAt.1 edge_mem with ⟨⟨source, number⟩, step_mem, known⟩
  rcases List.append_of_mem step_mem with ⟨earlier, later, rfl⟩
  rcases walk_append_iff.1 path with ⟨middle, before, path⟩
  rcases walk_cons_iff.1 path with ⟨rfl, next, ⟨other, other_known, source_eq, target_eq⟩, after⟩
  obtain rfl : edge = other := Option.some.inj (known.symm.trans other_known)
  subst source_eq target_eq
  apply ReflTransGen.trans (b := root)
  · apply reflTransGen_of_walk after
    intro other other_mem
    exact all other (edgesAt_subset (by simp) other_mem)
  · apply reflTransGen_of_walk before
    intro other other_mem
    exact all other (edgesAt_subset (by simp) other_mem)

end DependencyGraph

namespace Grammar

variable {grammar : Grammar}

open DependencyGraph

theorem IsLoose.mem_edges {edge : Edge} (loose : grammar.IsLoose edge) :
    edge ∈ (ofGrammar grammar).edges :=
  mem_edges_ofGrammar.2 ⟨loose.reached, loose.leaving⟩

theorem RecursesVisibly.isValid_of_isClosedWalk (visible : grammar.RecursesVisibly) {walk : Cycle}
    (closed : (ofGrammar grammar).IsClosedWalk walk) :
    (ofGrammar grammar).isValid grammar walk := by
  simp only [isValid, isValidCycle, isDisciplined, Bool.or_eq_true, Bool.and_eq_true,
    List.any_eq_true, List.all_eq_true, List.isEmpty_iff]
  by_cases bracketed : ∃ edge ∈ (ofGrammar grammar).edgesAt walk.edges, grammar.isBracketed edge
  · exact .inl bracketed
  · right
    have loose : ∀ edge ∈ (ofGrammar grammar).edgesAt walk.edges, grammar.IsLoose edge := by
      intro edge edge_mem
      rcases mem_edgesAt.1 edge_mem with ⟨step, _, known⟩
      rcases mem_edges_ofGrammar.1 (Array.mem_of_getElem? known) with ⟨reached, leaving⟩
      exact ⟨reached, leaving, fun guarded => bracketed ⟨edge, edge_mem, guarded⟩⟩
    constructor
    · intro edge edge_mem
      exact visible.tail edge (loose edge edge_mem) (closed.reflTransGen loose edge_mem)
    · by_contra unproductive
      have idle : ∀ edge ∈ (ofGrammar grammar).edgesAt walk.edges, grammar.IsIdle edge := by
        intro edge edge_mem
        refine ⟨loose edge edge_mem, fun symbol symbol_mem productive => unproductive ?_⟩
        exact ⟨edge, edge_mem, symbol, symbol_mem, productive⟩
      rcases closed with ⟨nonempty, root, path⟩
      cases path with
      | nil => exact nonempty rfl
      | @cons _ _ _ number steps leads rest =>
          rcases leads with ⟨edge, known, rfl, rfl⟩
          have edge_mem : edge ∈ (ofGrammar grammar).edgesAt
              (Cycle.edges ((edge.source, number) :: steps)) :=
            mem_edgesAt.2 ⟨_, List.mem_cons_self, known⟩
          have around := IsClosedWalk.reflTransGen ⟨nonempty, _, .cons ⟨edge, known, rfl, rfl⟩ rest⟩
            idle edge_mem
          exact visible.productive edge.source (.head' (idle edge edge_mem).steps around)

theorem recursesVisibly_iff :
    grammar.RecursesVisibly ↔ ∀ walk, (ofGrammar grammar).IsClosedWalk walk →
      (ofGrammar grammar).isValid grammar walk := by
  refine ⟨fun visible walk closed => visible.isValid_of_isClosedWalk closed, fun valid => ⟨?_, ?_⟩⟩
  · intro edge loose path
    rcases exists_isClosedWalk (fun _ => IsLoose.mem_edges) loose path with
      ⟨walk, closed, edge_mem, all⟩
    have judged := valid walk closed
    simp only [isValid, isValidCycle, isDisciplined, Bool.or_eq_true, Bool.and_eq_true,
      List.any_eq_true, List.all_eq_true, List.isEmpty_iff] at judged
    rcases judged with ⟨other, other_mem, bracketed⟩ | ⟨tail, _⟩
    · exact absurd bracketed (all other other_mem).not_bracketed
    · exact tail edge edge_mem
  · intro symbol around
    rcases TransGen.head'_iff.1 around with ⟨next, ⟨edge, idle, rfl, rfl⟩, path⟩
    rcases exists_isClosedWalk (fun _ idle => idle.toIsLoose.mem_edges) idle path with
      ⟨walk, closed, _, all⟩
    have judged := valid walk closed
    simp only [isValid, isValidCycle, isDisciplined, Bool.or_eq_true, Bool.and_eq_true,
      List.any_eq_true] at judged
    rcases judged with ⟨other, other_mem, bracketed⟩ | ⟨_, other, other_mem, before, mem, produces⟩
    · exact (all other other_mem).not_bracketed bracketed
    · exact (all other other_mem).unproductive before mem produces

/-- The symbols behind a loose edge that is not in tail position and can be reached loosely. -/
def below (grammar : Grammar) (symbol : Symbol) : Set Symbol :=
  {other | ∃ edge, grammar.IsLoose edge ∧ edge.after ≠ [] ∧
    ReflTransGen (Steps grammar.IsLoose) symbol edge.source ∧
      ReflTransGen (Steps grammar.IsLoose) edge.target other}

theorem below_subset_reachable (grammar : Grammar) (symbol : Symbol) :
    grammar.below symbol ⊆ grammar.reachable.toFinset := by
  rintro other ⟨edge, loose, _, _, path⟩
  rw [List.coe_toFinset, Set.mem_ofPred_eq, mem_reachable]
  exact loose.target_reached.trans (ReflTransGen.mono (fun _ _ => mentions_of_steps) _ _ path)

/-- Loose edges lead downwards, strictly so where something stands behind the target. -/
theorem RecursesVisibly.exists_rank (visible : grammar.RecursesVisibly) :
    ∃ (rank : Symbol → Nat) (limit : Nat), (∀ symbol, rank symbol < limit) ∧
      ∀ edge, grammar.IsLoose edge → rank edge.target ≤ rank edge.source ∧
        (edge.after ≠ [] → rank edge.target < rank edge.source) := by
  have finite (symbol : Symbol) : (grammar.below symbol).Finite :=
    (Finset.finite_toSet _).subset (grammar.below_subset_reachable symbol)
  refine ⟨fun symbol => (grammar.below symbol).ncard, grammar.reachable.toFinset.card + 1, ?_, ?_⟩
  · intro symbol
    have counted := Set.ncard_le_ncard (grammar.below_subset_reachable symbol)
      (Finset.finite_toSet _)
    rw [Set.ncard_coe_finset] at counted
    exact Nat.lt_succ_of_le counted
  · intro edge loose
    have subset : grammar.below edge.target ⊆ grammar.below edge.source := by
      rintro other ⟨later, later_loose, longer, path, rest⟩
      exact ⟨later, later_loose, longer, .head loose.steps path, rest⟩
    refine ⟨Set.ncard_le_ncard subset (finite _), fun longer => ?_⟩
    apply Set.ncard_lt_ncard _ (finite _)
    refine ⟨subset, fun superset => ?_⟩
    have target_mem : edge.target ∈ grammar.below edge.source :=
      ⟨edge, loose, longer, .refl, .refl⟩
    -- The target would lie below itself, so some edge that is not in tail position leads around.
    rcases superset target_mem with ⟨later, later_loose, later_longer, path, rest⟩
    exact later_longer (visible.tail later later_loose (rest.trans path))

end Grammar

namespace Grammar

/-- The grammar that is tagged: left recursion is removed if a reachable nonterminal has any. -/
def withoutLeftRecursion (grammar : Grammar) : Grammar :=
  if grammar.isLeftRecursive then grammar.removeLeftRecursion.1 else grammar

end Grammar

namespace Settings

theorem grammar_tag (settings : Settings) (grammar : Grammar) :
    (settings.tag grammar).grammar =
      if settings.simplify then
        (grammar.withoutLeftRecursion.tag settings.removeContradictions).toSimpleForm.1
      else grammar.withoutLeftRecursion.tag settings.removeContradictions :=
  rfl

open Classical in
/-- The verdict, in terms of the grammar that is judged. -/
theorem verdict_eq (settings : Settings) (grammar : Grammar) :
    (settings.analyze grammar).verdict =
      if settings.maxNonterminals < (settings.tag grammar).grammar.reachable.length then .tooLarge
      else if (settings.tag grammar).grammar.RecursesVisibly then .visiblyPushdown
      else .notVisiblyPushdown := by
  change (settings.judge (settings.tag grammar).grammar).1 = _
  rw [judge, (settings.isRefreshed_tag grammar).nonterminals_eq]
  split
  · rfl
  · dsimp only
    rw [List.all_map]
    apply if_congr _ rfl rfl
    exact DependencyGraph.all_judgedCycles_iff.trans Grammar.recursesVisibly_iff.symm

end Settings

end VisiblyPushdown
