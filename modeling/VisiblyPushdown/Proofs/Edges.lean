import VisiblyPushdown.Graph.Basic

/-!
# Edges of an alternative

Every place of an alternative at which a nonterminal stands gives one edge, and the edges come in
the order of the places. `ofAlternative_eq` says so with `at?`, which cuts an alternative at a
place, and `at?_eq_some_iff` says that the parts around the edge's target make up the alternative.
-/

namespace VisiblyPushdown

namespace Edge

variable {source : Symbol} {symbols : List Symbol} {position : Nat} {edge : Edge}

/-- The edge for the symbol at a position of an alternative of `source`, if it is a nonterminal. -/
def at? (source : Symbol) (symbols : List Symbol) (position : Nat) : Option Edge :=
  match symbols.drop position with
  | [] => none
  | target :: after =>
    if target.isNonterminal then some { source, target, before := symbols.take position, after }
    else none

theorem at?_eq_some_iff :
    at? source symbols position = some edge ↔
      edge.source = source ∧ edge.target.isNonterminal ∧ edge.before.length = position ∧
        edge.before ++ edge.target :: edge.after = symbols := by
  constructor
  · intro found
    unfold at? at found
    split at found
    · cases found
    · next target after split_eq =>
        split at found
        · next nonterminal =>
            cases found
            have inside : position < symbols.length := by
              apply Nat.lt_of_not_le
              intro beyond
              rw [List.drop_eq_nil_of_le beyond] at split_eq
              cases split_eq
            refine ⟨rfl, nonterminal, List.length_take_of_le (Nat.le_of_lt inside), ?_⟩
            rw [← split_eq, List.take_append_drop]
        · cases found
  · rcases edge with ⟨_, target, before, after⟩
    rintro ⟨rfl, nonterminal, rfl, rfl⟩
    simp [at?, nonterminal]

/-- The symbols that were passed only shift the positions. -/
theorem ofSymbols_eq (source : Symbol) (passed symbols : List Symbol) :
    ofSymbols source passed symbols =
      (List.range symbols.length).filterMap fun position =>
        at? source (passed.reverse ++ symbols) (passed.length + position) := by
  induction symbols generalizing passed with
  | nil => rfl
  | cons symbol rest ih =>
      have later : ofSymbols source (symbol :: passed) rest =
          (List.range rest.length).filterMap fun position =>
            at? source (passed.reverse ++ symbol :: rest) (passed.length + (position + 1)) := by
        simp [ih, Nat.add_assoc, Nat.add_comm 1]
      have first : at? source (passed.reverse ++ symbol :: rest) (passed.length + 0) =
          if symbol.isNonterminal then
            some { source, target := symbol, before := passed.reverse, after := rest }
          else none := by
        simp [at?]
      rw [ofSymbols, List.length_cons, List.range_succ_eq_map, List.filterMap_cons, first,
        List.filterMap_map, later]
      split <;> rfl

/-- The edges of an alternative are those at its places, in order. -/
theorem ofAlternative_eq (source : Symbol) :
    ofAlternative source = fun alternative =>
      (List.range alternative.length).filterMap
        (at? source (alternative.map Occurrence.symbol)) := by
  funext alternative
  simp [ofAlternative, ofSymbols_eq]

theorem mem_ofAlternative {alternative : Alternative} :
    edge ∈ ofAlternative source alternative ↔
      alternative.map Occurrence.symbol = edge.before ++ edge.target :: edge.after ∧
        edge.target.isNonterminal ∧ edge.source = source := by
  simp only [ofAlternative_eq, List.mem_filterMap, List.mem_range, at?_eq_some_iff]
  constructor
  · rintro ⟨_, _, source_eq, nonterminal, _, split_eq⟩
    exact ⟨split_eq.symm, nonterminal, source_eq⟩
  · rintro ⟨split_eq, nonterminal, source_eq⟩
    refine ⟨_, ?_, source_eq, nonterminal, rfl, split_eq.symm⟩
    rw [← List.length_map (f := Occurrence.symbol), split_eq]
    simp

theorem map_target_ofSymbols (source : Symbol) (passed symbols : List Symbol) :
    (ofSymbols source passed symbols).map target = symbols.filter Symbol.isNonterminal := by
  induction symbols generalizing passed with
  | nil => rfl
  | cons symbol rest ih =>
      rw [ofSymbols]
      cases nonterminal : symbol.isNonterminal <;> simp [nonterminal, ih]

end Edge

namespace Grammar

theorem mem_edgesFrom {grammar : Grammar} {source : Symbol} {edge : Edge} :
    edge ∈ grammar.edgesFrom source ↔
      edge.source = source ∧ edge.target.isNonterminal ∧
        edge.before ++ edge.target :: edge.after ∈
          (grammar.alternatives source).map (·.map Occurrence.symbol) := by
  simp only [edgesFrom, List.mem_flatMap, Edge.mem_ofAlternative, List.mem_map]
  constructor
  · rintro ⟨alternative, alternative_mem, split, nonterminal, source_eq⟩
    exact ⟨source_eq, nonterminal, alternative, alternative_mem, split⟩
  · rintro ⟨source_eq, nonterminal, alternative, alternative_mem, split⟩
    exact ⟨alternative, alternative_mem, split, nonterminal, source_eq⟩

/-- The targets of the edges that leave a nonterminal are its successors, one edge for each. -/
theorem map_target_edgesFrom (grammar : Grammar) (source : Symbol) :
    (grammar.edgesFrom source).map Edge.target = grammar.successors source := by
  rw [edgesFrom, List.map_flatMap, successors]
  congr 1
  funext alternative
  exact Edge.map_target_ofSymbols source [] _

end Grammar

end VisiblyPushdown
