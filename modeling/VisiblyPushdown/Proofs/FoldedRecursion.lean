import VisiblyPushdown.Proofs.Built
import VisiblyPushdown.Proofs.Discipline
import VisiblyPushdown.Proofs.Tagging

/-!
# Recursion in simple form

Simple form keeps a grammar visibly recursive. An edge of the folded grammar is either an edge of
the original one or leads to a nonterminal that stands for a span, and from there, through spans
inside that span, to the symbols of the original alternative. What matters about an edge does not
change on the way: the span stands directly behind a call, and the symbols at the end of the
alternative are never folded.

A recursion of the folded grammar is followed downwards in the ranks of the original one. As long as
it stays inside a span the names of the nonterminals lose bulk, so it leaves the span, and then it
has gone down in rank, because something stands behind every symbol of a span. So a loose recursion
of the folded grammar passes through no span at all.
-/

namespace VisiblyPushdown

open Relation

/-- Where an occurrence of a folded alternative, between two parts of it, comes from. -/
inductive Origin (brackets : List TerminalPair) (standsFor : Alternative → Symbol → Prop)
    (before left : Alternative) (occurrence : Occurrence) (right : Alternative) : Prop where
  | kept (earlier later : Alternative) (split : before = earlier ++ occurrence :: later)
      (earlier_last : earlier.getLast? = left.getLast?)
      (later_last : later.getLast? = right.getLast?)
      (plain : (∀ other ∈ left, ¬other.symbol.isTerminal) → earlier = left)
  | folded (earlier span later : Alternative) (opening : Occurrence)
      (split : before = earlier ++ span ++ later) (stands : standsFor span occurrence.symbol)
      (left_last : left.getLast? = some opening)
      (opens : (brackets.lookup opening.symbol).isSome) (later_nonempty : later ≠ [])
      (later_last : later.getLast? = right.getLast?)

namespace Folds

variable {brackets : List TerminalPair} {standsFor : Alternative → Symbol → Prop}
  {before after : Alternative}

theorem getLast?_eq (folds : Folds brackets standsFor before after) :
    before.getLast? = after.getLast? := by
  induction folds with
  | nil => rfl
  | keep occurrence _ ih => rw [List.getLast?_cons, List.getLast?_cons, ih]
  | fold _ _ _ ih =>
      rw [List.getLast?_cons, List.getLast?_cons, List.getLast?_cons, ← ih]
      simp [List.getLast?_append, List.getLast?_cons]

variable (terminals : ∀ call ret, brackets.lookup call = some ret →
  call.isTerminal ∧ ret.isTerminal)

include terminals

theorem eq_of_forall_not_isTerminal (folds : Folds brackets standsFor before after)
    (plain : ∀ occurrence ∈ after, ¬occurrence.symbol.isTerminal) : before = after := by
  induction folds with
  | nil => rfl
  | keep occurrence _ ih =>
      rw [List.forall_mem_cons] at plain
      rw [ih plain.2]
  | fold bracketed _ _ _ =>
      rw [List.forall_mem_cons] at plain
      exact absurd (terminals _ _ bracketed).1 plain.1

theorem origin (folds : Folds brackets standsFor before after) {left right : Alternative}
    {occurrence : Occurrence} (split : after = left ++ occurrence :: right)
    (nonterminal : occurrence.symbol.isNonterminal) :
    Origin brackets standsFor before left occurrence right := by
  rw [← Symbol.not_isTerminal, Bool.not_eq_true'] at nonterminal
  induction folds generalizing left with
  | nil => simp at split
  | @keep first before after folds ih =>
      cases left with
      | nil =>
          rcases List.cons.inj split with ⟨rfl, rfl⟩
          exact .kept [] _ rfl rfl folds.getLast?_eq fun _ => rfl
      | cons head left =>
          rcases List.cons.inj split with ⟨rfl, after_eq⟩
          cases ih after_eq with
          | kept earlier later split earlier_last later_last plain =>
              refine .kept (first :: earlier) later (by rw [split]; rfl) ?_ later_last ?_
              · rw [List.getLast?_cons, List.getLast?_cons, earlier_last]
              · intro all
                rw [plain fun other other_mem => all other (List.mem_cons_of_mem _ other_mem)]
          | folded earlier span later opening split stands left_last opens later_nonempty
              later_last =>
              refine .folded (first :: earlier) span later opening (by rw [split]; rfl) stands ?_
                opens later_nonempty later_last
              rw [List.getLast?_cons, left_last]
              rfl
  | @fold opening closing span before after target bracketed stands folds ih =>
      rcases terminals _ _ bracketed with ⟨opening_terminal, closing_terminal⟩
      have opens : (brackets.lookup opening.symbol).isSome := by rw [bracketed]; rfl
      rcases left with _ | ⟨head, _ | ⟨second, left⟩⟩
      -- A call is not a nonterminal.
      · rcases List.cons.inj split with ⟨rfl, _⟩
        rw [opening_terminal] at nonterminal
        cases nonterminal
      -- The occurrence is the nonterminal that stands for the span.
      · rcases List.cons.inj split with ⟨rfl, rest_eq⟩
        rcases List.cons.inj rest_eq with ⟨rfl, rfl⟩
        exact .folded [opening] span _ opening rfl stands rfl opens (List.cons_ne_nil _ _)
          folds.getLast?_eq
      -- The occurrence stands behind the span.
      · rcases List.cons.inj split with ⟨rfl, rest_eq⟩
        rcases List.cons.inj rest_eq with ⟨rfl, after_eq⟩
        cases ih after_eq with
        | kept earlier later split earlier_last later_last plain =>
            cases earlier with
            | nil =>
                rcases List.cons.inj split with ⟨rfl, _⟩
                rw [closing_terminal] at nonterminal
                cases nonterminal
            | cons closing earlier =>
                refine .kept (opening :: (span ++ closing :: earlier)) later
                  (by rw [split]; simp) ?_ later_last ?_
                · rw [List.getLast?_cons, List.getLast?_cons, List.getLast?_cons, ← earlier_last]
                  simp [List.getLast?_append, List.getLast?_cons]
                · intro all
                  exact absurd opening_terminal (all _ List.mem_cons_self)
        | folded earlier inner later last split stands left_last last_opens later_nonempty
            later_last =>
            refine .folded (opening :: (span ++ earlier)) inner later last (by rw [split]; simp)
              stands ?_ last_opens later_nonempty later_last
            rw [List.getLast?_cons, List.getLast?_cons, left_last]
            rfl

end Folds

namespace Grammar

/-- What simple form makes of a grammar, as far as its recursions are concerned. -/
structure FoldsTo (original source : Grammar) (brackets : List TerminalPair) (folded : Grammar) :
    Prop where
  folding : source.IsFolding brackets folded
  source_eq : ∀ symbol, original.Reaches original.start symbol →
    source.alternatives symbol = original.alternatives symbol
  start_eq : folded.start = original.start
  calls_eq : folded.calls = original.calls
  returns_eq : folded.returns = original.returns
  terminals : ∀ call ret, brackets.lookup call = some ret → call.isTerminal ∧ ret.isTerminal
  opens : ∀ call, (brackets.lookup call).isSome → call ∈ original.calls

variable {original source folded : Grammar} {brackets : List TerminalPair}

/-- Whether a nonterminal stands for a span all of whose nonterminals have a property. -/
def Encloses (source folded : Grammar) (property : Symbol → Prop) (symbol : Symbol) : Prop :=
  ∃ span, source.StandsAround folded span symbol ∧
    ∀ occurrence ∈ span, occurrence.symbol.isNonterminal → property occurrence.symbol

namespace FoldsTo

variable (foldsTo : original.FoldsTo source brackets folded)

include foldsTo

theorem exists_origin {edge : Edge} (leaving : edge ∈ folded.edgesFrom edge.source) :
    ∃ before ∈ source.alternatives edge.source, ∃ left occurrence right,
      Origin brackets (source.StandsAround folded) before left occurrence right ∧
        edge.before = left.map Occurrence.symbol ∧ edge.target = occurrence.symbol ∧
          edge.after = right.map Occurrence.symbol := by
  rcases mem_edgesFrom.1 leaving with ⟨_, nonterminal, context_mem⟩
  rcases List.mem_map.1 context_mem with ⟨after, after_mem, split⟩
  rcases (foldsTo.folding edge.source).backward after after_mem with ⟨before, before_mem, folds⟩
  rcases List.map_eq_append_iff.1 split with ⟨left, rest, rfl, left_eq, rest_eq⟩
  rcases List.map_eq_cons_iff.1 rest_eq with ⟨occurrence, right, rfl, target_eq, right_eq⟩
  refine ⟨before, before_mem, left, occurrence, right, ?_, left_eq.symm, target_eq.symm,
    right_eq.symm⟩
  exact folds.origin foldsTo.terminals rfl (target_eq ▸ nonterminal)

/-- What a folded rule mentions stands in the rule before folding or for a smaller part of it. -/
theorem exists_source_of_mentions {symbol other : Symbol}
    (mentions : folded.Mentions symbol other) :
    ∃ before ∈ source.alternatives symbol,
      (∃ occurrence ∈ before, occurrence.symbol = other) ∨
        ∃ span, source.StandsAround folded span other ∧ span ⊆ before ∧
          span.weight < before.weight := by
  rcases mentions_iff_exists_edge.1 mentions with ⟨edge, leaving, rfl⟩
  rcases mem_edgesFrom.1 leaving with ⟨rfl, _⟩
  rcases foldsTo.exists_origin leaving with ⟨before, before_mem, left, occurrence, right, origin,
    _, target_eq, _⟩
  refine ⟨before, before_mem, ?_⟩
  rw [target_eq]
  cases origin with
  | kept _ _ split => exact .inl ⟨occurrence, by simp [split], rfl⟩
  | folded earlier span later _ split stands _ _ later_nonempty =>
      refine .inr ⟨span, stands, by simp [split], ?_⟩
      rcases List.exists_cons_of_ne_nil later_nonempty with ⟨closing, rest, rfl⟩
      simp only [split, Alternative.weight_append, Alternative.weight_cons]
      omega

/-- From a nonterminal that stands for a span one comes to its symbols or deeper into the span. -/
theorem encloses_of_mentions {property : Symbol → Prop} {symbol other : Symbol}
    (encloses : Encloses source folded property symbol) (mentions : folded.Mentions symbol other) :
    property other ∨
      (Encloses source folded property other ∧ bulk other.name < bulk symbol.name) := by
  rcases encloses with ⟨span, stands, all⟩
  have bulk_symbol := stands.bulk_name
  rcases stands with target | target
  · rcases foldsTo.exists_source_of_mentions mentions with ⟨before, before_mem, cases⟩
    rw [target.alternatives_eq, List.mem_singleton] at before_mem
    subst before_mem
    rcases cases with ⟨occurrence, occurrence_mem, rfl⟩ | ⟨inner, stands, subset, lighter⟩
    · exact .inl (all occurrence occurrence_mem mentions.1)
    · have bulk_other := stands.bulk_name
      refine .inr ⟨⟨inner, stands, fun occurrence occurrence_mem => ?_⟩, by omega⟩
      exact all occurrence (subset occurrence_mem)
  · rcases mentions with ⟨nonterminal, alternative, mem, occurrence, occurrence_mem, rfl⟩
    rw [target.alternatives_eq, List.mem_singleton] at mem
    subst mem
    exact .inl (all occurrence occurrence_mem nonterminal)

/-- A recursion that comes by a nonterminal that stands for a span leaves the span. -/
theorem exists_outside {property : Symbol → Prop} {step : Symbol → Symbol → Prop}
    (mentions : ∀ symbol other, step symbol other → folded.Mentions symbol other) {symbol : Symbol}
    (encloses : Encloses source folded property symbol) (around : TransGen step symbol symbol) :
    ∃ other, property other ∧ ReflTransGen step symbol other ∧ ReflTransGen step other symbol := by
  induction size : bulk symbol.name using Nat.strong_induction_on generalizing symbol with
  | h bulk_value ih =>
      rcases TransGen.head'_iff.1 around with ⟨next, first, path⟩
      rcases foldsTo.encloses_of_mentions encloses (mentions _ _ first) with
        outside | ⟨deeper, smaller⟩
      · exact ⟨next, outside, .single first, path⟩
      · rcases ih _ (size ▸ smaller) deeper (.tail' path first) rfl with
          ⟨other, outside, there, back⟩
        exact ⟨other, outside, .head first there, back.trans path⟩

/-- What the folded grammar reaches is reached before folding, or stands for a span of that. -/
theorem reaches_or_encloses {symbol : Symbol} (reached : folded.Reaches folded.start symbol) :
    original.Reaches original.start symbol ∨
      Encloses source folded (original.Reaches original.start) symbol := by
  induction reached with
  | refl => exact .inl (foldsTo.start_eq ▸ .refl)
  | tail _ mentions ih =>
      rcases ih with reached | encloses
      · rcases foldsTo.exists_source_of_mentions mentions with ⟨before, before_mem, cases⟩
        rw [foldsTo.source_eq _ reached] at before_mem
        rcases cases with ⟨occurrence, occurrence_mem, rfl⟩ | ⟨span, stands, subset, _⟩
        · exact .inl (reached.tail
            ⟨mentions.1, before, before_mem, occurrence, occurrence_mem, rfl⟩)
        · refine .inr ⟨span, stands, fun occurrence occurrence_mem nonterminal => ?_⟩
          exact reached.tail
            ⟨nonterminal, before, before_mem, occurrence, subset occurrence_mem, rfl⟩
      · exact (foldsTo.encloses_of_mentions encloses mentions).imp_right And.left

/-- A loose edge from a symbol of the original grammar is an edge of it or leads into a span. -/
theorem edge_cases {edge : Edge} (reached : original.Reaches original.start edge.source)
    (loose : folded.IsLoose edge) :
    (∃ kept, original.IsLoose kept ∧ kept.source = edge.source ∧ kept.target = edge.target ∧
      (kept.after = [] ↔ edge.after = []) ∧
        ((∀ symbol ∈ edge.before, ¬symbol.isTerminal) → kept.before = edge.before)) ∨
    (edge.after ≠ [] ∧ ∃ span, source.StandsAround folded span edge.target ∧
      ∀ occurrence ∈ span, occurrence.symbol.isNonterminal →
        ∃ inner, original.IsLoose inner ∧ inner.source = edge.source ∧
          inner.target = occurrence.symbol ∧ inner.after ≠ []) := by
  have nonterminal := (mem_edgesFrom.1 loose.leaving).2.1
  have not_bracketed := loose.not_bracketed
  rcases foldsTo.exists_origin loose.leaving with ⟨before, before_mem, left, occurrence, right,
    origin, before_eq, target_eq, after_eq⟩
  rw [foldsTo.source_eq _ reached] at before_mem
  rw [isBracketed_iff, before_eq, after_eq, List.getLast?_map, List.getLast?_map,
    foldsTo.calls_eq, foldsTo.returns_eq] at not_bracketed
  cases origin with
  | kept earlier later split earlier_last later_last plain =>
      refine .inl ⟨⟨edge.source, edge.target, earlier.map Occurrence.symbol,
        later.map Occurrence.symbol⟩, ⟨reached, ?_, ?_⟩, rfl, rfl, ?_, ?_⟩
      · rw [mem_edgesFrom]
        exact ⟨rfl, nonterminal, List.mem_map.2 ⟨before, before_mem, by simp [split, target_eq]⟩⟩
      · rwa [isBracketed_iff, List.getLast?_map, List.getLast?_map, earlier_last, later_last]
      · rw [after_eq, List.map_eq_nil_iff, List.map_eq_nil_iff, ← List.getLast?_eq_none_iff,
          later_last, List.getLast?_eq_none_iff]
      · intro all
        rw [before_eq, List.forall_mem_map] at all
        rw [before_eq, plain all]
  | folded earlier span later opening split stands left_last opens later_nonempty later_last =>
      have right_nonempty : right ≠ [] := by
        rw [ne_eq, ← List.getLast?_eq_none_iff, ← later_last, List.getLast?_eq_none_iff]
        exact later_nonempty
      refine .inr ⟨by simpa [after_eq] using right_nonempty, span, target_eq ▸ stands, ?_⟩
      intro inner inner_mem inner_nonterminal
      rcases List.append_of_mem inner_mem with ⟨front, rear, rfl⟩
      refine ⟨⟨edge.source, inner.symbol, (earlier ++ front).map Occurrence.symbol,
        (rear ++ later).map Occurrence.symbol⟩, ⟨reached, ?_, ?_⟩, rfl, rfl, ?_⟩
      · rw [mem_edgesFrom]
        exact ⟨rfl, inner_nonterminal, List.mem_map.2 ⟨before, before_mem, by simp [split]⟩⟩
      -- The span stands behind a call, so what ends the alternative is not a return.
      · rw [isBracketed_iff]
        rintro ⟨_, _, ret, ret_mem, _, inner_last⟩
        apply not_bracketed
        refine ⟨opening.symbol, foldsTo.opens _ opens, ret, ret_mem, by rw [left_last]; rfl, ?_⟩
        rwa [List.getLast?_map, List.getLast?_append_of_ne_nil _ later_nonempty, later_last]
          at inner_last
      · simp [later_nonempty]

/-- Folding leaves a terminal wherever it folds, so it takes no terminal out of reach. -/
theorem canDeriveNonempty {symbol : Symbol} (reached : original.Reaches original.start symbol)
    (productive : original.canDeriveNonempty symbol) : folded.canDeriveNonempty symbol := by
  by_contra unproductive
  simp only [Grammar.canDeriveNonempty, List.any_eq_true, mem_reachableFrom] at *
  have unfolded {other : Symbol} (path : original.Reaches symbol other)
      (path_folded : folded.Reaches symbol other) {before : Alternative}
      (before_mem : before ∈ original.alternatives other) :
      before ∈ folded.alternatives other := by
    rw [← foldsTo.source_eq other (reached.trans path)] at before_mem
    rcases (foldsTo.folding other).forward before before_mem with ⟨after, after_mem, folds⟩
    rwa [folds.eq_of_forall_not_isTerminal foldsTo.terminals]
    intro occurrence occurrence_mem terminal
    exact unproductive ⟨other, path_folded, after, after_mem, occurrence, occurrence_mem, terminal⟩
  have reaches {other : Symbol} (path : original.Reaches symbol other) :
      folded.Reaches symbol other := by
    induction path with
    | refl => exact .refl
    | tail path mentions ih =>
        rcases mentions with ⟨nonterminal, before, before_mem, mentioned⟩
        exact ih.tail ⟨nonterminal, before, unfolded path ih before_mem, mentioned⟩
  rcases productive with ⟨other, path, before, before_mem, produces⟩
  exact unproductive
    ⟨other, reaches path, before, unfolded path (reaches path) before_mem, produces⟩

section Ranked

variable {rank : Symbol → Nat} (ranked : ∀ edge, original.IsLoose edge →
  rank edge.target ≤ rank edge.source ∧ (edge.after ≠ [] → rank edge.target < rank edge.source))

/-- Whether a symbol, or all that a nonterminal stands for, has at most some rank. -/
def Within (original source folded : Grammar) (rank : Symbol → Nat) (bound : Nat)
    (symbol : Symbol) : Prop :=
  (original.Reaches original.start symbol ∧ rank symbol ≤ bound) ∨
    Encloses source folded
      (fun other => original.Reaches original.start other ∧ rank other < bound) symbol

include ranked

omit foldsTo in
theorem encloses_of_inner {edge : Edge} {span : Alternative}
    (stands : source.StandsAround folded span edge.target)
    (inner : ∀ occurrence ∈ span, occurrence.symbol.isNonterminal →
      ∃ inner, original.IsLoose inner ∧ inner.source = edge.source ∧
        inner.target = occurrence.symbol ∧ inner.after ≠ []) :
    Encloses source folded
      (fun other => original.Reaches original.start other ∧ rank other < rank edge.source)
        edge.target := by
  refine ⟨span, stands, fun occurrence occurrence_mem nonterminal => ?_⟩
  rcases inner occurrence occurrence_mem nonterminal with
    ⟨edge, loose, source_eq, target_eq, longer⟩
  rw [← target_eq, ← source_eq]
  exact ⟨loose.target_reached, (ranked edge loose).2 longer⟩

theorem within_of_step {bound : Nat} {symbol other : Symbol}
    (within : Within original source folded rank bound symbol)
    (step : Steps folded.IsLoose symbol other) :
    Within original source folded rank bound other := by
  have mentions := mentions_of_steps step
  rcases step with ⟨edge, loose, rfl, rfl⟩
  rcases within with ⟨reached, low⟩ | encloses
  · rcases foldsTo.edge_cases reached loose with
      ⟨kept, kept_loose, source_eq, target_eq, _⟩ | ⟨_, span, stands, inner⟩
    · have lower := (ranked kept kept_loose).1
      rw [← target_eq]
      exact .inl ⟨kept_loose.target_reached, (source_eq ▸ lower).trans low⟩
    · rcases encloses_of_inner ranked stands inner with ⟨span, stands, all⟩
      refine .inr ⟨span, stands, fun occurrence occurrence_mem nonterminal => ?_⟩
      have below := all occurrence occurrence_mem nonterminal
      exact ⟨below.1, below.2.trans_le low⟩
  · rcases foldsTo.encloses_of_mentions encloses mentions with ⟨reached, lower⟩ | ⟨deeper, _⟩
    · exact .inl ⟨reached, lower.le⟩
    · exact .inr deeper

theorem within_of_path {bound : Nat} {symbol other : Symbol}
    (within : Within original source folded rank bound symbol)
    (path : ReflTransGen (Steps folded.IsLoose) symbol other) :
    Within original source folded rank bound other := by
  induction path with
  | refl => exact within
  | tail _ step ih => exact foldsTo.within_of_step ranked ih step

/-- A loose edge on a loose recursion is in tail position, by induction on a bound of the rank. -/
theorem after_eq_nil {bound : Nat} {edge : Edge} (loose : folded.IsLoose edge)
    (path : ReflTransGen (Steps folded.IsLoose) edge.target edge.source)
    (within : Within original source folded rank bound edge.source) : edge.after = [] := by
  induction bound using Nat.strong_induction_on with
  | h bound ih =>
      have lower {other : Symbol} (reached : original.Reaches original.start other)
          (low : rank other < bound)
          (back : ReflTransGen (Steps folded.IsLoose) other edge.source) : edge.after = [] :=
        ih (rank other) low (foldsTo.within_of_path ranked (.inl ⟨reached, le_rfl⟩) back)
      rcases within with ⟨reached, low⟩ | encloses
      · rcases foldsTo.edge_cases reached loose with
          ⟨kept, kept_loose, source_eq, target_eq, tail_iff, _⟩ | ⟨_, span, stands, inner⟩
        · by_contra longer
          have strict := (ranked kept kept_loose).2 (mt tail_iff.1 longer)
          rw [source_eq, target_eq] at strict
          exact longer (lower (target_eq ▸ kept_loose.target_reached) (by omega) path)
        · rcases foldsTo.exists_outside (fun _ _ => mentions_of_steps)
            (encloses_of_inner ranked stands inner) (.tail' path loose.steps) with
              ⟨other, ⟨outside, low_other⟩, _, back⟩
          exact lower outside (by omega) (back.trans path)
      · rcases foldsTo.exists_outside (fun _ _ => mentions_of_steps) encloses
          (.head' loose.steps path) with ⟨other, ⟨outside, low_other⟩, _, back⟩
        exact lower outside low_other back

end Ranked

theorem tail (visible : original.RecursesVisibly) {edge : Edge} (loose : folded.IsLoose edge)
    (path : ReflTransGen (Steps folded.IsLoose) edge.target edge.source) : edge.after = [] := by
  rcases visible.exists_rank with ⟨rank, limit, limited, ranked⟩
  have within : Within original source folded rank limit edge.source := by
    rcases foldsTo.reaches_or_encloses loose.reached with reached | ⟨span, stands, all⟩
    · exact .inl ⟨reached, (limited _).le⟩
    · refine .inr ⟨span, stands, fun occurrence occurrence_mem nonterminal => ?_⟩
      exact ⟨all occurrence occurrence_mem nonterminal, limited _⟩
  exact foldsTo.after_eq_nil ranked loose path within

/-- An idle edge on an idle recursion is not folded, so it is an edge of the original grammar. -/
theorem steps_isIdle (visible : original.RecursesVisibly) {symbol other : Symbol}
    (reached : original.Reaches original.start symbol) (step : Steps folded.IsIdle symbol other)
    (back : ReflTransGen (Steps folded.IsIdle) other symbol) :
    original.Reaches original.start other ∧ Steps original.IsIdle symbol other := by
  rcases step with ⟨edge, idle, rfl, rfl⟩
  rcases foldsTo.edge_cases reached idle.toIsLoose with
    ⟨kept, loose, source_eq, target_eq, _, plain⟩ | ⟨longer, _⟩
  · have before_eq := plain fun _ mem terminal => idle.unproductive _ mem (.inl terminal)
    refine ⟨target_eq ▸ loose.target_reached, kept, ⟨loose, ?_⟩, source_eq, target_eq⟩
    intro before before_mem productive
    apply idle.unproductive before (before_eq ▸ before_mem)
    rcases productive with terminal | derives
    · exact .inl terminal
    · by_cases terminal : before.isTerminal
      · exact .inl terminal
      · rw [Bool.not_eq_true, ← Bool.not_eq_true', Symbol.not_isTerminal] at terminal
        have mentions := mentions_of_mem_before loose.leaving before_mem terminal
        exact .inr (foldsTo.canDeriveNonempty (loose.reached.tail mentions) derives)
  · have loosely := ReflTransGen.mono (fun _ _ => steps_isLoose_of_isIdle) _ _ back
    exact absurd (foldsTo.tail visible idle.toIsLoose loosely) longer

theorem transGen_isIdle (visible : original.RecursesVisibly) {root symbol : Symbol}
    (reached : original.Reaches original.start root)
    (path : TransGen (Steps folded.IsIdle) root symbol)
    (back : ReflTransGen (Steps folded.IsIdle) symbol root) :
    original.Reaches original.start symbol ∧ TransGen (Steps original.IsIdle) root symbol := by
  induction path with
  | single step =>
      rcases foldsTo.steps_isIdle visible reached step back with ⟨reached, step⟩
      exact ⟨reached, .single step⟩
  | tail path step ih =>
      rcases ih (.head step back) with ⟨reached, traced⟩
      rcases foldsTo.steps_isIdle visible reached step (back.trans path.to_reflTransGen) with
        ⟨reached, step⟩
      exact ⟨reached, .tail traced step⟩

/-- Folding a grammar that recurses visibly gives one that does. -/
theorem recursesVisibly (visible : original.RecursesVisibly) : folded.RecursesVisibly := by
  refine ⟨fun edge loose path => foldsTo.tail visible loose path, fun symbol around => ?_⟩
  -- Somewhere on its way round the recursion is outside of all spans, and from there on it is one
  -- of the original grammar.
  have outside : ∃ root, original.Reaches original.start root ∧
      ReflTransGen (Steps folded.IsIdle) symbol root ∧
        ReflTransGen (Steps folded.IsIdle) root symbol := by
    rcases TransGen.head'_iff.1 around with ⟨_, ⟨edge, idle, rfl, _⟩, _⟩
    rcases foldsTo.reaches_or_encloses idle.reached with reached | encloses
    · exact ⟨edge.source, reached, .refl, .refl⟩
    · apply foldsTo.exists_outside _ encloses around
      exact fun _ _ step => mentions_of_steps (steps_isLoose_of_isIdle step)
  rcases outside with ⟨root, reached, there, back⟩
  have round : TransGen (Steps folded.IsIdle) root root :=
    .trans_right back (.trans_left around there)
  exact visible.productive root (foldsTo.transGen_isIdle visible reached round .refl).2

end FoldsTo

variable {grammar : Grammar}

theorem IsFolding.refresh (folding : source.IsFolding brackets folded) :
    source.IsFolding brackets folded.refresh := by
  intro symbol
  apply (folding symbol).mono
  intro span target stands
  exact stands.imp_right fun target => ⟨target.isNonterminal, target.bulk_name,
    target.alternatives_eq⟩

theorem TagsTerminals.isTerminal_of_lookup_brackets (tagged : grammar.TagsTerminals)
    (call ret : Symbol) (found : grammar.brackets.lookup call = some ret) :
    call.isTerminal ∧ ret.isTerminal :=
  tagged.pairs _ (of_lookup_brackets found).2

theorem mem_calls_of_isSome_lookup_brackets (call : Symbol)
    (found : (grammar.brackets.lookup call).isSome) : call ∈ grammar.calls := by
  rcases Option.isSome_iff_exists.1 found with ⟨ret, found⟩
  exact (of_lookup_brackets found).1

/-- At every stage of the extraction the grammar under way is folded. -/
theorem foldsTo_of_inProgress {extraction : SpanExtraction} {queue : List Symbol}
    (wellFormed : grammar.WellFormed) (tagged : grammar.TagsTerminals)
    (progress : SpanExtraction.InProgress grammar grammar.brackets extraction queue) :
    grammar.FoldsTo (extraction.source grammar) grammar.brackets extraction.grammar.refresh := by
  have start_eq := congrArg start progress.grammar_eq
  have calls_eq := congrArg calls progress.grammar_eq
  have returns_eq := congrArg returns progress.grammar_eq
  refine ⟨progress.isFolding.refresh, ?_, start_eq, calls_eq, returns_eq,
    tagged.isTerminal_of_lookup_brackets, mem_calls_of_isSome_lookup_brackets⟩
  intro symbol reached
  have unlisted : extraction.spans.lookup symbol = none := by
    rw [InsertionOrder.lookup_eq_none, List.mem_map]
    rintro ⟨entry, entry_mem, rfl⟩
    exact progress.span_new entry entry_mem (wellFormed.reaches_mem reached).1
  rw [SpanExtraction.source, alternatives_unfolded, unlisted]
  rfl

theorem TagsTerminals.foldsTo_refl (tagged : grammar.TagsTerminals) :
    grammar.FoldsTo grammar grammar.brackets grammar :=
  ⟨fun _ => .refl _, fun _ _ => rfl, rfl, rfl, rfl, tagged.isTerminal_of_lookup_brackets,
    mem_calls_of_isSome_lookup_brackets⟩

theorem exists_foldsTo_toSimpleForm (wellFormed : grammar.WellFormed)
    (tagged : grammar.TagsTerminals) :
    ∃ source, grammar.FoldsTo source grammar.brackets grammar.toSimpleForm.1 := by
  unfold toSimpleForm
  split
  · exact ⟨grammar, tagged.foldsTo_refl⟩
  · rcases (SpanExtraction.inProgress_start grammar.brackets wellFormed).shortenAll wellFormed
      (grammar.reachable.length + grammar.callOccurrenceCount) with ⟨_, progress⟩
    exact ⟨_, foldsTo_of_inProgress wellFormed tagged progress⟩

theorem WellFormed.withoutLeftRecursion (wellFormed : grammar.WellFormed) :
    grammar.withoutLeftRecursion.WellFormed := by
  unfold Grammar.withoutLeftRecursion
  split
  · exact wellFormed.removeLeftRecursion
  · exact wellFormed

theorem WellFormed.tag (wellFormed : grammar.WellFormed) (dropRejected : Bool) :
    (grammar.tag dropRejected).WellFormed :=
  wellFormed.of_eq rfl rfl rfl

theorem RecursesVisibly.toSimpleForm (visible : grammar.RecursesVisibly)
    (wellFormed : grammar.WellFormed) (tagged : grammar.TagsTerminals) :
    grammar.toSimpleForm.1.RecursesVisibly := by
  rcases exists_foldsTo_toSimpleForm wellFormed tagged with ⟨_, foldsTo⟩
  exact foldsTo.recursesVisibly visible

end Grammar

namespace Settings

variable {grammar : Grammar}

theorem calls_analyze (settings : Settings) (wellFormed : grammar.WellFormed) :
    (settings.analyze grammar).grammar.calls =
        (grammar.withoutLeftRecursion.tag settings.removeContradictions).calls ∧
      (settings.analyze grammar).grammar.returns =
        (grammar.withoutLeftRecursion.tag settings.removeContradictions).returns := by
  change (settings.tag grammar).grammar.calls = _ ∧ (settings.tag grammar).grammar.returns = _
  rw [grammar_tag]
  split
  · have tagged := grammar.withoutLeftRecursion.tagsTerminals_tag settings.removeContradictions
    have known := wellFormed.withoutLeftRecursion.tag settings.removeContradictions
    rcases Grammar.exists_foldsTo_toSimpleForm known tagged with ⟨_, foldsTo⟩
    exact ⟨foldsTo.calls_eq, foldsTo.returns_eq⟩
  · exact ⟨rfl, rfl⟩

/-- Bringing an accepted grammar into simple form can make it too large, but not recurse badly. -/
theorem verdict_simplify (settings : Settings) (wellFormed : grammar.WellFormed)
    (accepted :
      ({ settings with simplify := false }.analyze grammar).verdict = .visiblyPushdown) :
    ({ settings with simplify := true }.analyze grammar).verdict = .visiblyPushdown ∨
      ({ settings with simplify := true }.analyze grammar).verdict = .tooLarge := by
  have tagged := grammar.withoutLeftRecursion.tagsTerminals_tag settings.removeContradictions
  have known := wellFormed.withoutLeftRecursion.tag settings.removeContradictions
  generalize plain_eq : grammar.withoutLeftRecursion.tag settings.removeContradictions = plain
    at tagged known
  have plain_tag : ({ settings with simplify := false }.tag grammar).grammar = plain := by
    simp [grammar_tag, plain_eq]
  have simple_tag : ({ settings with simplify := true }.tag grammar).grammar =
      plain.toSimpleForm.1 := by
    simp [grammar_tag, plain_eq]
  rw [verdict_eq, plain_tag] at accepted
  rw [verdict_eq, simple_tag]
  split at accepted
  · cases accepted
  · split at accepted
    · next visible =>
        split
        · exact .inr rfl
        · exact .inl (if_pos (visible.toSimpleForm known tagged))
    · cases accepted

/-- Lists in brackets, each with a number behind it. -/
def numberedLists : Grammar :=
  { start := ⟨"list", .nonterminal⟩
    symbols :=
      [⟨"list", .nonterminal⟩, ⟨"[", .terminal⟩, ⟨"1", .terminal⟩, ⟨"]", .terminal⟩,
        ⟨"a", .terminal⟩]
    rules :=
      [(⟨"list", .nonterminal⟩,
          [[.bare ⟨"[", .terminal⟩, .bare ⟨"list", .nonterminal⟩, .bare ⟨"1", .terminal⟩,
              .bare ⟨"]", .terminal⟩],
            [.bare ⟨"a", .terminal⟩]])] }

theorem verdict_simplify_numberedLists :
    (numberedLists.tag true).toSimpleForm.2 = [⟨"_L_list_1", .nonterminal⟩] ∧
      (analyze { simplify := false } numberedLists).verdict = .visiblyPushdown ∧
      ((analyze { simplify := true } numberedLists).verdict = .visiblyPushdown ∨
        (analyze { simplify := true } numberedLists).verdict = .tooLarge) := by
  have created : (numberedLists.tag true).toSimpleForm.2 = [⟨"_L_list_1", .nonterminal⟩] := by
    decide
  have accepted : (analyze { simplify := false } numberedLists).verdict = .visiblyPushdown := by
    decide
  have wellFormed : numberedLists.WellFormed := by decide
  exact ⟨created, accepted, verdict_simplify {} wellFormed accepted⟩

end Settings

end VisiblyPushdown
