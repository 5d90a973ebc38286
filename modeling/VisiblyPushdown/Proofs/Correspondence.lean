import Mathlib.Data.List.Forall2
import VisiblyPushdown.Grammar.LeftRecursion
import VisiblyPushdown.Proofs.Discipline
import VisiblyPushdown.Proofs.Tagging

/-!
# Corresponding grammars

Two grammars correspond when their reachable parts differ in nothing but the names of nonterminals.
Some relation then pairs each symbol met in one grammar with one symbol of the other, and the
alternatives of paired nonterminals agree place by place. What an analysis finds out about a grammar
without changing its rules does not depend on names: corresponding grammars are explored in the same
order, are tagged alike, and recurse visibly together.
-/

namespace VisiblyPushdown

open Relation (ReflTransGen TransGen)
open Relator (BiUnique)

universe u v

section Lists

variable {α : Type u} {β : Type v} {related : α → β → Prop} {left : List α} {right : List β}

theorem exists_mem_of_forall₂ (pairs : List.Forall₂ related left right) {item : α}
    (item_mem : item ∈ left) : ∃ other ∈ right, related item other := by
  induction pairs with
  | nil => cases item_mem
  | cons head _ ih =>
      rcases List.mem_cons.1 item_mem with rfl | later
      · exact ⟨_, List.mem_cons_self, head⟩
      · rcases ih later with ⟨other, other_mem, pair⟩
        exact ⟨other, List.mem_cons_of_mem _ other_mem, pair⟩

theorem exists_mem_of_forall₂' (pairs : List.Forall₂ related left right) {other : β}
    (other_mem : other ∈ right) : ∃ item ∈ left, related item other :=
  exists_mem_of_forall₂ pairs.flip other_mem

theorem exists_split_of_forall₂ {before after : List α} {item : α}
    (pairs : List.Forall₂ related (before ++ item :: after) right) :
    ∃ front other rear, right = front ++ other :: rear ∧ List.Forall₂ related before front ∧
      related item other ∧ List.Forall₂ related after rear := by
  induction before generalizing right with
  | nil =>
      rcases pairs with _ | ⟨head, rest⟩
      exact ⟨[], _, _, rfl, .nil, head, rest⟩
  | cons first before ih =>
      rcases pairs with _ | ⟨head, rest⟩
      rcases ih rest with ⟨front, other, rear, rfl, front_pairs, pair, rear_pairs⟩
      exact ⟨_ :: front, other, rear, rfl, .cons head front_pairs, pair, rear_pairs⟩

theorem exists_getLast?_of_forall₂ (pairs : List.Forall₂ related left right) {last : α}
    (left_last : left.getLast? = some last) :
    ∃ other, right.getLast? = some other ∧ related last other := by
  rcases List.getLast?_eq_some_iff.1 left_last with ⟨before, rfl⟩
  rcases exists_split_of_forall₂ pairs with ⟨front, other, rear, rfl, _, pair, rear_pairs⟩
  cases rear_pairs
  exact ⟨other, by simp, pair⟩

/-- A path is followed step by step by one through related items. -/
theorem exists_path {step : α → α → Prop} {other_step : β → β → Prop}
    (simulates : ∀ item next other, related item other → step item next →
      ∃ other_next, related next other_next ∧ other_step other other_next)
    {item last : α} {other : β} (pair : related item other) (path : ReflTransGen step item last) :
    ∃ other_last, related last other_last ∧ ReflTransGen other_step other other_last := by
  induction path with
  | refl => exact ⟨other, pair, .refl⟩
  | tail _ next ih =>
      rcases ih with ⟨_, pair, path⟩
      rcases simulates _ _ _ pair next with ⟨other_last, last_pair, other_next⟩
      exact ⟨other_last, last_pair, path.tail other_next⟩

variable [DecidableEq α] [DecidableEq β] (unique : BiUnique related)

include unique

theorem forall₂_insertAll (pairs : List.Forall₂ related left right) {additions : List α}
    {others : List β} (added : List.Forall₂ related additions others) :
    List.Forall₂ related (InsertionOrder.insertAll left additions)
      (InsertionOrder.insertAll right others) := by
  induction added generalizing left right with
  | nil => exact pairs
  | @cons item other additions others pair _ ih =>
      apply ih
      unfold InsertionOrder.insert
      have known := List.rel_mem unique pair pairs
      by_cases present : item ∈ left
      · rw [if_pos present, if_pos (known.1 present)]
        exact pairs
      · rw [if_neg present, if_neg (mt known.2 present)]
        exact List.rel_append pairs (.cons pair .nil)

theorem forall₂_distinct (pairs : List.Forall₂ related left right) :
    List.Forall₂ related (InsertionOrder.distinct left) (InsertionOrder.distinct right) :=
  forall₂_insertAll unique .nil pairs

end Lists

/-- Whether occurrences of related symbols carry the same mark. -/
structure Occurrence.Corresponds (related : Symbol → Symbol → Prop) (left right : Occurrence) :
    Prop where
  symbol : related left.symbol right.symbol
  repetition_eq : left.repetition = right.repetition

/-- Whether alternatives have corresponding occurrences, place by place. -/
abbrev Alternative.Corresponds (related : Symbol → Symbol → Prop) :
    Alternative → Alternative → Prop :=
  List.Forall₂ (Occurrence.Corresponds related)

theorem Alternative.corresponds_self {related : Symbol → Symbol → Prop}
    {alternative : Alternative} :
    Alternative.Corresponds related alternative alternative ↔
      ∀ occurrence ∈ alternative, related occurrence.symbol occurrence.symbol := by
  rw [Alternative.Corresponds, List.forall₂_same]
  exact forall₂_congr fun _ _ => ⟨Occurrence.Corresponds.symbol, fun pair => ⟨pair, rfl⟩⟩

theorem Occurrence.biUnique_corresponds {related : Symbol → Symbol → Prop}
    (unique : BiUnique related) : BiUnique (Occurrence.Corresponds related) := by
  constructor
  · rintro ⟨symbol, mark⟩ ⟨other, other_mark⟩ ⟨image, image_mark⟩ first second
    have symbol_eq : symbol = other := unique.1 first.symbol second.symbol
    have mark_eq : mark = other_mark := first.repetition_eq.trans second.repetition_eq.symm
    rw [symbol_eq, mark_eq]
  · rintro ⟨symbol, mark⟩ ⟨image, image_mark⟩ ⟨other, other_mark⟩ first second
    have symbol_eq : image = other := unique.2 first.symbol second.symbol
    have mark_eq : image_mark = other_mark := first.repetition_eq.symm.trans second.repetition_eq
    rw [symbol_eq, mark_eq]

/-- Whether edges between related symbols stand in related contexts. -/
structure Edge.Corresponds (related : Symbol → Symbol → Prop) (left right : Edge) : Prop where
  source : related left.source right.source
  target : related left.target right.target
  before : List.Forall₂ related left.before right.before
  after : List.Forall₂ related left.after right.after

namespace Grammar

/--
Whether a relation pairs the symbols that can be met in two grammars, so that the rules of paired
symbols correspond. A terminal is paired with itself only.
-/
structure Correspond (related : Symbol → Symbol → Prop) (left right : Grammar) : Prop where
  unique : BiUnique related
  kind_eq : ∀ ⦃symbol other⦄, related symbol other → symbol.kind = other.kind
  terminal_eq : ∀ ⦃symbol other⦄, related symbol other → symbol.isTerminal → symbol = other
  start : related left.start right.start
  alternatives : ∀ ⦃symbol other⦄, related symbol other →
    List.Forall₂ (Alternative.Corresponds related) (left.alternatives symbol)
      (right.alternatives other)

/-- Whether corresponding grammars have the same calls and returns, all of them terminals. -/
structure CorrespondTagged (related : Symbol → Symbol → Prop) (left right : Grammar) : Prop extends
    Correspond related left right where
  calls_eq : left.calls = right.calls
  returns_eq : left.returns = right.returns
  calls_isTerminal : ∀ call ∈ left.calls, call.isTerminal
  returns_isTerminal : ∀ ret ∈ left.returns, ret.isTerminal

variable {related : Symbol → Symbol → Prop} {left right : Grammar}

theorem Correspond.symm (correspond : Correspond related left right) :
    Correspond (flip related) right left where
  unique := ⟨fun _ _ _ first second => correspond.unique.2 first second,
    fun _ _ _ first second => correspond.unique.1 first second⟩
  kind_eq _ _ pair := (correspond.kind_eq pair).symm
  terminal_eq symbol other pair terminal := by
    apply (correspond.terminal_eq pair _).symm
    rwa [Symbol.isTerminal, correspond.kind_eq pair]
  start := correspond.start
  alternatives symbol other pair := by
    apply List.Forall₂.flip
    apply (correspond.alternatives pair).imp
    intro alternative _ occurrences
    apply List.Forall₂.flip
    apply occurrences.imp
    exact fun _ _ corresponds => ⟨corresponds.symbol, corresponds.repetition_eq.symm⟩

theorem CorrespondTagged.symm (tagged : CorrespondTagged related left right) :
    CorrespondTagged (flip related) right left where
  toCorrespond := tagged.toCorrespond.symm
  calls_eq := tagged.calls_eq.symm
  returns_eq := tagged.returns_eq.symm
  calls_isTerminal := tagged.calls_eq ▸ tagged.calls_isTerminal
  returns_isTerminal := tagged.returns_eq ▸ tagged.returns_isTerminal

theorem forall₂_explore {next other_next : Symbol → List Symbol} (unique : BiUnique related)
    (steps : ∀ symbol other, related symbol other →
      List.Forall₂ related (next symbol) (other_next other))
    (visits : Nat) {stack seen other_stack other_seen : List Symbol}
    (stacked : List.Forall₂ related stack other_stack)
    (known : List.Forall₂ related seen other_seen) :
    List.Forall₂ related (explore next visits stack seen)
      (explore other_next visits other_stack other_seen) := by
  induction visits generalizing stack seen other_stack other_seen with
  | zero => exact .nil
  | succ visits ih =>
      cases stacked with
      | nil => exact .nil
      | @cons symbol other _ _ pair rest =>
          have fresh : List.Forall₂ related
              (InsertionOrder.distinct ((next symbol).filter (· ∉ seen)))
              (InsertionOrder.distinct ((other_next other).filter (· ∉ other_seen))) := by
            apply forall₂_distinct unique
            apply List.rel_filter _ (steps symbol other pair)
            intro item partner item_pair
            have same := List.rel_mem unique item_pair known
            simp [same]
          apply List.Forall₂.cons pair
          exact ih (List.rel_append (List.rel_reverse fresh) rest) (List.rel_append known fresh)

namespace Correspond

variable (correspond : Correspond related left right) {symbol other : Symbol}

include correspond

theorem isTerminal_eq (pair : related symbol other) : symbol.isTerminal = other.isTerminal := by
  rw [Symbol.isTerminal, correspond.kind_eq pair, Symbol.isTerminal]

theorem isNonterminal_eq (pair : related symbol other) :
    symbol.isNonterminal = other.isNonterminal := by
  rw [Symbol.isNonterminal, correspond.kind_eq pair, Symbol.isNonterminal]

theorem successors (pair : related symbol other) :
    List.Forall₂ related (left.successors symbol) (right.successors other) := by
  apply List.rel_flatMap (correspond.alternatives pair)
  intro alternative partner occurrences
  apply List.rel_filter
  · intro symbol other pair
    exact Bool.eq_iff_iff.1 (correspond.isNonterminal_eq pair)
  · exact List.rel_map (fun _ _ corresponds => corresponds.symbol) occurrences

theorem reachableFrom (pair : related symbol other) :
    List.Forall₂ related (left.reachableFrom symbol) (right.reachableFrom other) := by
  -- Each side may count more occurrences than the other, so both explore for the sum.
  have explored := forall₂_explore correspond.unique (fun _ _ => correspond.successors)
    (left.occurrenceCount + 1 + (right.occurrenceCount + 1)) (.cons pair .nil) (.cons pair .nil)
  rw [explore_eq_reachableFrom, Nat.add_comm, explore_eq_reachableFrom] at explored
  exact explored

theorem reachable : List.Forall₂ related left.reachable right.reachable :=
  correspond.reachableFrom correspond.start

theorem reachableAlternatives :
    List.Forall₂ (Alternative.Corresponds related) left.reachableAlternatives
      right.reachableAlternatives :=
  List.rel_flatMap correspond.reachable fun _ _ pair => correspond.alternatives pair

theorem terminals_eq {alternative partner : Alternative}
    (occurrences : Alternative.Corresponds related alternative partner) :
    alternative.terminals = partner.terminals := by
  induction occurrences with
  | nil => rfl
  | @cons occurrence counterpart _ _ corresponds _ ih =>
      rw [Alternative.terminals, Alternative.terminals] at ih ⊢
      rw [List.filter_cons, List.filter_cons, ih, correspond.isTerminal_eq corresponds.symbol]
      split
      · next terminal =>
          rw [← correspond.isTerminal_eq corresponds.symbol] at terminal
          rcases occurrence with ⟨symbol, mark⟩
          rcases counterpart with ⟨other, other_mark⟩
          have symbol_eq : symbol = other := correspond.terminal_eq corresponds.symbol terminal
          have mark_eq : mark = other_mark := corresponds.repetition_eq
          rw [symbol_eq, mark_eq]
      · rfl

/-- Corresponding grammars are tagged alike. -/
theorem isTaggedLike_tag (dropRejected : Bool) :
    (left.tag dropRejected).IsTaggedLike (right.tag dropRejected) := by
  apply Grammar.isTaggedLike_tag
  have mapped := List.rel_map (fun _ _ occurrences => correspond.terminals_eq occurrences)
    correspond.reachableAlternatives
  rwa [List.forall₂_eq_eq_eq] at mapped

theorem tag (dropRejected : Bool) :
    CorrespondTagged related (left.tag dropRejected) (right.tag dropRejected) where
  toCorrespond := ⟨correspond.unique, correspond.kind_eq, correspond.terminal_eq, correspond.start,
    correspond.alternatives⟩
  calls_eq := (correspond.isTaggedLike_tag dropRejected).calls_eq
  returns_eq := (correspond.isTaggedLike_tag dropRejected).returns_eq
  calls_isTerminal := (left.tagsTerminals_tag dropRejected).calls
  returns_isTerminal := (left.tagsTerminals_tag dropRejected).returns

theorem startsWith_eq (pair : related symbol other) {alternative partner : Alternative}
    (occurrences : Alternative.Corresponds related alternative partner) :
    alternative.startsWith symbol = partner.startsWith other := by
  cases occurrences with
  | nil => rfl
  | cons corresponds _ =>
      have same := Relator.rel_eq correspond.unique corresponds.symbol pair
      simp [Alternative.startsWith, same]

theorem isImmediatelyLeftRecursive_of_pair (pair : related symbol other)
    (recursive : left.isImmediatelyLeftRecursive symbol) :
    right.isImmediatelyLeftRecursive other := by
  rcases List.any_eq_true.1 recursive with ⟨alternative, mem, starts⟩
  rcases exists_mem_of_forall₂ (correspond.alternatives pair) mem with ⟨partner, partner_mem, same⟩
  rw [correspond.startsWith_eq pair same] at starts
  exact List.any_eq_true.2 ⟨partner, partner_mem, starts⟩

theorem isLeftRecursive_of_isLeftRecursive (recursive : left.isLeftRecursive) :
    right.isLeftRecursive := by
  rcases List.any_eq_true.1 recursive with ⟨symbol, reached, found⟩
  rcases exists_mem_of_forall₂ correspond.reachable reached with ⟨other, other_reached, pair⟩
  exact List.any_eq_true.2
    ⟨other, other_reached, correspond.isImmediatelyLeftRecursive_of_pair pair found⟩

theorem isLeftRecursive_eq : left.isLeftRecursive = right.isLeftRecursive := by
  rw [Bool.eq_iff_iff]
  constructor
  · exact correspond.isLeftRecursive_of_isLeftRecursive
  · exact correspond.symm.isLeftRecursive_of_isLeftRecursive

theorem canDeriveNonempty_of_pair (pair : related symbol other)
    (productive : left.canDeriveNonempty symbol) : right.canDeriveNonempty other := by
  simp only [canDeriveNonempty, List.any_eq_true] at productive ⊢
  rcases productive with ⟨reached, reached_mem, alternative, mem, occurrence, occurrence_mem,
    terminal⟩
  rcases exists_mem_of_forall₂ (correspond.reachableFrom pair) reached_mem with
    ⟨partner, partner_mem, reached_pair⟩
  rcases exists_mem_of_forall₂ (correspond.alternatives reached_pair) mem with
    ⟨other_alternative, other_mem, occurrences⟩
  rcases exists_mem_of_forall₂ occurrences occurrence_mem with
    ⟨counterpart, counterpart_mem, corresponds⟩
  rw [correspond.isTerminal_eq corresponds.symbol] at terminal
  exact ⟨partner, partner_mem, other_alternative, other_mem, counterpart, counterpart_mem, terminal⟩

theorem reaches_of_pair (pair : related symbol other)
    (reached : left.Reaches left.start symbol) : right.Reaches right.start other := by
  rcases exists_mem_of_forall₂ correspond.reachable (mem_reachable.2 reached) with
    ⟨partner, partner_mem, partner_pair⟩
  rw [correspond.unique.2 pair partner_pair]
  exact mem_reachable.1 partner_mem

theorem exists_edge (pair : related symbol other) {edge : Edge}
    (leaving : edge ∈ left.edgesFrom symbol) :
    ∃ partner ∈ right.edgesFrom other, edge.Corresponds related partner := by
  rcases mem_edgesFrom.1 leaving with ⟨rfl, nonterminal, context_mem⟩
  rcases List.mem_map.1 context_mem with ⟨alternative, mem, context_eq⟩
  rcases exists_mem_of_forall₂ (correspond.alternatives pair) mem with
    ⟨counterpart, counterpart_mem, occurrences⟩
  have symbols : List.Forall₂ related (alternative.map Occurrence.symbol)
      (counterpart.map Occurrence.symbol) :=
    List.rel_map (fun _ _ corresponds => corresponds.symbol) occurrences
  rw [context_eq] at symbols
  rcases exists_split_of_forall₂ symbols with
    ⟨front, target, rear, split, before, target_pair, after⟩
  refine ⟨⟨other, target, front, rear⟩, ?_, ⟨pair, target_pair, before, after⟩⟩
  rw [mem_edgesFrom]
  refine ⟨rfl, ?_, List.mem_map.2 ⟨counterpart, counterpart_mem, split⟩⟩
  rwa [← correspond.isNonterminal_eq target_pair]

end Correspond

namespace CorrespondTagged

variable (tagged : CorrespondTagged related left right) {edge partner : Edge}

include tagged

theorem isBracketed_of_corresponds (corresponds : edge.Corresponds related partner)
    (bracketed : left.isBracketed edge) : right.isBracketed partner := by
  rcases isBracketed_iff.1 bracketed with ⟨call, call_mem, ret, ret_mem, call_last, ret_last⟩
  rcases exists_getLast?_of_forall₂ corresponds.before call_last with ⟨_, last, pair⟩
  rcases exists_getLast?_of_forall₂ corresponds.after ret_last with ⟨_, other_last, other_pair⟩
  have call_eq := tagged.terminal_eq pair (tagged.calls_isTerminal call call_mem)
  have ret_eq := tagged.terminal_eq other_pair (tagged.returns_isTerminal ret ret_mem)
  subst call_eq ret_eq
  rw [isBracketed_iff]
  exact ⟨call, tagged.calls_eq ▸ call_mem, ret, tagged.returns_eq ▸ ret_mem, last, other_last⟩

theorem exists_isLoose {symbol other : Symbol} (pair : related symbol other)
    (loose : left.IsLoose edge) (source_eq : edge.source = symbol) :
    ∃ partner, right.IsLoose partner ∧ edge.Corresponds related partner ∧
      partner.source = other := by
  subst source_eq
  rcases tagged.exists_edge pair loose.leaving with ⟨partner, leaving, corresponds⟩
  have source_eq := (mem_edgesFrom.1 leaving).1
  subst source_eq
  refine ⟨partner, ⟨tagged.reaches_of_pair pair loose.reached, leaving, ?_⟩, corresponds, rfl⟩
  intro bracketed
  apply loose.not_bracketed
  have flipped : partner.Corresponds (flip related) edge :=
    ⟨corresponds.source, corresponds.target, corresponds.before.flip, corresponds.after.flip⟩
  exact tagged.symm.isBracketed_of_corresponds flipped bracketed

theorem exists_steps_isLoose (symbol next other : Symbol) (pair : related symbol other)
    (step : Steps left.IsLoose symbol next) :
    ∃ other_next, related next other_next ∧ Steps right.IsLoose other other_next := by
  rcases step with ⟨edge, loose, source_eq, rfl⟩
  rcases tagged.exists_isLoose pair loose source_eq with ⟨partner, other_loose, corresponds, rfl⟩
  exact ⟨partner.target, corresponds.target, other_loose.steps⟩

theorem exists_steps_isIdle (symbol next other : Symbol) (pair : related symbol other)
    (step : Steps left.IsIdle symbol next) :
    ∃ other_next, related next other_next ∧ Steps right.IsIdle other other_next := by
  rcases step with ⟨edge, idle, source_eq, rfl⟩
  rcases tagged.exists_isLoose pair idle.toIsLoose source_eq with
    ⟨partner, other_loose, corresponds, rfl⟩
  refine ⟨partner.target, corresponds.target, partner, ⟨other_loose, ?_⟩, rfl, rfl⟩
  intro before before_mem productive
  rcases exists_mem_of_forall₂' corresponds.before before_mem with ⟨symbol, symbol_mem, before_pair⟩
  apply idle.unproductive symbol symbol_mem
  rw [tagged.isTerminal_eq before_pair]
  exact productive.imp_right (tagged.toCorrespond.symm.canDeriveNonempty_of_pair before_pair)

/-- Names do not matter for recursion. -/
theorem recursesVisibly (visible : right.RecursesVisibly) : left.RecursesVisibly := by
  have closes {kind other_kind : Edge → Prop}
      (simulates : ∀ symbol next other, related symbol other → Steps kind symbol next →
        ∃ other_next, related next other_next ∧ Steps other_kind other other_next)
      {symbol next other other_next : Symbol} (pair : related symbol other)
      (next_pair : related next other_next) (path : ReflTransGen (Steps kind) next symbol) :
      ReflTransGen (Steps other_kind) other_next other := by
    rcases exists_path simulates next_pair path with ⟨last, last_pair, other_path⟩
    rwa [tagged.unique.2 pair last_pair]
  constructor
  · intro edge loose path
    have reached := mem_reachable.2 loose.reached
    rcases exists_mem_of_forall₂ tagged.toCorrespond.reachable reached with ⟨other, _, pair⟩
    rcases tagged.exists_isLoose pair loose rfl with ⟨partner, other_loose, corresponds, rfl⟩
    have back := closes tagged.exists_steps_isLoose pair corresponds.target path
    have after := corresponds.after
    rwa [visible.tail partner other_loose back, List.forall₂_nil_right_iff] at after
  · intro symbol around
    rcases TransGen.head'_iff.1 around with ⟨next, step, path⟩
    rcases step with ⟨edge, idle, rfl, rfl⟩
    have reached := mem_reachable.2 idle.reached
    rcases exists_mem_of_forall₂ tagged.toCorrespond.reachable reached with ⟨other, _, pair⟩
    rcases tagged.exists_steps_isIdle _ _ _ pair idle.steps with ⟨other_next, next_pair, step⟩
    have back := closes tagged.exists_steps_isIdle pair next_pair path
    exact visible.productive other (.head' step back)

theorem recursesVisibly_iff : left.RecursesVisibly ↔ right.RecursesVisibly :=
  ⟨tagged.symm.recursesVisibly, tagged.recursesVisibly⟩

end CorrespondTagged

end Grammar

end VisiblyPushdown
