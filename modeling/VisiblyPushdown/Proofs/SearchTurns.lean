import VisiblyPushdown.Proofs.WellMatched

/-!
# The turns of the search

The search tries every pair once, with the choice that the pairs in front of it gave. Matching is
not monotone, so a pair that is passed over at its turn may fit in the end. This happens in one way
only: neither side of the pair is tagged in the end, and at its turn some beginning of an
alternative had more returns than calls, with a call standing in it that was chosen later.

Balance is taken apart for this: no tagged occurrence is marked, calls and returns are equally many,
and no beginning has more returns than calls. The first two hold at the turn whenever they hold in
the end.
-/

namespace VisiblyPushdown

universe u

section Balance

variable {α : Type u} {role : α → Role} {repetition : α → Repetition} {depth : Nat} {items : List α}
  {kind : Role} {item : α}

/-- How many items have a role. -/
def countRole (role : α → Role) (kind : Role) (items : List α) : Nat :=
  items.countP (role · = kind)

@[simp]
theorem countRole_nil : countRole role kind [] = 0 :=
  rfl

@[simp]
theorem countRole_cons :
    countRole role kind (item :: items) =
      countRole role kind items + if role item = kind then 1 else 0 := by
  simp [countRole, List.countP_cons]

theorem balances_iff :
    balances role repetition depth items ↔
      (∀ item ∈ items, role item ≠ .plain → repetition item = .once) ∧
      depth + countRole role .call items = countRole role .return items ∧
      ∀ before ∈ items.inits,
        countRole role .return before ≤ depth + countRole role .call before := by
  induction items generalizing depth with
  | nil => simp
  | cons item rest ih =>
      simp only [List.forall_mem_cons, List.inits_cons, List.forall_mem_map, countRole_cons,
        countRole_nil, Nat.zero_le, true_and]
      cases item_role : role item with
      | call =>
          rw [balances_cons_call item_role, ih]
          simp [and_assoc, Nat.add_right_comm, ← Nat.add_assoc]
      | «return» =>
          rw [balances_cons_return item_role]
          cases depth with
          | zero =>
              -- The beginning that ends here has a return and no call.
              have closed : [] ∈ rest.inits := by simp
              simp only [Nat.zero_ne_add_one, false_and, exists_false, false_iff]
              rintro ⟨_, _, bounded⟩
              simpa using bounded [] closed
          | succ outer => simp [ih, and_assoc, Nat.add_right_comm _ 1]
      | plain =>
          rw [balances_cons_plain item_role, ih]
          simp

end Balance

namespace TaggingChoice

variable {choice larger : TaggingChoice} {pair : TerminalPair} {alternative before : Alternative}
  {alternatives : List Alternative}

/-- How many calls stand in a sequence. -/
def callCount (choice : TaggingChoice) (alternative : Alternative) : Nat :=
  alternative.countP (·.symbol ∈ choice.calls)

/-- How many returns stand in a sequence. -/
def returnCount (choice : TaggingChoice) (alternative : Alternative) : Nat :=
  alternative.countP (·.symbol ∈ choice.returns)

/-- Whether tagged occurrences carry no mark. -/
def LeavesBare (choice : TaggingChoice) (alternative : Alternative) : Prop :=
  ∀ occurrence ∈ alternative,
    occurrence.symbol ∈ choice.calls ∨ occurrence.symbol ∈ choice.returns →
      occurrence.repetition = .once

/-- Whether a sequence has more returns than calls. -/
def Overdraws (choice : TaggingChoice) (alternative : Alternative) : Prop :=
  choice.callCount alternative < choice.returnCount alternative

theorem balances_roleAt_iff (disjoint : ∀ call ∈ choice.calls, call ∉ choice.returns) :
    balances choice.roleAt Occurrence.repetition 0 alternative ↔
      choice.LeavesBare alternative ∧
      choice.callCount alternative = choice.returnCount alternative ∧
      ∀ before, before <+: alternative → ¬ choice.Overdraws before := by
  have calls (items : Alternative) :
      countRole choice.roleAt .call items = choice.callCount items := by
    simp only [countRole, roleAt, role_eq_call_iff, callCount]
  have returns (items : Alternative) :
      countRole choice.roleAt .return items = choice.returnCount items := by
    simp only [countRole, roleAt, role_eq_return_iff, returnCount]
    congr! 3
    exact and_iff_right_of_imp fun ret call => disjoint _ call ret
  have plain (symbol : Symbol) :
      choice.role symbol ≠ .plain ↔ symbol ∈ choice.calls ∨ symbol ∈ choice.returns := by
    rw [Ne, role_eq_plain_iff]
    tauto
  simp only [balances_iff, calls, returns, roleAt, plain, Nat.zero_add, List.mem_inits, LeavesBare,
    Overdraws, Nat.not_lt]

theorem Splits.callCount_eq {terminals : List Symbol} (splits : choice.Splits terminals)
    (matched : choice.matchesAll alternatives) (mem : alternative ∈ alternatives) :
    choice.callCount alternative = choice.returnCount alternative :=
  ((balances_roleAt_iff splits.disjoint).1 (balances_of_mem matched mem)).2.1

theorem countP_mem_insert {symbols : List Symbol} {symbol : Symbol} (new : symbol ∉ symbols)
    (items : Alternative) :
    items.countP (·.symbol ∈ InsertionOrder.insert symbols symbol) =
      items.countP (·.symbol ∈ symbols) + items.countP (·.symbol = symbol) := by
  simp only [InsertionOrder.mem_insert]
  induction items with
  | nil => rfl
  | cons item rest ih =>
      simp only [List.countP_cons, ih, decide_eq_true_eq]
      by_cases same : item.symbol = symbol
      · simp only [same, new, or_true, if_true, if_false]
        omega
      · simp only [same, or_false, if_false]
        omega

theorem callCount_extend (new : pair.1 ∉ choice.calls) (items : Alternative) :
    (choice.extend pair).callCount items =
      choice.callCount items + items.countP (·.symbol = pair.1) :=
  countP_mem_insert new items

theorem callCount_extend_of_mem (old : pair.1 ∈ choice.calls) (items : Alternative) :
    (choice.extend pair).callCount items = choice.callCount items := by
  simp [callCount, extend, InsertionOrder.insert, old]

theorem returnCount_extend (new : pair.2 ∉ choice.returns) (items : Alternative) :
    (choice.extend pair).returnCount items =
      choice.returnCount items + items.countP (·.symbol = pair.2) :=
  countP_mem_insert new items

theorem returnCount_extend_of_mem (old : pair.2 ∈ choice.returns) (items : Alternative) :
    (choice.extend pair).returnCount items = choice.returnCount items := by
  simp [returnCount, extend, InsertionOrder.insert, old]

/-- Whether a choice has the calls and the returns of another. -/
structure IsWithin (choice larger : TaggingChoice) : Prop where
  calls_subset : choice.calls ⊆ larger.calls
  returns_subset : choice.returns ⊆ larger.returns

theorem IsWithin.admits (within : choice.IsWithin larger) (admitted : larger.admits pair) :
    choice.admits pair := by
  simp only [TaggingChoice.admits, Bool.and_eq_true, decide_eq_true_eq] at admitted ⊢
  rcases admitted with ⟨⟨different, call_new⟩, ret_new⟩
  exact ⟨⟨different, mt (@within.returns_subset _) call_new⟩, mt (@within.calls_subset _) ret_new⟩

theorem IsWithin.extend (within : choice.IsWithin larger) :
    (choice.extend pair).IsWithin (larger.extend pair) where
  calls_subset _ mem := by
    have tagged := InsertionOrder.mem_insert.1 mem
    exact InsertionOrder.mem_insert.2 (tagged.imp_left (@within.calls_subset _))
  returns_subset _ mem := by
    have tagged := InsertionOrder.mem_insert.1 mem
    exact InsertionOrder.mem_insert.2 (tagged.imp_left (@within.returns_subset _))

theorem IsWithin.leavesBare (within : choice.IsWithin larger)
    (bare : larger.LeavesBare alternative) : choice.LeavesBare alternative :=
  fun occurrence mem tagged =>
    bare occurrence mem (tagged.imp (@within.calls_subset _) (@within.returns_subset _))

theorem IsWithin.returnCount_le (within : choice.IsWithin larger) (items : Alternative) :
    choice.returnCount items ≤ larger.returnCount items := by
  apply List.countP_mono_left
  intro occurrence _ tagged
  rw [decide_eq_true_eq] at tagged ⊢
  exact within.returns_subset tagged

/-- Where there are more calls, one of them was chosen later. -/
theorem exists_later_call {items : Alternative}
    (more : choice.callCount items < larger.callCount items) :
    ∃ occurrence ∈ items, occurrence.symbol ∈ larger.calls ∧ occurrence.symbol ∉ choice.calls := by
  by_contra none
  push Not at none
  apply more.not_ge
  apply List.countP_mono_left
  intro occurrence mem tagged
  rw [decide_eq_true_eq] at tagged ⊢
  exact none occurrence mem tagged

section Extension

variable {terminals : List Symbol} (splits : larger.Splits terminals)
  (matched : larger.matchesAll alternatives) (call_mem : pair.1 ∈ terminals)
  (ret_mem : pair.2 ∈ terminals) (admitted : larger.admits pair)
  (fits : (larger.extend pair).matchesAll alternatives)

include splits matched call_mem ret_mem admitted fits

/-- A pair that fits has both sides tagged or none, because either side occurs somewhere. -/
theorem call_mem_iff_return_mem
    (occurs : ∀ terminal ∈ terminals, ∃ alternative ∈ alternatives,
      0 < alternative.countP (·.symbol = terminal)) :
    pair.1 ∈ larger.calls ↔ pair.2 ∈ larger.returns := by
  have splits_extend := splits.extend call_mem ret_mem admitted
  constructor
  · intro called
    by_contra ret_new
    rcases occurs pair.2 ret_mem with ⟨alternative, mem, positive⟩
    have even := splits.callCount_eq matched mem
    have even_extend := splits_extend.callCount_eq fits mem
    rw [callCount_extend_of_mem called, returnCount_extend ret_new] at even_extend
    omega
  · intro returned
    by_contra call_new
    rcases occurs pair.1 call_mem with ⟨alternative, mem, positive⟩
    have even := splits.callCount_eq matched mem
    have even_extend := splits_extend.callCount_eq fits mem
    rw [callCount_extend call_new, returnCount_extend_of_mem returned] at even_extend
    omega

/--
A pair that fits in the end but not earlier fails there because some beginning of an alternative
has too few calls, and a later call stands in it.
-/
theorem exists_overdraws (within : choice.IsWithin larger)
    (earlier_splits : choice.Splits terminals) (earlier_matched : choice.matchesAll alternatives)
    (call_new : pair.1 ∉ larger.calls) (ret_new : pair.2 ∉ larger.returns)
    (fails : ¬ (choice.extend pair).matchesAll alternatives) :
    ∃ alternative ∈ alternatives, ∃ before, before <+: alternative ∧
      (choice.extend pair).Overdraws before ∧
      ∃ occurrence ∈ before, occurrence.symbol ∈ larger.calls ∧
        occurrence.symbol ∉ choice.calls := by
  have call_unknown : pair.1 ∉ choice.calls := mt (@within.calls_subset _) call_new
  have ret_unknown : pair.2 ∉ choice.returns := mt (@within.returns_subset _) ret_new
  have disjoint := (splits.extend call_mem ret_mem admitted).disjoint
  have earlier_disjoint :=
    (earlier_splits.extend call_mem ret_mem (within.admits admitted)).disjoint
  obtain ⟨alternative, mem, unbalanced⟩ : ∃ alternative ∈ alternatives,
      ¬ balances (choice.extend pair).roleAt Occurrence.repetition 0 alternative := by
    by_contra all_balanced
    push Not at all_balanced
    exact fails (List.all_eq_true.2 all_balanced)
  rcases (balances_roleAt_iff disjoint).1 (balances_of_mem fits mem) with ⟨bare, total, bounded⟩
  have even := splits.callCount_eq matched mem
  have earlier_even := earlier_splits.callCount_eq earlier_matched mem
  -- The sides of the pair occur equally often, so the totals agree with fewer tags, too.
  have earlier_total : (choice.extend pair).callCount alternative =
      (choice.extend pair).returnCount alternative := by
    rw [callCount_extend call_new, returnCount_extend ret_new] at total
    rw [callCount_extend call_unknown, returnCount_extend ret_unknown]
    omega
  obtain ⟨before, start, overdrawn⟩ : ∃ before, before <+: alternative ∧
      (choice.extend pair).Overdraws before := by
    by_contra none
    push Not at none
    rw [balances_roleAt_iff earlier_disjoint] at unbalanced
    exact unbalanced ⟨within.extend.leavesBare bare, earlier_total, none⟩
  refine ⟨alternative, mem, before, start, overdrawn, exists_later_call ?_⟩
  have covered := bounded before start
  have fewer_returns := within.returnCount_le before
  simp only [Overdraws, callCount_extend call_new, returnCount_extend ret_new,
    callCount_extend call_unknown, returnCount_extend ret_unknown] at overdrawn covered
  omega

end Extension

end TaggingChoice

namespace Grammar

open TaggingChoice

variable {grammar : Grammar} {pair : TerminalPair}

/-- The choice that the search has made when it comes to a pair. -/
def choiceBefore (grammar : Grammar) (pair : TerminalPair) : TaggingChoice :=
  (grammar.terminalPairs.takeWhile (· ≠ pair)).foldl (tryPair grammar.reachableAlternatives) {}

theorem exists_mention {terminal : Symbol} (mem : terminal ∈ grammar.reachableTerminals) :
    ∃ alternative ∈ grammar.reachableAlternatives,
      0 < alternative.countP (·.symbol = terminal) := by
  rcases mem_reachableTerminals.1 mem with ⟨_, alternative, reachable, mentioned⟩
  exact ⟨alternative, reachable, List.countP_pos_iff.2 (by simpa using mentioned)⟩

theorem choiceBefore_spec (stored : grammar.terminals ⊆ grammar.reachableTerminals)
    (pair : TerminalPair) :
    (grammar.choiceBefore pair).Splits grammar.reachableTerminals ∧
      grammar.isWellMatched (grammar.choiceBefore pair) :=
  foldl_terminalPairs_spec stored (List.takeWhile_prefix _).subset

/-- The search goes on from the choice that it has after the turn of a pair. -/
theorem isWithin_searchTagging (mem : pair ∈ grammar.terminalPairs) :
    ((grammar.choiceBefore pair).tryPair grammar.reachableAlternatives pair).IsWithin
      grammar.searchTagging := by
  obtain ⟨earlier, later, pairs_eq, first⟩ := List.eq_append_cons_of_mem mem
  have turn : grammar.terminalPairs.takeWhile (· ≠ pair) = earlier := by
    rw [pairs_eq, List.takeWhile_append_of_pos, List.takeWhile_cons_of_neg (by simp),
      List.append_nil]
    intro other other_mem
    rw [decide_eq_true_eq]
    rintro rfl
    exact first other_mem
  have run : grammar.searchTagging = later.foldl (tryPair grammar.reachableAlternatives)
      ((grammar.choiceBefore pair).tryPair grammar.reachableAlternatives pair) := by
    rw [searchTagging_eq, choiceBefore, turn, pairs_eq, List.foldl_append, List.foldl_cons]
  rcases foldl_tryPair_subset grammar.reachableAlternatives
    ((grammar.choiceBefore pair).tryPair grammar.reachableAlternatives pair) later
    with ⟨calls, returns⟩
  rw [run]
  exact ⟨calls, returns⟩

theorem choiceBefore_isWithin (mem : pair ∈ grammar.terminalPairs) :
    (grammar.choiceBefore pair).IsWithin grammar.searchTagging := by
  have grown := isWithin_searchTagging mem
  have kept := foldl_tryPair_subset grammar.reachableAlternatives (grammar.choiceBefore pair) [pair]
  exact ⟨List.Subset.trans kept.1 grown.calls_subset,
    List.Subset.trans kept.2 grown.returns_subset⟩

/-- A pair that fits at its turn is taken. -/
theorem mem_searchTagging_of_fits (mem : pair ∈ grammar.terminalPairs)
    (admitted : grammar.searchTagging.admits pair)
    (fits : grammar.isWellMatched ((grammar.choiceBefore pair).extend pair)) :
    pair.1 ∈ grammar.searchTagging.calls ∧ pair.2 ∈ grammar.searchTagging.returns := by
  have taken : (grammar.choiceBefore pair).tryPair grammar.reachableAlternatives pair =
      (grammar.choiceBefore pair).extend pair := by
    have matched : ((grammar.choiceBefore pair).extend pair).matchesAll
      grammar.reachableAlternatives := fits
    simp [tryPair, (choiceBefore_isWithin mem).admits admitted, matched]
  have grown := isWithin_searchTagging mem
  rw [taken] at grown
  constructor
  · exact grown.calls_subset (InsertionOrder.mem_insert.2 (.inr rfl))
  · exact grown.returns_subset (InsertionOrder.mem_insert.2 (.inr rfl))

/--
Take a pair of different reachable terminals whose sides do not have the opposite roles in the end.
If it fits at its turn, both sides are tagged. If it fits in the end, both sides are tagged, or
neither is; then some beginning of an alternative had more returns than calls at the turn of the
pair, and a call stands in it that was chosen later.
-/
theorem searchTagging_maximal_at_turn (current : grammar.terminals = grammar.reachableTerminals)
    (call_mem : pair.1 ∈ grammar.reachableTerminals) (ret_mem : pair.2 ∈ grammar.reachableTerminals)
    (admitted : grammar.searchTagging.admits pair) :
    let turn := grammar.choiceBefore pair
    let found := grammar.searchTagging
    (grammar.isWellMatched (turn.extend pair) → pair.1 ∈ found.calls ∧ pair.2 ∈ found.returns) ∧
    (grammar.isWellMatched (found.extend pair) →
      pair.1 ∈ found.calls ∧ pair.2 ∈ found.returns ∨
      pair.1 ∉ found.calls ∧ pair.2 ∉ found.returns ∧
        ∃ alternative ∈ grammar.reachableAlternatives, ∃ before, before <+: alternative ∧
          (turn.extend pair).Overdraws before ∧
          ∃ occurrence ∈ before, occurrence.symbol ∈ found.calls ∧
            occurrence.symbol ∉ turn.calls) := by
  intro turn found
  have stored : grammar.terminals ⊆ grammar.reachableTerminals := fun _ mem => current ▸ mem
  have tried : pair ∈ grammar.terminalPairs :=
    mem_terminalPairs.2 (current ▸ ⟨call_mem, ret_mem⟩)
  rcases searchTagging_spec stored with ⟨splits, matched⟩
  rcases choiceBefore_spec stored pair with ⟨turn_splits, turn_matched⟩
  refine ⟨mem_searchTagging_of_fits tried admitted, fun fits => ?_⟩
  have together := call_mem_iff_return_mem splits matched call_mem ret_mem admitted fits
    fun _ => exists_mention
  by_cases called : pair.1 ∈ found.calls
  · exact .inl ⟨called, together.1 called⟩
  · have not_returned : pair.2 ∉ found.returns := mt together.2 called
    refine .inr ⟨called, not_returned, ?_⟩
    apply exists_overdraws splits matched call_mem ret_mem admitted fits
      (choiceBefore_isWithin tried) turn_splits turn_matched called not_returned
    exact fun fits_at_turn => called (mem_searchTagging_of_fits tried admitted fits_at_turn).1

/-- One pair of terminals the right way round, and turned around inside of another pair. -/
def turnedAround : Description :=
  { start := some "s"
    terminals := ["C", "R", "D", "E"]
    rules :=
      [("s",
        [[.bare ⟨"C", .terminal⟩, .bare ⟨"R", .terminal⟩],
          [.bare ⟨"D", .terminal⟩, .bare ⟨"R", .terminal⟩, .bare ⟨"C", .terminal⟩,
            .bare ⟨"E", .terminal⟩],
          [.bare ⟨"D", .terminal⟩, .bare ⟨"E", .terminal⟩]])] }

theorem searchTagging_maximal_at_turn_turnedAround :
    let grammar := turnedAround.toGrammar "s"
    let pair : TerminalPair := (⟨"C", .terminal⟩, ⟨"R", .terminal⟩)
    grammar.searchTagging.admits pair ∧
      grammar.isWellMatched (grammar.searchTagging.extend pair) ∧
      pair.1 ∉ grammar.searchTagging.calls ∧
      ∃ alternative ∈ grammar.reachableAlternatives, ∃ before, before <+: alternative ∧
        ((grammar.choiceBefore pair).extend pair).Overdraws before := by
  intro grammar pair
  have admitted : grammar.searchTagging.admits pair := by decide
  have fits : grammar.isWellMatched (grammar.searchTagging.extend pair) := by decide
  have untagged : pair.1 ∉ grammar.searchTagging.calls := by decide
  refine ⟨admitted, fits, untagged, ?_⟩
  rcases (searchTagging_maximal_at_turn (by decide) (by decide) (by decide) admitted).2 fits with
    tagged | ⟨_, _, alternative, mem, before, start, overdrawn, _⟩
  · exact absurd tagged.1 untagged
  · exact ⟨alternative, mem, before, start, overdrawn⟩

/-- The result of the search can be extended, also for a grammar with current stored symbols. -/
theorem searchTagging_not_maximal :
    let grammar := turnedAround.toGrammar "s"
    let pair : TerminalPair := (⟨"C", .terminal⟩, ⟨"R", .terminal⟩)
    turnedAround.resolve = .ok grammar ∧
      grammar.nonterminals = grammar.reachable ∧ grammar.terminals = grammar.reachableTerminals ∧
      pair.1 ∈ grammar.reachableTerminals ∧ pair.2 ∈ grammar.reachableTerminals ∧
      pair.1 ≠ pair.2 ∧ pair.1 ∉ grammar.searchTagging.returns ∧
      pair.2 ∉ grammar.searchTagging.calls ∧
      grammar.isWellMatched (grammar.searchTagging.extend pair) ∧
      ¬(pair.1 ∈ grammar.searchTagging.calls ∧ pair.2 ∈ grammar.searchTagging.returns) := by
  decide

end Grammar

end VisiblyPushdown
