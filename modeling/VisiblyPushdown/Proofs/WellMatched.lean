import Mathlib.Combinatorics.Enumerative.DyckWord
import VisiblyPushdown.Proofs.Built
import VisiblyPushdown.Proofs.Refresh
import VisiblyPushdown.Proofs.Tagging

/-!
# Words of a well-matched grammar

A choice of calls and returns is checked alternative by alternative, with a counter of open calls
that passes over nonterminals. Every alternative on its own closes the calls that it opens, so
putting one in the place of a nonterminal leaves the count as it was. This makes balance an
invariant of derivation, and the calls and returns of every derived word form a Dyck word.

The search for a choice keeps each pair only if the alternatives stay balanced, so what it returns
is well matched.
-/

namespace VisiblyPushdown

universe u

/-- The step of a lattice path that a role stands for; plain items do not move. -/
def Role.step? : Role → Option DyckStep
  | .call => some .U
  | .return => some .D
  | .plain => none

@[simp]
theorem Role.step?_call : Role.call.step? = some .U :=
  rfl

@[simp]
theorem Role.step?_return : Role.return.step? = some .D :=
  rfl

@[simp]
theorem Role.step?_plain : Role.plain.step? = none :=
  rfl

section Balance

variable {α : Type u} {role : α → Role} {repetition : α → Repetition} {depth : Nat} {item : α}
  {rest : List α}

@[simp]
theorem balances_nil : balances role repetition depth [] ↔ depth = 0 := by
  simp [balances]

theorem balances_cons_plain (plain : role item = .plain) :
    balances role repetition depth (item :: rest) ↔ balances role repetition depth rest := by
  simp [balances, plain]

theorem balances_cons_call (call : role item = .call) :
    balances role repetition depth (item :: rest) ↔
      repetition item = .once ∧ balances role repetition (depth + 1) rest := by
  simp [balances, call]

theorem balances_cons_return (ret : role item = .return) :
    balances role repetition depth (item :: rest) ↔
      ∃ outer, depth = outer + 1 ∧ repetition item = .once ∧
        balances role repetition outer rest := by
  cases depth <;> simp [balances, ret]

/-- Only plain items may carry a mark. -/
theorem role_eq_plain_of_balances (balanced : balances role repetition depth (item :: rest))
    (marked : repetition item ≠ .once) : role item = .plain := by
  cases item_role : role item with
  | call => exact absurd ((balances_cons_call item_role).1 balanced).1 marked
  | «return» =>
      rcases (balances_cons_return item_role).1 balanced with ⟨_, _, once, _⟩
      exact absurd once marked
  | plain => rfl

theorem balances_append {left right : List α} {inner outer : Nat}
    (left_balanced : balances role repetition inner left)
    (right_balanced : balances role repetition outer right) :
    balances role repetition (outer + inner) (left ++ right) := by
  induction left generalizing inner with
  | nil =>
      rw [balances_nil] at left_balanced
      simpa [left_balanced] using right_balanced
  | cons item rest ih =>
      cases item_role : role item with
      | call =>
          rw [balances_cons_call item_role] at left_balanced
          rw [List.cons_append, balances_cons_call item_role]
          exact ⟨left_balanced.1, ih left_balanced.2⟩
      | «return» =>
          rcases (balances_cons_return item_role).1 left_balanced with ⟨inner, rfl, once, balanced⟩
          rw [List.cons_append, balances_cons_return item_role]
          exact ⟨outer + inner, rfl, once, ih balanced⟩
      | plain =>
          rw [balances_cons_plain item_role] at left_balanced
          rw [List.cons_append, balances_cons_plain item_role]
          exact ih left_balanced

/-- What balances returns as often as it calls, and never returns from a call that is not open. -/
theorem count_of_balances {items : List α} (balanced : balances role repetition depth items) :
    depth + (items.filterMap fun item => (role item).step?).count .U =
        (items.filterMap fun item => (role item).step?).count .D ∧
      ∀ length, ((items.filterMap fun item => (role item).step?).take length).count .D ≤
        depth + ((items.filterMap fun item => (role item).step?).take length).count .U := by
  induction items generalizing depth with
  | nil => simpa using balanced
  | cons item rest ih =>
      cases item_role : role item with
      | call =>
          rcases ih ((balances_cons_call item_role).1 balanced).2 with ⟨total, partly⟩
          simp only [List.filterMap_cons, item_role, Role.step?_call]
          constructor
          · simp
            omega
          · intro length
            cases length with
            | zero => simp
            | succ length =>
                have bounded := partly length
                simp
                omega
      | «return» =>
          rcases (balances_cons_return item_role).1 balanced with ⟨outer, rfl, _, balanced⟩
          rcases ih balanced with ⟨total, partly⟩
          simp only [List.filterMap_cons, item_role, Role.step?_return]
          constructor
          · simp
            omega
          · intro length
            cases length with
            | zero => simp
            | succ length =>
                have bounded := partly length
                simp
                omega
      | plain =>
          simp only [List.filterMap_cons, item_role, Role.step?_plain]
          exact ih ((balances_cons_plain item_role).1 balanced)

/-- Plain items do not matter for balance. -/
theorem balances_filter {keep : α → Bool} (plain : ∀ item, keep item = false → role item = .plain)
    (depth : Nat) (items : List α) :
    balances role repetition depth (items.filter keep) = balances role repetition depth items := by
  induction items generalizing depth with
  | nil => rfl
  | cons item rest ih =>
      cases kept : keep item with
      | false =>
          rw [List.filter_cons_of_neg (by simp [kept]), ih]
          simp [balances, plain item kept]
      | true =>
          rw [List.filter_cons_of_pos kept]
          cases depth <;> simp only [balances, ih]

theorem exists_dyckWord_of_balances {items : List α}
    (balanced : balances role repetition 0 items) :
    ∃ path : DyckWord, path.toList = items.filterMap fun item => (role item).step? := by
  rcases count_of_balances balanced with ⟨total, partly⟩
  rw [Nat.zero_add] at total
  simp only [Nat.zero_add] at partly
  exact ⟨⟨_, total, partly⟩, rfl⟩

end Balance

namespace TaggingChoice

variable {choice : TaggingChoice} {alternatives : List Alternative} {symbol : Symbol}
  {pair : TerminalPair}

/-- Whether the calls of a word open and its returns close like brackets of a single kind. -/
def IsBalanced (choice : TaggingChoice) (word : List Symbol) : Prop :=
  ∃ path : DyckWord, path.toList = word.filterMap fun symbol => (choice.role symbol).step?

/-- The role of an occurrence under the choice. -/
def roleAt (choice : TaggingChoice) (occurrence : Occurrence) : Role :=
  choice.role occurrence.symbol

/-- Whether calls and returns are terminals of a list, and none is both. -/
structure Splits (choice : TaggingChoice) (terminals : List Symbol) : Prop where
  calls_subset : choice.calls ⊆ terminals
  returns_subset : choice.returns ⊆ terminals
  disjoint : ∀ call ∈ choice.calls, call ∉ choice.returns

theorem role_eq_call_iff : choice.role symbol = .call ↔ symbol ∈ choice.calls := by
  by_cases call : symbol ∈ choice.calls <;> by_cases ret : symbol ∈ choice.returns <;>
    simp [role, call, ret]

theorem role_eq_return_iff :
    choice.role symbol = .return ↔ symbol ∉ choice.calls ∧ symbol ∈ choice.returns := by
  by_cases call : symbol ∈ choice.calls <;> by_cases ret : symbol ∈ choice.returns <;>
    simp [role, call, ret]

theorem role_eq_plain_iff :
    choice.role symbol = .plain ↔ symbol ∉ choice.calls ∧ symbol ∉ choice.returns := by
  by_cases call : symbol ∈ choice.calls <;> by_cases ret : symbol ∈ choice.returns <;>
    simp [role, call, ret]

theorem role_extend (admitted : choice.admits pair) (symbol : Symbol) :
    (choice.extend pair).role symbol =
      if symbol = pair.1 then .call else if symbol = pair.2 then .return else choice.role symbol :=
  (TaggingSearch.roleWith_eq admitted (.bare symbol)).symm

theorem role_of_isNonterminal (calls : ∀ call ∈ choice.calls, call.isTerminal)
    (returns : ∀ ret ∈ choice.returns, ret.isTerminal) (nonterminal : symbol.isNonterminal) :
    choice.role symbol = .plain := by
  rw [← Symbol.not_isTerminal, Bool.not_eq_true'] at nonterminal
  rw [role_eq_plain_iff]
  constructor
  · intro call_mem
    simp [calls symbol call_mem] at nonterminal
  · intro ret_mem
    simp [returns symbol ret_mem] at nonterminal

theorem balances_of_mem (matched : choice.matchesAll alternatives) {alternative : Alternative}
    (mem : alternative ∈ alternatives) :
    balances choice.roleAt Occurrence.repetition 0 alternative :=
  List.all_eq_true.1 matched alternative mem

theorem balances_cons_of_role {occurrence : Occurrence} {rest : Alternative} {depth : Nat}
    (plain : choice.role occurrence.symbol = .plain) :
    balances choice.roleAt Occurrence.repetition depth (occurrence :: rest) ↔
      balances choice.roleAt Occurrence.repetition depth rest :=
  balances_cons_plain plain

theorem balances_terminals (calls : ∀ call ∈ choice.calls, call.isTerminal)
    (returns : ∀ ret ∈ choice.returns, ret.isTerminal) (alternative : Alternative) :
    balances choice.roleAt Occurrence.repetition 0 alternative.terminals =
      balances choice.roleAt Occurrence.repetition 0 alternative := by
  apply balances_filter
  intro occurrence not_terminal
  apply role_of_isNonterminal calls returns
  simpa [← Symbol.not_isTerminal] using not_terminal

/-- A marked symbol is plain, also where it stands without the mark. -/
theorem role_of_marked {mark : Repetition} {rest : Alternative} {depth : Nat}
    (balanced : balances choice.roleAt Occurrence.repetition depth (⟨symbol, mark⟩ :: rest))
    (marked : mark ≠ .once) : choice.role symbol = .plain := by
  have plain : choice.roleAt ⟨symbol, mark⟩ = .plain := role_eq_plain_of_balances balanced marked
  exact plain

theorem matchesAll_empty (alternatives : List Alternative) :
    ({} : TaggingChoice).matchesAll alternatives := by
  have balanced (alternative : Alternative) :
      balances ({} : TaggingChoice).roleAt Occurrence.repetition 0 alternative := by
    induction alternative with
    | nil => simp
    | cons occurrence rest ih =>
        rw [balances_cons_of_role (by simp [role])]
        exact ih
  exact List.all_eq_true.2 fun alternative _ => balanced alternative

theorem Splits.extend {terminals : List Symbol}
    (splits : choice.Splits terminals) (call_mem : pair.1 ∈ terminals)
    (ret_mem : pair.2 ∈ terminals) (admitted : choice.admits pair) :
    (choice.extend pair).Splits terminals := by
  simp only [admits, Bool.and_eq_true, decide_eq_true_eq] at admitted
  rcases admitted with ⟨⟨different, call_new⟩, ret_new⟩
  refine ⟨?_, ?_, ?_⟩
  · intro call extended
    rcases InsertionOrder.mem_insert.1 extended with old | rfl
    · exact splits.calls_subset old
    · exact call_mem
  · intro ret extended
    rcases InsertionOrder.mem_insert.1 extended with old | rfl
    · exact splits.returns_subset old
    · exact ret_mem
  · intro terminal called returned
    rcases InsertionOrder.mem_insert.1 called with called | rfl <;>
      rcases InsertionOrder.mem_insert.1 returned with returned | same
    · exact splits.disjoint terminal called returned
    · exact ret_new (same ▸ called)
    · exact call_new returned
    · exact different same

theorem tryPair_spec {terminals : List Symbol}
    (call_mem : pair.1 ∈ terminals) (ret_mem : pair.2 ∈ terminals)
    (splits : choice.Splits terminals) (matched : choice.matchesAll alternatives) :
    (choice.tryPair alternatives pair).Splits terminals ∧
      (choice.tryPair alternatives pair).matchesAll alternatives := by
  unfold tryPair
  split
  · next taken =>
      rw [Bool.and_eq_true] at taken
      exact ⟨splits.extend call_mem ret_mem taken.1, taken.2⟩
  · exact ⟨splits, matched⟩

theorem foldl_tryPair_spec {terminals : List Symbol} {pairs : List TerminalPair}
    (known : ∀ pair ∈ pairs, pair.1 ∈ terminals ∧ pair.2 ∈ terminals)
    (splits : choice.Splits terminals) (matched : choice.matchesAll alternatives) :
    (pairs.foldl (tryPair alternatives) choice).Splits terminals ∧
      (pairs.foldl (tryPair alternatives) choice).matchesAll alternatives := by
  induction pairs generalizing choice with
  | nil => exact ⟨splits, matched⟩
  | cons pair pairs ih =>
      rw [List.forall_mem_cons] at known
      rcases tryPair_spec known.1.1 known.1.2 splits matched with ⟨splits, matched⟩
      exact ih known.2 splits matched

theorem foldl_tryPair_subset (alternatives : List Alternative) (choice : TaggingChoice)
    (pairs : List TerminalPair) :
    choice.calls ⊆ (pairs.foldl (tryPair alternatives) choice).calls ∧
      choice.returns ⊆ (pairs.foldl (tryPair alternatives) choice).returns := by
  induction pairs generalizing choice with
  | nil => exact ⟨List.Subset.refl _, List.Subset.refl _⟩
  | cons pair pairs ih =>
      have step : choice.calls ⊆ (choice.tryPair alternatives pair).calls ∧
          choice.returns ⊆ (choice.tryPair alternatives pair).returns := by
        unfold tryPair
        split
        · exact ⟨fun _ mem => InsertionOrder.mem_insert.2 (.inl mem),
            fun _ mem => InsertionOrder.mem_insert.2 (.inl mem)⟩
        · exact ⟨List.Subset.refl _, List.Subset.refl _⟩
      rcases ih (choice.tryPair alternatives pair) with ⟨calls, returns⟩
      exact ⟨List.Subset.trans step.1 calls, List.Subset.trans step.2 returns⟩

theorem agreesWith_iff {grammar : Grammar} :
    choice.agreesWith grammar ↔ (∀ terminal, terminal ∈ choice.calls ↔ terminal ∈ grammar.calls) ∧
      ∀ terminal, terminal ∈ choice.returns ↔ terminal ∈ grammar.returns := by
  have same_iff (left right : List Symbol) :
      agreesWith.sameMembers left right ↔ ∀ symbol, symbol ∈ left ↔ symbol ∈ right := by
    simp only [agreesWith.sameMembers, Bool.and_eq_true, List.all_eq_true, decide_eq_true_eq]
    exact ⟨fun ⟨forth, back⟩ symbol => ⟨forth symbol, back symbol⟩,
      fun same => ⟨fun symbol => (same symbol).1, fun symbol => (same symbol).2⟩⟩
  rw [agreesWith, Bool.and_eq_true, same_iff, same_iff]

end TaggingChoice

namespace Grammar

open TaggingChoice

variable {grammar : Grammar}

section WellMatched

variable {choice : TaggingChoice} (calls : ∀ call ∈ choice.calls, call.isTerminal)
  (returns : ∀ ret ∈ choice.returns, ret.isTerminal) (matched : grammar.isWellMatched choice)

include calls returns matched

/-- Derivation keeps the number of calls that are open. -/
theorem Derives.balances {form : Alternative} {word : List Symbol}
    (derives : grammar.Derives form word)
    (met : ∀ occurrence ∈ form, occurrence.symbol.isNonterminal →
      grammar.Reaches grammar.start occurrence.symbol) {depth : Nat}
    (balanced : balances choice.roleAt Occurrence.repetition depth form) :
    balances choice.role (fun _ => .once) depth word := by
  induction derives generalizing depth with
  | nil => simpa using balanced
  | @read symbol rest word _ _ ih =>
      rw [List.forall_mem_cons] at met
      cases symbol_role : choice.role symbol with
      | call =>
          have occurrence_role : choice.roleAt (.bare symbol) = .call := symbol_role
          rw [balances_cons_call occurrence_role] at balanced
          rw [balances_cons_call symbol_role]
          exact ⟨rfl, ih met.2 balanced.2⟩
      | «return» =>
          have occurrence_role : choice.roleAt (.bare symbol) = .return := symbol_role
          rcases (balances_cons_return occurrence_role).1 balanced with ⟨outer, rfl, _, balanced⟩
          rw [balances_cons_return symbol_role]
          exact ⟨outer, rfl, rfl, ih met.2 balanced⟩
      | plain =>
          rw [balances_cons_of_role symbol_role] at balanced
          rw [balances_cons_plain symbol_role]
          exact ih met.2 balanced
  | @expand symbol alternative rest word nonterminal mem _ ih =>
      rw [List.forall_mem_cons] at met
      have reached : grammar.Reaches grammar.start symbol := met.1 nonterminal
      have reachable : alternative ∈ grammar.reachableAlternatives :=
        List.mem_flatMap.2 ⟨symbol, mem_reachable.2 reached, mem⟩
      rw [balances_cons_of_role (role_of_isNonterminal calls returns nonterminal)] at balanced
      apply ih
      · intro occurrence occurrence_mem mentioned
        rcases List.mem_append.1 occurrence_mem with inner | later
        · exact reached.tail ⟨mentioned, alternative, mem, occurrence, inner, rfl⟩
        · exact met.2 occurrence later mentioned
      -- The alternative closes what it opens, so it may take the place of the nonterminal.
      · exact balances_append (balances_of_mem matched reachable) balanced
  | skipOptional _ ih | skipStar _ ih =>
      rw [List.forall_mem_cons] at met
      rw [balances_cons_of_role (role_of_marked balanced (by simp))] at balanced
      exact ih met.2 balanced
  | takeOptional _ ih =>
      have plain := role_of_marked balanced (by simp)
      rw [List.forall_mem_cons] at met
      rw [balances_cons_of_role plain] at balanced
      apply ih
      · exact List.forall_mem_cons.2 met
      · exact (balances_cons_of_role plain).2 balanced
  | takeStar _ ih =>
      have plain := role_of_marked balanced (by simp)
      apply ih
      · exact List.forall_mem_cons.2 ⟨(List.forall_mem_cons.1 met).1, met⟩
      · exact (balances_cons_of_role plain).2 balanced
  | takePlus _ ih =>
      have plain := role_of_marked balanced (by simp)
      rw [List.forall_mem_cons] at met
      rw [balances_cons_of_role plain] at balanced
      apply ih
      · exact List.forall_mem_cons.2 ⟨met.1, List.forall_mem_cons.2 met⟩
      · exact (balances_cons_of_role plain).2 ((balances_cons_of_role plain).2 balanced)

theorem isBalanced_of_mem_language {symbol : Symbol} (nonterminal : symbol.isNonterminal)
    (reached : grammar.Reaches grammar.start symbol) {word : List Symbol}
    (derives : word ∈ grammar.language symbol) : choice.IsBalanced word := by
  have plain := role_of_isNonterminal calls returns nonterminal
  apply exists_dyckWord_of_balances
  apply Derives.balances calls returns matched derives
  · intro occurrence occurrence_mem _
    rw [List.mem_singleton] at occurrence_mem
    exact occurrence_mem ▸ reached
  · exact (balances_cons_of_role plain).2 (by simp)

end WellMatched

theorem reachableTerminals_subset {other : Grammar} (start_eq : grammar.start = other.start)
    (subset : ∀ symbol, grammar.alternatives symbol ⊆ other.alternatives symbol) :
    grammar.reachableTerminals ⊆ other.reachableTerminals := by
  have mentions (symbol target : Symbol) (mentions : grammar.Mentions symbol target) :
      other.Mentions symbol target := by
    rcases mentions with ⟨nonterminal, alternative, mem, mentioned⟩
    exact ⟨nonterminal, alternative, subset symbol mem, mentioned⟩
  intro terminal
  simp only [mem_reachableTerminals, reachableAlternatives, List.mem_flatMap, mem_reachable]
  rintro ⟨kind, alternative, ⟨symbol, reached, mem⟩, mentioned⟩
  refine ⟨kind, alternative, ⟨symbol, ?_, subset symbol mem⟩, mentioned⟩
  rw [← start_eq]
  exact Relation.ReflTransGen.mono mentions _ _ reached

theorem alternatives_subset_addAlternative (grammar : Grammar) (symbol : Symbol)
    (alternative : Alternative) (other : Symbol) :
    grammar.alternatives other ⊆
      (grammar.addAlternative symbol alternative).alternatives other := by
  by_cases same : other = symbol
  · subst same
    cases kind : other.isTerminal with
    | true => simp [addAlternative, setAlternatives, kind]
    | false =>
        rw [addAlternative, alternatives_setAlternatives_self grammar kind]
        exact fun _ mem => InsertionOrder.mem_insert.2 (.inl mem)
  · rw [addAlternative, alternatives_setAlternatives_of_ne grammar same]
    exact List.Subset.refl _

theorem terminals_addAlternative (grammar : Grammar) (symbol : Symbol) (alternative : Alternative) :
    (grammar.addAlternative symbol alternative).terminals = grammar.terminals := by
  unfold addAlternative setAlternatives
  split <;> rfl

theorem mem_terminalPairs {pair : TerminalPair} :
    pair ∈ grammar.terminalPairs ↔ pair.1 ∈ grammar.terminals ∧ pair.2 ∈ grammar.terminals := by
  rcases pair with ⟨call, ret⟩
  simp [terminalPairs]

/-- Trying pairs keeps the choice well matched, however many of them were tried. -/
theorem foldl_terminalPairs_spec (stored : grammar.terminals ⊆ grammar.reachableTerminals)
    {pairs : List TerminalPair} (tried : pairs ⊆ grammar.terminalPairs) :
    (pairs.foldl (tryPair grammar.reachableAlternatives) {}).Splits grammar.reachableTerminals ∧
      grammar.isWellMatched (pairs.foldl (tryPair grammar.reachableAlternatives) {}) := by
  apply foldl_tryPair_spec
  · intro pair pair_mem
    exact (mem_terminalPairs.1 (tried pair_mem)).imp (@stored _) (@stored _)
  · constructor <;> simp
  · exact matchesAll_empty _

theorem searchTagging_spec (stored : grammar.terminals ⊆ grammar.reachableTerminals) :
    grammar.searchTagging.Splits grammar.reachableTerminals ∧
      grammar.isWellMatched grammar.searchTagging := by
  rw [searchTagging_eq]
  exact foldl_terminalPairs_spec stored (List.Subset.refl _)

/-- The stored terminals may be out of date, but no terminal gets out of reach without a refresh. -/
theorem Built.terminals_subset (built : grammar.Built) :
    grammar.terminals ⊆ grammar.reachableTerminals := by
  induction built with
  | ofStart name => simp [Grammar.ofStart]
  | resolve resolved => exact (Description.isRefreshed_resolve resolved).terminals_subset
  | withName _ _ ih => exact ih
  | intern _ _ ih => exact ih
  | @addAlternative grammar _ symbol _ alternative _ ih =>
      rw [terminals_addAlternative]
      apply List.Subset.trans ih
      apply reachableTerminals_subset (start_setAlternatives _ _).symm
      exact alternatives_subset_addAlternative grammar symbol alternative
  | removeLeftRecursion _ _ => exact (isRefreshed_refresh _).terminals_subset
  | harvest _ _ => exact (isRefreshed_harvest _).terminals_subset
  | assignRoles _ _ ih => exact ih
  | demoteUnmatched _ ih => exact ih
  | toSimpleForm _ ih =>
      unfold Grammar.toSimpleForm
      split
      · exact ih
      · exact (isRefreshed_refresh _).terminals_subset

/--
Every word of a reachable nonterminal of a well-matched grammar is balanced, whatever the choice of
call and return terminals. The search returns such a choice, made of reachable terminals none of
which is both call and return.
-/
theorem isBalanced_language (built : grammar.Built) :
    (∀ choice : TaggingChoice, (∀ call ∈ choice.calls, call.isTerminal) →
      (∀ ret ∈ choice.returns, ret.isTerminal) → grammar.isWellMatched choice →
        ∀ symbol, grammar.Reaches grammar.start symbol → ∀ word ∈ grammar.language symbol,
          choice.IsBalanced word) ∧
    grammar.searchTagging.Splits grammar.reachableTerminals ∧
    grammar.isWellMatched grammar.searchTagging ∧
    ∀ symbol, grammar.Reaches grammar.start symbol → ∀ word ∈ grammar.language symbol,
      grammar.searchTagging.IsBalanced word := by
  have balanced (choice : TaggingChoice) (calls : ∀ call ∈ choice.calls, call.isTerminal)
      (returns : ∀ ret ∈ choice.returns, ret.isTerminal) (matched : grammar.isWellMatched choice)
      (symbol : Symbol) (reached : grammar.Reaches grammar.start symbol) (word : List Symbol)
      (derives : word ∈ grammar.language symbol) : choice.IsBalanced word := by
    have nonterminal := (built.wellFormed.reaches_mem reached).2
    exact isBalanced_of_mem_language calls returns matched nonterminal reached derives
  rcases searchTagging_spec built.terminals_subset with ⟨splits, matched⟩
  refine ⟨balanced, splits, matched, balanced _ ?_ ?_ matched⟩
  · intro call call_mem
    exact (mem_reachableTerminals.1 (splits.calls_subset call_mem)).1
  · intro ret ret_mem
    exact (mem_reachableTerminals.1 (splits.returns_subset ret_mem)).1

/-- Variables, and lists of terms in parentheses. -/
def terms : Description :=
  { start := some "term"
    terminals := ["(", ")", "x"]
    rules :=
      [("term",
        [[.bare ⟨"(", .terminal⟩, ⟨⟨"term", .nonterminal⟩, .star⟩, .bare ⟨")", .terminal⟩],
          [.bare ⟨"x", .terminal⟩]])] }

theorem isBalanced_language_terms :
    let grammar := terms.toGrammar "term"
    let choice : TaggingChoice := { calls := [⟨"(", .terminal⟩], returns := [⟨")", .terminal⟩] }
    grammar.searchTagging = choice ∧ grammar.isWellMatched choice ∧
      (∀ word ∈ grammar.language grammar.start, choice.IsBalanced word) ∧
      ∀ word ∈ grammar.language grammar.start, grammar.searchTagging.IsBalanced word := by
  intro grammar choice
  have resolved : terms.resolve = .ok grammar := by decide
  have matched : grammar.isWellMatched choice := by decide
  rcases isBalanced_language (.resolve resolved) with ⟨balanced, _, _, found⟩
  refine ⟨by decide, matched, ?_, found grammar.start .refl⟩
  exact balanced choice (by decide) (by decide) matched grammar.start .refl

end Grammar

end VisiblyPushdown
