import VisiblyPushdown.Proofs.Selection

/-!
# The second round of tagging

The repair between the two rounds of tagging takes the tag from every terminal that outnumbers its
partner somewhere. The second round then chooses again, and it is not followed by another repair. A
terminal that comes out of it with the role and the partner that it had at the repair does not
outnumber its partner; the others may.

An assignment of roles is determined by the pairs that it accepts: these are the pairs that do not
contradict it, and every tagged terminal is a side of one. When the rejected pairs are dropped after
each round, the pairs that the second round starts from are those that the first one accepted. So no
terminal gets another role, and it gets another partner only when the old one lost its tag.
`tag_restricts_first_round` says what is left of the pairs in the end: those without a demoted side.
-/

namespace VisiblyPushdown

theorem InsertionOrder.lookup_filter {κ β : Type} [BEq κ] [LawfulBEq κ] {entries : List (κ × β)}
    {key : κ} {value : β} (keep : κ × β → Bool) (found : entries.lookup key = some value)
    (kept : keep (key, value)) : (entries.filter keep).lookup key = some value := by
  rcases List.lookup_eq_some_iff.1 found with ⟨before, after, split, first⟩
  apply List.lookup_eq_some_iff.2
  refine ⟨before.filter keep, after.filter keep, ?_, ?_⟩
  · rw [split, List.filter_append, List.filter_cons_of_pos kept]
  · exact fun entry mem => first entry (List.mem_filter.1 mem).1

namespace RoleAssignment

/-- Whether every tagged terminal is a side of an accepted pair among given ones. -/
structure IsSupported (pairs : List TerminalPair) (assigned : RoleAssignment) : Prop where
  calls : ∀ call ∈ assigned.calls.toList, ∃ pair ∈ pairs, assigned.Accepts pair ∧ pair.1 = call
  returns : ∀ ret ∈ assigned.returns.toList, ∃ pair ∈ pairs, assigned.Accepts pair ∧ pair.2 = ret

/-- The accepted pairs are those that do not contradict the assignment. -/
theorem accepts_ofPairs_iff {plain : SymbolSet} {pairs : List TerminalPair} {pair : TerminalPair}
    (mem : pair ∈ pairs) :
    (ofPairs plain pairs).Accepts pair ↔ (ofPairs plain pairs).contradicts plain pair = false := by
  constructor
  · exact (isApart_ofPairs plain pairs).contradicts_eq_false
  · exact fun compatible => accepts_of_mem_accepted (mem_accepted_iff.2 ⟨mem, compatible⟩)

theorem isSupported_ofPairs (plain : SymbolSet) (pairs : List TerminalPair) :
    (ofPairs plain pairs).IsSupported pairs := by
  constructor
  · intro call call_mem
    rcases mem_calls_ofPairs.1 call_mem with ⟨pair, mem, same⟩
    exact ⟨pair, mem_of_mem_accepted mem, accepts_of_mem_accepted mem, same⟩
  · intro ret ret_mem
    rcases mem_returns_ofPairs.1 ret_mem with ⟨pair, mem, same⟩
    exact ⟨pair, mem_of_mem_accepted mem, accepts_of_mem_accepted mem, same⟩

end RoleAssignment

namespace Grammar

variable {grammar : Grammar} {terminal partner : Symbol} {pair : TerminalPair}

section Partners

theorem role_eq_call_iff_mem : grammar.role terminal = .call ↔ terminal ∈ grammar.calls := by
  by_cases call : terminal ∈ grammar.calls <;> by_cases ret : terminal ∈ grammar.returns <;>
    simp [role, call, ret]

theorem role_eq_return_iff_mem :
    grammar.role terminal = .return ↔ terminal ∉ grammar.calls ∧ terminal ∈ grammar.returns := by
  by_cases call : terminal ∈ grammar.calls <;> by_cases ret : terminal ∈ grammar.returns <;>
    simp [role, call, ret]

theorem role_ne_plain_iff :
    grammar.role terminal ≠ .plain ↔ terminal ∈ grammar.calls ∨ terminal ∈ grammar.returns := by
  by_cases call : terminal ∈ grammar.calls <;> by_cases ret : terminal ∈ grammar.returns <;>
    simp [role, call, ret]

theorem TagsTerminals.isTerminal_of_role (terminals : grammar.TagsTerminals)
    (tagged : grammar.role terminal ≠ .plain) : terminal.isTerminal :=
  (role_ne_plain_iff.1 tagged).elim (terminals.calls terminal) (terminals.returns terminal)

theorem partner?_of_call (call : grammar.role terminal = .call) :
    grammar.partner? terminal = grammar.returnOf? terminal := by
  simp [partner?, partnerAmong, call]

theorem partner?_of_return (ret : grammar.role terminal = .return) :
    grammar.partner? terminal = grammar.callOf? terminal := by
  simp [partner?, partnerAmong, ret]

section Filter

variable {later : Grammar} {keep : TerminalPair → Bool}
  (pairs_eq : later.pairs = grammar.pairs.filter keep)

include pairs_eq

/-- A first pair that stays in the table is still the first one. -/
theorem returnOf?_of_filter (found : grammar.returnOf? terminal = some partner)
    (kept : (terminal, partner) ∈ later.pairs) : later.returnOf? terminal = some partner := by
  rw [pairs_eq] at kept
  rw [returnOf?, pairs_eq]
  exact InsertionOrder.lookup_filter keep found (List.mem_filter.1 kept).2

theorem callOf?_of_filter (found : grammar.callOf? terminal = some partner)
    (kept : (partner, terminal) ∈ later.pairs) : later.callOf? terminal = some partner := by
  rw [pairs_eq] at kept
  have found_later := InsertionOrder.lookup_filter (fun swapped => keep swapped.swap) found
    (List.mem_filter.1 kept).2
  rw [List.filter_map] at found_later
  rw [callOf?, pairs_eq]
  exact found_later

end Filter

end Partners

/--
Whether a terminal has a partner and outnumbers it in no alternative within reach; occurrences with
a mark do not count.
-/
def Matches (grammar : Grammar) (terminal : Symbol) : Prop :=
  ∃ partner, grammar.partner? terminal = some partner ∧
    ∀ symbol, grammar.Reaches grammar.start symbol →
      ∀ alternative ∈ grammar.alternatives symbol,
        alternative.bareCount terminal ≤ alternative.bareCount partner

theorem mem_unmatched :
    terminal ∈ grammar.unmatched ↔
      terminal.isTerminal ∧ grammar.role terminal ≠ .plain ∧
        ∃ alternative ∈ grammar.reachableAlternatives,
          ((grammar.partner? terminal).map alternative.bareCount).getD 0 <
            alternative.bareCount terminal := by
  simp only [unmatched_eq, InsertionOrder.mem_distinct, List.mem_flatMap, unmatchedIn,
    List.mem_filter, OrderedSet.toList_ofList, Alternative.mem_bareTerminals, Bool.and_eq_true,
    decide_eq_true_eq]
  constructor
  · rintro ⟨alternative, mem, ⟨_, kind⟩, tagged, more⟩
    exact ⟨kind, tagged, alternative, mem, more⟩
  · rintro ⟨kind, tagged, alternative, mem, more⟩
    refine ⟨alternative, mem, ⟨?_, kind⟩, tagged, more⟩
    rcases List.countP_pos_iff.1 (Nat.zero_lt_of_lt more) with ⟨⟨symbol, mark⟩, found, bare⟩
    simp only [Bool.and_eq_true, decide_eq_true_eq] at bare
    rcases bare with ⟨rfl, rfl⟩
    exact found

/-- A terminal with a partner keeps its tag in a repair exactly when it does not outnumber it. -/
theorem matches_iff_of_partner (kind : terminal.isTerminal)
    (tagged : grammar.role terminal ≠ .plain) (found : grammar.partner? terminal = some partner) :
    grammar.Matches terminal ↔ terminal ∉ grammar.unmatched := by
  simp only [mem_unmatched, kind, tagged, ne_eq, not_false_eq_true, true_and, not_exists, not_and,
    not_lt, found, Option.map_some, Option.getD_some, Matches, Option.some.injEq, exists_eq_left',
    reachableAlternatives, List.mem_flatMap, mem_reachable, forall_exists_index, and_imp]
  constructor
  · exact fun fewer alternative symbol reached mem => fewer symbol reached alternative mem
  · exact fun fewer symbol reached alternative mem => fewer alternative symbol reached mem

/-- Where every tagged terminal has a partner, a repair changes nothing when they all match. -/
theorem unmatched_eq_nil_iff (terminals : grammar.TagsTerminals)
    (partnered : ∀ terminal, grammar.role terminal ≠ .plain →
      ∃ partner, grammar.partner? terminal = some partner) :
    grammar.unmatched = [] ↔
      ∀ terminal, grammar.role terminal ≠ .plain → grammar.Matches terminal := by
  constructor
  · intro undemoted terminal tagged
    rcases partnered terminal tagged with ⟨partner, found⟩
    apply (matches_iff_of_partner (terminals.isTerminal_of_role tagged) tagged found).2
    simp [undemoted]
  · intro matched
    apply List.eq_nil_iff_forall_not_mem.2
    intro terminal demoted
    rcases mem_unmatched.1 demoted with ⟨kind, tagged, _⟩
    rcases partnered terminal tagged with ⟨partner, found⟩
    exact (matches_iff_of_partner kind tagged found).1 (matched terminal tagged) demoted

section Rounds

variable (grammar) (dropRejected : Bool)

theorem mem_pairs_assignRoles_true :
    pair ∈ (grammar.assignRoles true).pairs ↔
      pair ∈ grammar.pairs ∧ grammar.assignment.Accepts pair := by
  simp only [assignRoles, if_true, List.mem_filter, Bool.not_eq_true']
  apply and_congr_right
  intro mem
  exact (RoleAssignment.accepts_ofPairs_iff mem).symm

theorem roles_of_mem_pairs_assignRoles (mem : pair ∈ (grammar.assignRoles true).pairs) :
    pair.1 ∈ (grammar.assignRoles true).calls ∧ pair.2 ∈ (grammar.assignRoles true).returns := by
  rw [calls_assignRoles, returns_assignRoles]
  exact (grammar.mem_pairs_assignRoles_true.1 mem).2

theorem mem_pairs_assignRoles_iff_compatible :
    pair ∈ (grammar.assignRoles true).pairs ↔
      pair ∈ grammar.pairs ∧ pair.1 ≠ pair.2 ∧ pair.1 ∉ grammar.plain ∧ pair.2 ∉ grammar.plain ∧
        pair.1 ∉ (grammar.assignRoles true).returns ∧
        pair.2 ∉ (grammar.assignRoles true).calls := by
  simp only [assignRoles, if_true, List.mem_filter, Bool.not_eq_true',
    RoleAssignment.contradicts_eq_false_iff, OrderedSet.toList_ofList, InsertionOrder.mem_distinct]

/-- The tagged terminals are the sides of pairs that stay in the table. -/
theorem exists_pair_assignRoles :
    (∀ call ∈ (grammar.assignRoles dropRejected).calls,
      ∃ pair ∈ (grammar.assignRoles dropRejected).pairs, pair.1 = call) ∧
    ∀ ret ∈ (grammar.assignRoles dropRejected).returns,
      ∃ pair ∈ (grammar.assignRoles dropRejected).pairs, pair.2 = ret := by
  have supported : grammar.assignment.IsSupported grammar.pairs :=
    RoleAssignment.isSupported_ofPairs _ _
  have kept {pair : TerminalPair} (mem : pair ∈ grammar.pairs)
      (accepted : grammar.assignment.Accepts pair) :
      pair ∈ (grammar.assignRoles dropRejected).pairs := by
    cases dropRejected with
    | false => rwa [pairs_assignRoles_false]
    | true => exact grammar.mem_pairs_assignRoles_true.2 ⟨mem, accepted⟩
  rw [calls_assignRoles, returns_assignRoles]
  constructor
  · intro call call_mem
    rcases supported.calls call call_mem with ⟨pair, mem, accepted, same⟩
    exact ⟨pair, kept mem accepted, same⟩
  · intro ret ret_mem
    rcases supported.returns ret ret_mem with ⟨pair, mem, accepted, same⟩
    exact ⟨pair, kept mem accepted, same⟩

theorem exists_partner_assignRoles
    (tagged : (grammar.assignRoles dropRejected).role terminal ≠ .plain) :
    ∃ partner, (grammar.assignRoles dropRejected).partner? terminal = some partner := by
  rcases grammar.exists_pair_assignRoles dropRejected with ⟨calls, returns⟩
  generalize grammar.assignRoles dropRejected = assigned at *
  rw [← Option.isSome_iff_exists]
  cases role_eq : assigned.role terminal with
  | call =>
      rcases calls terminal (role_eq_call_iff_mem.1 role_eq) with ⟨pair, mem, rfl⟩
      rw [partner?_of_call role_eq, returnOf?, List.lookup_isSome_iff]
      exact ⟨pair, mem, by simp⟩
  | «return» =>
      rcases returns terminal (role_eq_return_iff_mem.1 role_eq).2 with ⟨pair, mem, rfl⟩
      rw [partner?_of_return role_eq, callOf?, List.lookup_isSome_iff]
      exact ⟨pair.swap, List.mem_map_of_mem mem, by simp⟩
  | plain => exact absurd role_eq tagged

section Dropping

theorem mem_calls_iff_exists_pair :
    terminal ∈ (grammar.assignRoles true).calls ↔
      ∃ pair ∈ (grammar.assignRoles true).pairs, pair.1 = terminal := by
  constructor
  · exact (grammar.exists_pair_assignRoles true).1 terminal
  · rintro ⟨pair, mem, rfl⟩
    exact (grammar.roles_of_mem_pairs_assignRoles mem).1

theorem mem_returns_iff_exists_pair :
    terminal ∈ (grammar.assignRoles true).returns ↔
      ∃ pair ∈ (grammar.assignRoles true).pairs, pair.2 = terminal := by
  constructor
  · exact (grammar.exists_pair_assignRoles true).2 terminal
  · rintro ⟨pair, mem, rfl⟩
    exact (grammar.roles_of_mem_pairs_assignRoles mem).2

theorem exists_return_of_mem_calls (call_mem : terminal ∈ (grammar.assignRoles true).calls) :
    ∃ ret ∈ (grammar.assignRoles true).returns,
      (grammar.assignRoles true).partner? terminal = some ret := by
  have call := role_eq_call_iff_mem.2 call_mem
  have tagged := role_ne_plain_iff.2 (.inl call_mem)
  rcases grammar.exists_partner_assignRoles true tagged with ⟨ret, found⟩
  refine ⟨ret, ?_, found⟩
  rw [partner?_of_call call] at found
  exact (grammar.roles_of_mem_pairs_assignRoles (InsertionOrder.mem_of_lookup_eq_some found)).2

theorem exists_call_of_mem_returns (ret_mem : terminal ∈ (grammar.assignRoles true).returns) :
    ∃ call ∈ (grammar.assignRoles true).calls,
      (grammar.assignRoles true).partner? terminal = some call := by
  have apart := grammar.keepsRolesApart_assignRoles true
  have ret := role_eq_return_iff_mem.2
    ⟨fun call_mem => apart.calls_returns terminal call_mem ret_mem, ret_mem⟩
  have tagged := role_ne_plain_iff.2 (.inr ret_mem)
  rcases grammar.exists_partner_assignRoles true tagged with ⟨call, found⟩
  refine ⟨call, ?_, found⟩
  rw [partner?_of_return ret] at found
  rcases List.mem_map.1 (InsertionOrder.mem_of_lookup_eq_some found) with ⟨pair, mem, swapped⟩
  cases swapped
  exact (grammar.roles_of_mem_pairs_assignRoles mem).1

end Dropping

end Rounds

/-- Assigning roles again from the same pairs, with nothing demoted, changes nothing. -/
theorem assignRoles_demoteUnmatched_of_unmatched_eq_nil
    (undemoted : (grammar.assignRoles false).unmatched = []) :
    (grammar.assignRoles false).demoteUnmatched.assignRoles false = grammar.assignRoles false := by
  rw [demoteUnmatched_eq_self undemoted]
  rfl

section SecondRound

variable {first : Grammar} {dropRejected : Bool}

theorem mem_plain_demoteUnmatched :
    terminal ∈ first.demoteUnmatched.plain ↔ terminal ∈ first.plain ∨ terminal ∈ first.unmatched :=
  InsertionOrder.mem_insertAll

/-- The terminals that a repair demotes are those that it takes a tag from. -/
theorem mem_unmatched_iff_role :
    terminal ∈ first.unmatched ↔
      first.role terminal ≠ .plain ∧ first.demoteUnmatched.role terminal = .plain := by
  have kept : first.demoteUnmatched.role terminal ≠ .plain ↔
      first.role terminal ≠ .plain ∧ terminal ∉ first.unmatched := by
    simp only [role_ne_plain_iff, demoteUnmatched, List.mem_filter, decide_eq_true_eq]
    tauto
  have tagged : terminal ∈ first.unmatched → first.role terminal ≠ .plain :=
    fun mem => (mem_unmatched.1 mem).2.1
  tauto

theorem not_mem_unmatched_of_role
    (tagged : (first.demoteUnmatched.assignRoles dropRejected).role terminal ≠ .plain) :
    terminal ∉ first.unmatched := by
  have apart := keepsRolesApart_assignRoles first.demoteUnmatched dropRejected
  intro demoted
  have plain : terminal ∈ first.demoteUnmatched.plain :=
    mem_plain_demoteUnmatched.2 (.inr demoted)
  rcases role_ne_plain_iff.1 tagged with call | ret
  · exact apart.calls_plain terminal call plain
  · exact apart.returns_plain terminal ret plain

/-- A terminal that keeps its role and its partner is no more often than the repair allowed. -/
theorem matches_of_partner_eq (kind : terminal.isTerminal)
    (tagged : (first.demoteUnmatched.assignRoles dropRejected).role terminal ≠ .plain)
    (role_eq : first.role terminal =
      (first.demoteUnmatched.assignRoles dropRejected).role terminal)
    (partner_eq : first.partner? terminal =
      (first.demoteUnmatched.assignRoles dropRejected).partner? terminal) :
    (first.demoteUnmatched.assignRoles dropRejected).Matches terminal := by
  rcases first.demoteUnmatched.exists_partner_assignRoles dropRejected tagged with ⟨partner, found⟩
  have found_first := partner_eq.trans found
  have tagged_first : first.role terminal ≠ .plain := by rwa [role_eq]
  have matched_first :=
    (matches_iff_of_partner kind tagged_first found_first).2 (not_mem_unmatched_of_role tagged)
  rcases matched_first with ⟨partner_first, found_first', fewer⟩
  refine ⟨partner_first, ?_, fewer⟩
  rw [← partner_eq, found_first']

section Dropping

variable (apart : first.KeepsRolesApart)
  (accepted : ∀ pair ∈ first.pairs, pair.1 ∈ first.calls ∧ pair.2 ∈ first.returns)

include accepted

theorem subset_assignRoles_demoteUnmatched :
    (first.demoteUnmatched.assignRoles true).calls ⊆ first.calls ∧
      (first.demoteUnmatched.assignRoles true).returns ⊆ first.returns := by
  rcases first.demoteUnmatched.exists_pair_assignRoles true with ⟨calls, returns⟩
  constructor
  · intro call call_mem
    rcases calls call call_mem with ⟨pair, mem, rfl⟩
    exact (accepted pair (first.demoteUnmatched.mem_pairs_assignRoles_true.1 mem).1).1
  · intro ret ret_mem
    rcases returns ret ret_mem with ⟨pair, mem, rfl⟩
    exact (accepted pair (first.demoteUnmatched.mem_pairs_assignRoles_true.1 mem).1).2

include apart

theorem role_assignRoles_demoteUnmatched
    (tagged : (first.demoteUnmatched.assignRoles true).role terminal ≠ .plain) :
    first.role terminal = (first.demoteUnmatched.assignRoles true).role terminal := by
  rcases subset_assignRoles_demoteUnmatched accepted with ⟨calls, returns⟩
  cases role_eq : (first.demoteUnmatched.assignRoles true).role terminal with
  | call => exact role_eq_call_iff_mem.2 (calls (role_eq_call_iff_mem.1 role_eq))
  | «return» =>
      have ret_mem := returns (role_eq_return_iff_mem.1 role_eq).2
      apply role_eq_return_iff_mem.2
      exact ⟨fun call_mem => apart.calls_returns terminal call_mem ret_mem, ret_mem⟩
  | plain => exact absurd role_eq tagged

/-- A pair stays in the table as long as both sides keep their tags. -/
theorem mem_pairs_assignRoles_demoteUnmatched (mem : pair ∈ first.pairs)
    (call_kept : pair.1 ∉ first.unmatched) (ret_kept : pair.2 ∉ first.unmatched) :
    pair ∈ (first.demoteUnmatched.assignRoles true).pairs := by
  rcases accepted pair mem with ⟨call_mem, ret_mem⟩
  rcases subset_assignRoles_demoteUnmatched accepted with ⟨calls, returns⟩
  rw [mem_pairs_assignRoles_iff_compatible]
  simp only [mem_plain_demoteUnmatched, not_or]
  refine ⟨mem, ?_, ⟨apart.calls_plain _ call_mem, call_kept⟩,
    ⟨apart.returns_plain _ ret_mem, ret_kept⟩,
    fun returned => apart.calls_returns _ call_mem (returns returned),
    fun called => apart.calls_returns _ (calls called) ret_mem⟩
  intro same
  apply apart.calls_returns _ call_mem
  rwa [same]

/-- The second round keeps exactly the pairs that the repair demoted no side of. -/
theorem pairs_assignRoles_demoteUnmatched :
    (first.demoteUnmatched.assignRoles true).pairs =
      first.pairs.filter fun pair => pair.1 ∉ first.unmatched ∧ pair.2 ∉ first.unmatched := by
  apply List.filter_congr
  intro pair mem
  rw [Bool.eq_iff_iff, decide_eq_true_iff]
  constructor
  · intro kept
    have stays : pair ∈ (first.demoteUnmatched.assignRoles true).pairs :=
      List.mem_filter.2 ⟨mem, kept⟩
    rw [mem_pairs_assignRoles_iff_compatible] at stays
    simp only [mem_plain_demoteUnmatched, not_or] at stays
    exact ⟨stays.2.2.1.2, stays.2.2.2.1.2⟩
  · rintro ⟨call_kept, ret_kept⟩
    exact (List.mem_filter.1
      (mem_pairs_assignRoles_demoteUnmatched apart accepted mem call_kept ret_kept)).2

theorem partner?_assignRoles_demoteUnmatched
    (tagged : (first.demoteUnmatched.assignRoles true).role terminal ≠ .plain)
    (found : first.partner? terminal = some partner) (partner_kept : partner ∉ first.unmatched) :
    (first.demoteUnmatched.assignRoles true).partner? terminal = some partner := by
  have role_eq := role_assignRoles_demoteUnmatched apart accepted tagged
  have kept := not_mem_unmatched_of_role tagged
  cases final_role : (first.demoteUnmatched.assignRoles true).role terminal with
  | call =>
      rw [partner?_of_call (role_eq.trans final_role)] at found
      rw [partner?_of_call final_role]
      apply returnOf?_of_filter rfl found
      exact mem_pairs_assignRoles_demoteUnmatched apart accepted
        (InsertionOrder.mem_of_lookup_eq_some found) kept partner_kept
  | «return» =>
      rw [partner?_of_return (role_eq.trans final_role)] at found
      rw [partner?_of_return final_role]
      apply callOf?_of_filter rfl found
      rcases List.mem_map.1 (InsertionOrder.mem_of_lookup_eq_some found) with ⟨pair, mem, swapped⟩
      cases swapped
      exact mem_pairs_assignRoles_demoteUnmatched apart accepted mem partner_kept kept
  | plain => exact absurd final_role tagged

end Dropping

end SecondRound

/--
After both rounds of tagging every tagged terminal has a partner, and it outnumbers it nowhere if
the second round left it the role and the partner that it had at the repair. When rejected pairs are
dropped, it keeps its role, and its partner as long as that was not demoted; when they are kept, it
keeps its partner with its role. So nothing is out of step when the repair demotes nothing.
-/
theorem matches_tag (grammar : Grammar) (dropRejected : Bool) :
    let first := grammar.harvest.assignRoles dropRejected
    let final := grammar.tag dropRejected
    (∀ terminal, final.role terminal ≠ .plain → (final.partner? terminal).isSome ∧
      (first.role terminal = final.role terminal →
        first.partner? terminal = final.partner? terminal → final.Matches terminal)) ∧
    (dropRejected = true → ∀ terminal, final.role terminal ≠ .plain →
      first.role terminal = final.role terminal ∧
        ∀ partner, first.partner? terminal = some partner → partner ∉ first.unmatched →
          final.partner? terminal = some partner) ∧
    (dropRejected = false → ∀ terminal, first.role terminal = final.role terminal →
      first.partner? terminal = final.partner? terminal) ∧
    (first.unmatched = [] → ∀ terminal, final.role terminal ≠ .plain → final.Matches terminal) ∧
    (final.unmatched = [] ↔ ∀ terminal, final.role terminal ≠ .plain → final.Matches terminal) := by
  intro first final
  have terminals : final.TagsTerminals := grammar.tagsTerminals_tag dropRejected
  have apart : first.KeepsRolesApart := keepsRolesApart_assignRoles _ _
  have partnered (terminal : Symbol) (tagged : final.role terminal ≠ .plain) :
      ∃ partner, final.partner? terminal = some partner :=
    exists_partner_assignRoles _ dropRejected tagged
  have alike (terminal : Symbol) (tagged : final.role terminal ≠ .plain)
      (role_eq : first.role terminal = final.role terminal)
      (partner_eq : first.partner? terminal = final.partner? terminal) : final.Matches terminal :=
    matches_of_partner_eq (terminals.isTerminal_of_role tagged) tagged role_eq partner_eq
  have dropping : dropRejected = true → ∀ terminal, final.role terminal ≠ .plain →
      first.role terminal = final.role terminal ∧
        ∀ partner, first.partner? terminal = some partner → partner ∉ first.unmatched →
          final.partner? terminal = some partner := by
    rintro rfl terminal tagged
    have accepted (pair : TerminalPair) (mem : pair ∈ first.pairs) :=
      grammar.harvest.roles_of_mem_pairs_assignRoles mem
    refine ⟨role_assignRoles_demoteUnmatched apart accepted tagged, ?_⟩
    exact fun partner found kept =>
      partner?_assignRoles_demoteUnmatched apart accepted tagged found kept
  have keeping : dropRejected = false → ∀ terminal, first.role terminal = final.role terminal →
      first.partner? terminal = final.partner? terminal := by
    rintro rfl terminal role_eq
    have pairs_eq : final.pairs = first.pairs := first.demoteUnmatched.pairs_assignRoles_false
    simp only [partner?, partnerAmong, role_eq, returnOf?, callOf?, pairs_eq]
  refine ⟨?_, dropping, keeping, ?_, unmatched_eq_nil_iff terminals partnered⟩
  · exact fun terminal tagged =>
      ⟨Option.isSome_iff_exists.2 (partnered terminal tagged), alike terminal tagged⟩
  · intro undemoted terminal tagged
    cases dropRejected with
    | true =>
        rcases dropping rfl terminal tagged with ⟨role_eq, partner_eq⟩
        have tagged_first : first.role terminal ≠ .plain := by rwa [role_eq]
        rcases exists_partner_assignRoles _ true tagged_first with ⟨partner, found⟩
        apply alike terminal tagged role_eq
        rw [found, partner_eq partner found (by simp [undemoted])]
    | false =>
        have final_eq : final = first := assignRoles_demoteUnmatched_of_unmatched_eq_nil undemoted
        apply alike terminal tagged
        · rw [final_eq]
        · rw [final_eq]

/-- Three terminals that follow each other, the last two of them with a fourth, and parentheses. -/
def overlapping : Description :=
  { start := some "s"
    terminals := ["A", "B", "C", "D", "(", ")"]
    rules :=
      [("s",
          [[.bare ⟨"A", .terminal⟩, .bare ⟨"B", .terminal⟩, .bare ⟨"C", .terminal⟩],
            [.bare ⟨"B", .terminal⟩, .bare ⟨"C", .terminal⟩, .bare ⟨"D", .terminal⟩],
            [.bare ⟨"(", .terminal⟩, .bare ⟨"s", .nonterminal⟩, .bare ⟨")", .terminal⟩]])] }

/-- The repair demotes a terminal, and the parentheses match all the same. -/
theorem matches_tag_overlapping :
    ((overlapping.toGrammar "s").harvest.assignRoles true).unmatched = [⟨"C", .terminal⟩] ∧
      ((overlapping.toGrammar "s").tag true).Matches ⟨"(", .terminal⟩ := by
  refine ⟨by decide, ?_⟩
  have tagged : ((overlapping.toGrammar "s").tag true).role ⟨"(", .terminal⟩ ≠ .plain := by decide
  rcases matches_tag (overlapping.toGrammar "s") true with ⟨alike, _⟩
  exact (alike ⟨"(", .terminal⟩ tagged).2 (by decide) (by decide)

/-- `B` is tagged with another partner or another role than at the repair, and outnumbers it. -/
theorem mismatch_overlapping :
    overlapping.resolve = .ok (overlapping.toGrammar "s") ∧
      ((overlapping.toGrammar "s").tag true).unmatched = [⟨"B", .terminal⟩] ∧
      ((overlapping.toGrammar "s").tag false).unmatched = [⟨"B", .terminal⟩] := by
  decide

/--
With rejected pairs dropped, the second round leaves of the pair table what the repair demoted no
side of, and the tagged terminals are the sides of those pairs. So terminals lose their tags between
the rounds but get no other role, and the partner of a call is a return, that of a return a call.
-/
theorem tag_restricts_first_round (grammar : Grammar) :
    let first := grammar.harvest.assignRoles true
    let demoted := first.unmatched
    let final := grammar.tag true
    (∀ terminal, terminal ∈ demoted ↔
      first.role terminal ≠ .plain ∧ first.demoteUnmatched.role terminal = .plain) ∧
    final.pairs = first.pairs.filter (fun pair => pair.1 ∉ demoted ∧ pair.2 ∉ demoted) ∧
    (∀ call, call ∈ final.calls ↔ ∃ pair ∈ final.pairs, pair.1 = call) ∧
    (∀ ret, ret ∈ final.returns ↔ ∃ pair ∈ final.pairs, pair.2 = ret) ∧
    (final.calls ⊆ first.calls ∧ final.returns ⊆ first.returns) ∧
    (∀ terminal, final.role terminal = .plain ∨ final.role terminal = first.role terminal) ∧
    (∀ call ∈ final.calls, ∃ ret ∈ final.returns, final.partner? call = some ret) ∧
    (∀ ret ∈ final.returns, ∃ call ∈ final.calls, final.partner? ret = some call) := by
  intro first demoted final
  have apart : first.KeepsRolesApart := keepsRolesApart_assignRoles _ _
  have accepted (pair : TerminalPair) (mem : pair ∈ first.pairs) :
      pair.1 ∈ first.calls ∧ pair.2 ∈ first.returns :=
    grammar.harvest.roles_of_mem_pairs_assignRoles mem
  refine ⟨fun _ => mem_unmatched_iff_role, pairs_assignRoles_demoteUnmatched apart accepted,
    fun _ => mem_calls_iff_exists_pair _, fun _ => mem_returns_iff_exists_pair _,
    subset_assignRoles_demoteUnmatched accepted, ?_, fun _ => exists_return_of_mem_calls _,
    fun _ => exists_call_of_mem_returns _⟩
  intro terminal
  by_cases tagged : final.role terminal = .plain
  · exact .inl tagged
  · exact .inr (role_assignRoles_demoteUnmatched apart accepted tagged).symm

end Grammar

end VisiblyPushdown
