import VisiblyPushdown.Proofs.SecondRound

/-!
# One repair is enough

A repair takes the tag from the terminals that outnumber their partner in some alternative within
reach. A terminal that keeps its tag keeps its role and, as the pair table stays as it is, its
partner, whether or not the partner has lost its tag. How often the two occur has nothing to do with
tags. So what a second repair would demote the first one has demoted already.
-/

namespace VisiblyPushdown.Grammar

variable {grammar : Grammar} {terminal : Symbol}

/-- How often the partner of a terminal stands in an alternative without a mark, if it has one. -/
def partnerCount (grammar : Grammar) (alternative : Alternative) (terminal : Symbol) : Nat :=
  ((grammar.partner? terminal).map alternative.bareCount).getD 0

/--
Whether a terminal stands in some alternative within reach more often than its partner; occurrences
with a mark do not count, and a terminal without a partner may not stand there at all.
-/
def Outnumbers (grammar : Grammar) (terminal : Symbol) : Prop :=
  ∃ symbol, grammar.Reaches grammar.start symbol ∧
    ∃ alternative ∈ grammar.alternatives symbol,
      grammar.partnerCount alternative terminal < alternative.bareCount terminal

theorem outnumbers_iff :
    grammar.Outnumbers terminal ↔ ∃ alternative ∈ grammar.reachableAlternatives,
      grammar.partnerCount alternative terminal < alternative.bareCount terminal := by
  simp only [Outnumbers, reachableAlternatives, List.mem_flatMap, mem_reachable]
  constructor
  · rintro ⟨symbol, reached, alternative, mem, more⟩
    exact ⟨alternative, ⟨symbol, reached, mem⟩, more⟩
  · rintro ⟨alternative, ⟨symbol, reached, mem⟩, more⟩
    exact ⟨symbol, reached, alternative, mem, more⟩

theorem mem_unmatched_iff_outnumbers (kind : terminal.isTerminal)
    (tagged : grammar.role terminal ≠ .plain) :
    terminal ∈ grammar.unmatched ↔ grammar.Outnumbers terminal := by
  rw [mem_unmatched, outnumbers_iff]
  exact ⟨fun ⟨_, _, more⟩ => more, fun more => ⟨kind, tagged, more⟩⟩

theorem mem_demoteUnmatched :
    (terminal ∈ grammar.demoteUnmatched.calls ↔
      terminal ∈ grammar.calls ∧ terminal ∉ grammar.unmatched) ∧
    (terminal ∈ grammar.demoteUnmatched.returns ↔
      terminal ∈ grammar.returns ∧ terminal ∉ grammar.unmatched) := by
  simp [demoteUnmatched]

theorem role_demoteUnmatched (kept : terminal ∉ grammar.unmatched) :
    grammar.demoteUnmatched.role terminal = grammar.role terminal := by
  simp [role, demoteUnmatched, kept]

theorem partner?_demoteUnmatched (kept : terminal ∉ grammar.unmatched) :
    grammar.demoteUnmatched.partner? terminal = grammar.partner? terminal := by
  rw [partner?, partner?, partnerAmong, partnerAmong, role_demoteUnmatched kept]
  rfl

/-- Whom a second repair would demote the first one has demoted. -/
theorem unmatched_demoteUnmatched (grammar : Grammar) : grammar.demoteUnmatched.unmatched = [] := by
  apply List.eq_nil_iff_forall_not_mem.2
  intro terminal demoted
  rcases mem_unmatched.1 demoted with ⟨kind, tagged, more⟩
  have kept : terminal ∉ grammar.unmatched :=
    fun first => tagged (mem_unmatched_iff_role.1 first).2
  rw [role_demoteUnmatched kept] at tagged
  rw [partner?_demoteUnmatched kept] at more
  exact kept (mem_unmatched.2 ⟨kind, tagged, more⟩)

/--
After one repair no tagged terminal outnumbers its partner in the pair table, which is as it was.
The terminals that lose their tag, and become plain, are exactly those that outnumbered theirs. A
second repair changes nothing at all.
-/
theorem demoteUnmatched_settles (grammar : Grammar) :
    let repaired := grammar.demoteUnmatched
    repaired.pairs = grammar.pairs ∧
    (∀ terminal, terminal.isTerminal → terminal ∈ repaired.calls ∨ terminal ∈ repaired.returns →
      ∀ symbol, repaired.Reaches repaired.start symbol →
        ∀ alternative ∈ repaired.alternatives symbol,
          alternative.bareCount terminal ≤ repaired.partnerCount alternative terminal) ∧
    (∀ terminal, terminal.isTerminal →
      (terminal ∈ repaired.calls ↔ terminal ∈ grammar.calls ∧ ¬ grammar.Outnumbers terminal) ∧
      (terminal ∈ repaired.returns ↔ terminal ∈ grammar.returns ∧ ¬ grammar.Outnumbers terminal) ∧
      (terminal ∈ repaired.plain ↔ terminal ∈ grammar.plain ∨
        (terminal ∈ grammar.calls ∨ terminal ∈ grammar.returns) ∧ grammar.Outnumbers terminal)) ∧
    repaired.demoteUnmatched = repaired := by
  intro repaired
  have settled : repaired.unmatched = [] := grammar.unmatched_demoteUnmatched
  refine ⟨rfl, ?_, ?_, demoteUnmatched_eq_self settled⟩
  · intro terminal kind tagged symbol reached alternative mem
    by_contra fewer
    have outnumbers : repaired.Outnumbers terminal :=
      ⟨symbol, reached, alternative, mem, Nat.lt_of_not_le fewer⟩
    rw [← mem_unmatched_iff_outnumbers kind (role_ne_plain_iff.2 tagged), settled] at outnumbers
    exact List.not_mem_nil outnumbers
  · intro terminal kind
    have demoted (tagged : terminal ∈ grammar.calls ∨ terminal ∈ grammar.returns) :=
      mem_unmatched_iff_outnumbers kind (role_ne_plain_iff.2 tagged)
    refine ⟨?_, ?_, ?_⟩
    · rw [mem_demoteUnmatched.1]
      exact and_congr_right fun call => not_congr (demoted (.inl call))
    · rw [mem_demoteUnmatched.2]
      exact and_congr_right fun ret => not_congr (demoted (.inr ret))
    · rw [mem_plain_demoteUnmatched]
      apply or_congr_right
      constructor
      · intro mem
        have tagged := role_ne_plain_iff.1 (mem_unmatched.1 mem).2.1
        exact ⟨tagged, (demoted tagged).1 mem⟩
      · exact fun ⟨tagged, outnumbers⟩ => (demoted tagged).2 outnumbers

end VisiblyPushdown.Grammar
