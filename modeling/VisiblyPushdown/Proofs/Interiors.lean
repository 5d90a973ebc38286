import VisiblyPushdown.Proofs.SecondRound
import VisiblyPushdown.Proofs.Shortening

/-!
# What stands around a span

Which spans a run to simple form moves out of the alternatives does not depend on the nonterminals
that stand for them: the brackets are fixed before the run starts. So the moves of a run can be
listed, and replaying them gives the run back.

Every span that is moved stands between a call and the return of the first pair of this call in the
pair table. When rejected pairs are dropped from the table, the first pair is one that the tagging
has accepted. When they are kept, it may have been rejected, and then what closes the span is plain
or a call itself.
-/

namespace VisiblyPushdown

namespace SpanExtraction

/-- The place of a span that is moved out of an alternative. -/
structure Move where
  before : Alternative
  opening : Occurrence
  behind : Alternative
  length : Nat

namespace Move

/-- What is moved. -/
def span (move : Move) : Alternative :=
  move.behind.take move.length

/-- The alternative that the span stands in. -/
def alternative (move : Move) : Alternative :=
  move.before ++ move.opening :: move.behind

end Move

/-- What is done to one rule: which spans are moved, and what the alternatives become. -/
structure Visit where
  symbol : Symbol
  moves : List Move
  shortened : List Alternative

/-- Moves a span into the nonterminal that stands for it. -/
def perform (extraction : SpanExtraction) (move : Move) : SpanExtraction :=
  (extraction.extract move.span).2

/-- Takes a rule out, moves the spans and puts the shortened rule back. -/
def replay (extraction : SpanExtraction) (visit : Visit) : SpanExtraction :=
  (visit.moves.foldl perform (extraction.withAlternatives visit.symbol [])).withAlternatives
    visit.symbol visit.shortened

/-- The moves in what is left of an alternative behind the occurrences that were passed. -/
def movesOf (brackets : List TerminalPair) (before : Alternative) :
    (skip : Nat) → Alternative → List Move
  | _, [] => []
  | skip + 1, occurrence :: rest => movesOf brackets (before ++ [occurrence]) skip rest
  | 0, occurrence :: rest =>
    match spanLength? brackets occurrence.symbol rest with
    | some length =>
      ⟨before, occurrence, rest, length⟩ :: movesOf brackets (before ++ [occurrence]) length rest
    | none => movesOf brackets (before ++ [occurrence]) 0 rest

/-- What shortening the rule of a nonterminal does. -/
def visit (brackets : List TerminalPair) (extraction : SpanExtraction) (symbol : Symbol) :
    Visit where
  symbol := symbol
  moves := (extraction.grammar.alternatives symbol).flatMap (movesOf brackets [] 0)
  shortened := (shortenEach brackets [] (extraction.withAlternatives symbol [])
    (extraction.grammar.alternatives symbol)).1

/-- What shortening the rules of a queue does, rule by rule. -/
def trace (brackets : List TerminalPair) (extraction : SpanExtraction) :
    (rules : Nat) → (queue : List Symbol) → List Visit
  | 0, _ => []
  | _ + 1, [] => []
  | rules + 1, symbol :: queue =>
    let next := extraction.shortenRule brackets symbol
    let created := (next.spans.drop extraction.spans.length).map Prod.fst
    extraction.visit brackets symbol :: next.trace brackets rules (queue ++ created)

variable {brackets : List TerminalPair} {extraction : SpanExtraction} {move : Move}

theorem foldl_perform_movesOf (before : Alternative) (skip : Nat) (alternative : Alternative) :
    (movesOf brackets before skip alternative).foldl perform extraction =
      (extraction.shorten brackets skip alternative).2 := by
  induction alternative generalizing extraction before skip with
  | nil => simp [movesOf, shorten]
  | cons occurrence rest ih =>
      cases skip with
      | succ skip => exact ih _ skip
      | zero =>
          cases found : spanLength? brackets occurrence.symbol rest with
          | none =>
              simp only [movesOf, shorten, found]
              exact ih _ 0
          | some length =>
              simp only [movesOf, shorten, found, List.foldl_cons]
              exact ih _ length

theorem foldl_perform_flatMap (finished alternatives : List Alternative) :
    (alternatives.flatMap (movesOf brackets [] 0)).foldl perform extraction =
      (shortenEach brackets finished extraction alternatives).2 := by
  induction alternatives generalizing extraction finished with
  | nil => rfl
  | cons alternative rest ih =>
      rw [List.flatMap_cons, List.foldl_append, foldl_perform_movesOf, shortenEach_cons, ih]

theorem replay_visit (symbol : Symbol) :
    extraction.replay (extraction.visit brackets symbol) =
      extraction.shortenRule brackets symbol := by
  rw [replay, visit, foldl_perform_flatMap [], shortenRule_eq]

/-- Replaying what is done rule by rule gives the run back. -/
theorem foldl_replay_trace (rules : Nat) (queue : List Symbol) :
    (extraction.trace brackets rules queue).foldl replay extraction =
      extraction.shortenAll brackets rules queue := by
  induction rules generalizing extraction queue with
  | zero => rfl
  | succ rules ih =>
      cases queue with
      | nil => rfl
      | cons symbol queue =>
          rw [trace, List.foldl_cons, replay_visit, ih]
          rfl

/-- What is done to a rule is determined by what the grammar has become by then. -/
theorem visit_eq_of_trace {rules : Nat} {queue : List Symbol} {earlier later : List Visit}
    {done : Visit} (split : extraction.trace brackets rules queue = earlier ++ done :: later) :
    done = (earlier.foldl replay extraction).visit brackets done.symbol := by
  induction rules generalizing extraction queue earlier with
  | zero => simp [trace] at split
  | succ rules ih =>
      cases queue with
      | nil => simp [trace] at split
      | cons symbol queue =>
          rw [trace] at split
          cases earlier with
          | nil =>
              rw [List.nil_append, List.cons.injEq] at split
              rw [← split.1]
              rfl
          | cons first earlier =>
              rw [List.cons_append, List.cons.injEq] at split
              rw [List.foldl_cons, ← split.1, replay_visit]
              exact ih split.2

/-- A span that is moved has a bracket on either side. -/
theorem brackets_of_mem_movesOf {before : Alternative} {skip : Nat} {alternative : Alternative}
    (mem : move ∈ movesOf brackets before skip alternative) :
    move.alternative = before ++ alternative ∧ 2 ≤ move.span.length ∧
      ∃ closing after, move.behind = move.span ++ closing :: after ∧
        brackets.lookup move.opening.symbol = some closing.symbol := by
  induction alternative generalizing before skip with
  | nil => simp [movesOf] at mem
  | cons occurrence rest ih =>
      have later {skip : Nat} (mem : move ∈ movesOf brackets (before ++ [occurrence]) skip rest) :=
        ih mem
      rw [List.append_assoc, List.singleton_append] at later
      cases skip with
      | succ skip => exact later mem
      | zero =>
          rw [movesOf] at mem
          split at mem
          · next length found =>
              rcases List.mem_cons.1 mem with rfl | mem
              · rcases exists_drop_of_spanLength? found with ⟨closing, after, drop_eq, bracketed⟩
                refine ⟨rfl, two_le_length_of_spanLength? found, closing, after, ?_, bracketed⟩
                rw [Move.span, ← drop_eq, List.take_append_drop]
              · exact later mem
          · exact later mem

theorem isTaggedLike_foldl {α : Type} {step : SpanExtraction → α → SpanExtraction}
    (keeps : ∀ extraction item,
      (step extraction item).grammar.IsTaggedLike extraction.grammar) (items : List α) :
    (items.foldl step extraction).grammar.IsTaggedLike extraction.grammar := by
  induction items generalizing extraction with
  | nil => exact ⟨rfl, rfl, rfl, rfl⟩
  | cons item items ih => exact ih.trans (keeps extraction item)

theorem isTaggedLike_withAlternatives (extraction : SpanExtraction) (symbol : Symbol)
    (alternatives : List Alternative) :
    (extraction.withAlternatives symbol alternatives).grammar.IsTaggedLike extraction.grammar := by
  rw [withAlternatives_grammar_eq]
  exact ⟨rfl, rfl, rfl, rfl⟩

theorem isTaggedLike_perform (extraction : SpanExtraction) (move : Move) :
    (extraction.perform move).grammar.IsTaggedLike extraction.grammar := by
  unfold perform extract
  dsimp only
  split
  · exact ⟨rfl, rfl, rfl, rfl⟩
  · unfold Grammar.addAlternative Grammar.setAlternatives
    split <;> exact ⟨rfl, rfl, rfl, rfl⟩

theorem isTaggedLike_replay (extraction : SpanExtraction) (visit : Visit) :
    (extraction.replay visit).grammar.IsTaggedLike extraction.grammar :=
  (isTaggedLike_withAlternatives _ visit.symbol visit.shortened).trans
    ((isTaggedLike_foldl isTaggedLike_perform visit.moves).trans
      (isTaggedLike_withAlternatives extraction visit.symbol []))

end SpanExtraction

namespace Grammar

open SpanExtraction

variable {grammar : Grammar} {pair : TerminalPair} {dropRejected : Bool}

/-- A pair of a call that stays in the table is an accepted one unless its return is taken. -/
theorem mem_returns_assignRoles_iff (call_mem : pair.1 ∈ (grammar.assignRoles dropRejected).calls)
    (mem : pair ∈ (grammar.assignRoles dropRejected).pairs) :
    pair.2 ∈ (grammar.assignRoles dropRejected).returns ↔
      pair.2 ∉ (grammar.assignRoles dropRejected).calls ∧
        pair.2 ∉ (grammar.assignRoles dropRejected).plain := by
  have apart := grammar.keepsRolesApart_assignRoles dropRejected
  constructor
  · exact fun ret_mem =>
      ⟨fun called => apart.calls_returns _ called ret_mem, apart.returns_plain _ ret_mem⟩
  · rintro ⟨not_called, taggable⟩
    have harvested : pair ∈ grammar.pairs := by
      cases dropRejected with
      | false => rwa [pairs_assignRoles_false] at mem
      | true => exact (grammar.mem_pairs_assignRoles_true.1 mem).1
    have accepted : grammar.assignment.Accepts pair := by
      apply (RoleAssignment.accepts_ofPairs_iff harvested).2
      apply RoleAssignment.contradicts_eq_false_iff.2
      simp only [OrderedSet.toList_ofList, InsertionOrder.mem_distinct]
      refine ⟨?_, apart.calls_plain _ call_mem, taggable, apart.calls_returns _ call_mem,
        not_called⟩
      exact fun same => not_called (same ▸ call_mem)
    rw [returns_assignRoles]
    exact accepted.2

/-- What closes a bracket of a tagged grammar is a return unless it is plain or a call itself. -/
theorem roles_of_lookup_brackets_tag {call ret : Symbol}
    (bracketed : (grammar.tag dropRejected).brackets.lookup call = some ret) :
    call ∈ (grammar.tag dropRejected).calls ∧
      (grammar.tag dropRejected).partner? call = some ret ∧
      (ret ∈ (grammar.tag dropRejected).returns ↔
        ret ∉ (grammar.tag dropRejected).calls ∧ ret ∉ (grammar.tag dropRejected).plain) ∧
      (dropRejected = true → ret ∈ (grammar.tag dropRejected).returns) := by
  rcases of_lookup_brackets bracketed with ⟨call_mem, pair_mem⟩
  rw [lookup_brackets, if_pos call_mem] at bracketed
  refine ⟨call_mem, ?_, mem_returns_assignRoles_iff call_mem pair_mem, ?_⟩
  · rw [partner?_of_call (role_eq_call_iff_mem.2 call_mem), bracketed]
  · rintro rfl
    exact (roles_of_mem_pairs_assignRoles _ pair_mem).2

/-- What is done to bring the grammar into simple form, rule by rule. -/
def visits (grammar : Grammar) : List Visit :=
  if grammar.calls.isEmpty then []
  else
    SpanExtraction.trace grammar.brackets { grammar }
      (grammar.reachable.length + grammar.callOccurrenceCount) grammar.reachable

theorem toSimpleForm_eq_replay (refreshed : grammar.IsRefreshed) :
    grammar.toSimpleForm.1 = (grammar.visits.foldl replay { grammar }).grammar.refresh := by
  unfold toSimpleForm visits
  split
  · rw [List.foldl_nil, refresh, ← refreshed.nonterminals_eq, ← refreshed.terminals_eq]
  · rw [foldl_replay_trace]

theorem visit_eq {earlier later : List Visit} {visit : Visit}
    (split : grammar.visits = earlier ++ visit :: later) :
    visit = (earlier.foldl replay { grammar }).visit grammar.brackets visit.symbol := by
  unfold visits at split
  split at split
  · simp at split
  · exact visit_eq_of_trace split

/-- Every span that is moved stands in an alternative of its rule, with a bracket around it. -/
theorem brackets_of_mem_moves {earlier later : List Visit} {visit : Visit} {move : Move}
    (split : grammar.visits = earlier ++ visit :: later) (mem : move ∈ visit.moves) :
    move.alternative ∈ (earlier.foldl replay { grammar }).grammar.alternatives visit.symbol ∧
      ∃ closing after, move.behind = move.span ++ closing :: after ∧
        grammar.brackets.lookup move.opening.symbol = some closing.symbol := by
  rw [visit_eq split] at mem
  rcases List.mem_flatMap.1 mem with ⟨alternative, alternative_mem, move_mem⟩
  rcases brackets_of_mem_movesOf move_mem with ⟨alternative_eq, _, bracketed⟩
  rw [List.nil_append] at alternative_eq
  exact ⟨alternative_eq ▸ alternative_mem, bracketed⟩

end Grammar

namespace Settings

open SpanExtraction

/--
Bringing a tagged grammar into simple form moves spans that stand, in an alternative of the rule
that is shortened, between a call and the partner of this call. The partner is a return unless it
is plain or a call itself, and it is always a return when rejected pairs are dropped.
-/
theorem interiors_tag (settings : Settings) (grammar : Grammar)
    (simplifies : settings.simplify = true) :
    let tagged := grammar.withoutLeftRecursion.tag settings.removeContradictions
    let final := (settings.tag grammar).grammar
    final = (tagged.visits.foldl replay { grammar := tagged }).grammar.refresh ∧
      ∀ earlier visit later, tagged.visits = earlier ++ visit :: later → ∀ move ∈ visit.moves,
        move.alternative ∈
          (earlier.foldl replay { grammar := tagged }).grammar.alternatives visit.symbol ∧
        ∃ closing after, move.behind = move.span ++ closing :: after ∧
          move.opening.symbol ∈ final.calls ∧
          final.partner? move.opening.symbol = some closing.symbol ∧
          (closing.symbol ∈ final.returns ↔
            closing.symbol ∉ final.calls ∧ closing.symbol ∉ final.plain) ∧
          (settings.removeContradictions = true → closing.symbol ∈ final.returns) := by
  intro tagged final
  have final_eq : final = (tagged.visits.foldl replay { grammar := tagged }).grammar.refresh := by
    have run := Grammar.toSimpleForm_eq_replay
      (Grammar.isRefreshed_tag grammar.withoutLeftRecursion settings.removeContradictions)
    exact (grammar_tag settings grammar).trans ((if_pos simplifies).trans run)
  have like : final.IsTaggedLike tagged := by
    rw [final_eq]
    exact (Grammar.isTaggedLike_refresh _).trans
      (isTaggedLike_foldl isTaggedLike_replay tagged.visits)
  refine ⟨final_eq, fun earlier visit later split move mem => ?_⟩
  rcases Grammar.brackets_of_mem_moves split mem with
    ⟨alternative_mem, closing, after, behind_eq, bracketed⟩
  refine ⟨alternative_mem, closing, after, behind_eq, ?_⟩
  rw [like.calls_eq, like.returns_eq, like.plain_eq, like.partner?_eq]
  exact Grammar.roles_of_lookup_brackets_tag bracketed

/-- A long interior in front of a plain terminal, which is repeated elsewhere. -/
def trailed : Description :=
  { start := some "s"
    terminals := ["A", "R", "X", "N", "M"]
    rules :=
      [("s",
          [[.bare ⟨"A", .terminal⟩, .bare ⟨"x", .nonterminal⟩, .bare ⟨"y", .nonterminal⟩,
              .bare ⟨"R", .terminal⟩, .bare ⟨"X", .terminal⟩],
            [⟨⟨"X", .terminal⟩, .star⟩]]),
        ("x", [[.bare ⟨"N", .terminal⟩]]),
        ("y", [[.bare ⟨"M", .terminal⟩]])] }

/-- With rejected pairs dropped, `x y` is moved, which stands between `A` and `R`. -/
theorem interiors_tag_trailed :
    let tagged := (trailed.toGrammar "s").withoutLeftRecursion.tag true
    let final := (tag {} (trailed.toGrammar "s")).grammar
    ∃ move ∈ tagged.visits.flatMap Visit.moves,
      move.span = [.bare ⟨"x", .nonterminal⟩, .bare ⟨"y", .nonterminal⟩] ∧
        ∃ ret ∈ final.returns, final.partner? move.opening.symbol = some ret := by
  intro tagged final
  have moved : ∃ move ∈ tagged.visits.flatMap Visit.moves,
      move.span = [.bare ⟨"x", .nonterminal⟩, .bare ⟨"y", .nonterminal⟩] := by decide
  rcases moved with ⟨move, mem, span_eq⟩
  rcases List.mem_flatMap.1 mem with ⟨visit, visit_mem, move_mem⟩
  rcases List.append_of_mem visit_mem with ⟨earlier, later, visits_eq⟩
  rcases interiors_tag {} (trailed.toGrammar "s") rfl with ⟨_, between⟩
  rcases between earlier visit later visits_eq move move_mem with
    ⟨_, closing, _, _, _, partner, _, returns⟩
  exact ⟨move, mem, span_eq, closing.symbol, returns rfl, partner⟩

/-- With rejected pairs kept, the span between `A` and the plain `X` is moved, and `R` with it. -/
theorem interior_not_closed_trailed :
    trailed.resolve = .ok (trailed.toGrammar "s") ∧
      let settings : Settings := { removeContradictions := false }
      let tagged := (trailed.toGrammar "s").withoutLeftRecursion.tag false
      let final := (settings.tag (trailed.toGrammar "s")).grammar
      settings.simplify = true ∧
        final.calls = [⟨"A", .terminal⟩] ∧ final.returns = [⟨"R", .terminal⟩] ∧
        (∃ move ∈ tagged.visits.flatMap Visit.moves,
          move.behind = move.span ++ [.bare ⟨"X", .terminal⟩]) ∧
        final.alternatives final.start =
          [[.bare ⟨"A", .terminal⟩, .bare ⟨"_L_x_y_R", .nonterminal⟩, .bare ⟨"X", .terminal⟩],
            [⟨⟨"X", .terminal⟩, .star⟩]] := by
  decide

end Settings

end VisiblyPushdown
