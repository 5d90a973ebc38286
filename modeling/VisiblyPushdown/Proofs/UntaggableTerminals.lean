import VisiblyPushdown.Grammar.Tagging

/-!
# Untaggable terminals of an alternative

The walk that finds the untaggable terminals of an alternative decides at each place with what it
has seen so far: the terminals behind the place and those that are in some pair already.
`untaggable_eq` says that the outcome depends on neither. A terminal without a mark is untaggable
exactly if the alternative has no other terminal without a mark, wherever that would stand.
-/

namespace VisiblyPushdown.Alternative

variable {paired : SymbolSet} {alternative rest : Alternative} {occurrence : Occurrence}
  {terminal : Symbol}

theorem bareTerminals_cons_of_bare (bare : occurrence.isBareTerminal) :
    bareTerminals (occurrence :: rest) = occurrence.symbol :: bareTerminals rest := by
  simp [bareTerminals, bare]

theorem bareTerminals_cons_of_not_bare (marked : ¬occurrence.isBareTerminal) :
    bareTerminals (occurrence :: rest) = bareTerminals rest := by
  simp [bareTerminals, marked]

theorem symbol_mem_bareTerminals (mem : occurrence ∈ alternative)
    (bare : occurrence.isBareTerminal) : occurrence.symbol ∈ bareTerminals alternative :=
  List.mem_map_of_mem (List.mem_filter.2 ⟨mem, bare⟩)

/--
Whether an occurrence makes its terminal untaggable, given the terminals in pairs and the terminals
without a mark: it has a mark itself, or all of the latter are the same and it is in no pair.
-/
def isBarred (paired : SymbolSet) (bareTerminals : List Symbol) (occurrence : Occurrence) : Bool :=
  if occurrence.isBareTerminal then
    !paired.contains occurrence.symbol && bareTerminals.all (· = occurrence.symbol)
  else occurrence.symbol.isTerminal

theorem isBarred_of_bare (bare : occurrence.isBareTerminal) (terminals : List Symbol) :
    isBarred paired terminals occurrence =
      (!paired.contains occurrence.symbol && terminals.all (· = occurrence.symbol)) := by
  simp [isBarred, bare]

theorem isBarred_of_not_bare (marked : ¬occurrence.isBareTerminal) (terminals : List Symbol) :
    isBarred paired terminals occurrence = occurrence.symbol.isTerminal := by
  simp [isBarred, marked]

/-- One more occurrence of the only terminal without a mark makes no difference. -/
theorem isBarred_cons_of_alone (alone : ∀ other ∈ bareTerminals rest, other = terminal)
    (mem : occurrence ∈ rest) :
    isBarred paired (terminal :: bareTerminals rest) occurrence =
      isBarred paired (bareTerminals rest) occurrence := by
  by_cases bare : occurrence.isBareTerminal
  · have same := alone _ (symbol_mem_bareTerminals mem bare)
    simp [isBarred_of_bare bare, same]
  · simp [isBarred_of_not_bare bare]

/-- In front of a different terminal nothing without a mark is barred, and all of it is in pairs. -/
theorem isBarred_cons_of_partner {partner : Symbol} {later : SymbolSet}
    (partner_mem : partner ∈ bareTerminals rest) (different : partner ≠ terminal)
    (later_paired : ∀ other ∈ bareTerminals rest, later.contains other) (mem : occurrence ∈ rest) :
    isBarred paired (terminal :: bareTerminals rest) occurrence =
      isBarred later (bareTerminals rest) occurrence := by
  by_cases bare : occurrence.isBareTerminal
  · rw [isBarred_of_bare bare, isBarred_of_bare bare,
      later_paired _ (symbol_mem_bareTerminals mem bare)]
    simp only [List.all_cons, Bool.not_true, Bool.false_and, Bool.and_eq_false_iff,
      decide_eq_false_iff_not, List.all_eq_false, decide_eq_true_eq]
    by_cases same : terminal = occurrence.symbol
    · exact .inr (.inr ⟨partner, partner_mem, same ▸ different⟩)
    · exact .inr (.inl same)
  · rw [isBarred_of_not_bare bare, isBarred_of_not_bare bare]

theorem untaggableFrom_eq (paired : SymbolSet) (alternative : Alternative) :
    untaggableFrom paired alternative =
      (alternative.filter (isBarred paired alternative.bareTerminals)).map Occurrence.symbol := by
  induction alternative generalizing paired with
  | nil => rfl
  | cons occurrence rest ih =>
      by_cases bare : occurrence.isBareTerminal
      · rw [untaggableFrom, bareTerminals_cons_of_bare bare]
        simp only [bare, if_true, ih]
        generalize partners_eq : (bareTerminals rest).reverse.filter (· ≠ occurrence.symbol) =
          partners
        have mem_partners {other : Symbol} :
            other ∈ partners ↔ other ∈ bareTerminals rest ∧ other ≠ occurrence.symbol := by
          simp [← partners_eq]
        -- A terminal with a partner behind it puts every bare terminal behind it into a pair.
        -- Without one, those behind it are all the same as it, and `paired` stays as it is.
        cases partners with
        | nil =>
            have alone (other : Symbol) (mem : other ∈ bareTerminals rest) :
                other = occurrence.symbol :=
              Decidable.byContradiction fun different =>
                List.not_mem_nil (mem_partners.2 ⟨mem, different⟩)
            have itself : isBarred paired (occurrence.symbol :: bareTerminals rest) occurrence =
                !paired.contains occurrence.symbol := by
              simpa [isBarred_of_bare bare] using fun _ => alone
            have others : rest.filter (isBarred paired (occurrence.symbol :: bareTerminals rest)) =
                rest.filter (isBarred paired (bareTerminals rest)) :=
              List.filter_congr fun _ => isBarred_cons_of_alone alone
            by_cases found : paired.contains occurrence.symbol
            · simp [itself, found, others]
            · simp [itself, found, others]
        | cons partner partners =>
            rcases mem_partners.1 (List.mem_cons_self ..) with ⟨partner_mem, different⟩
            have later_paired (other : Symbol) (mem : other ∈ bareTerminals rest) :
                ((partner :: partners).foldl OrderedSet.insert
                  (paired.insert occurrence.symbol)).contains other := by
              rw [OrderedSet.contains_foldl_insert, OrderedSet.contains_insert]
              by_cases same : other = occurrence.symbol
              · exact .inl (.inr same)
              · exact .inr (mem_partners.2 ⟨mem, same⟩)
            generalize (partner :: partners).foldl OrderedSet.insert
              (paired.insert occurrence.symbol) = later at later_paired ⊢
            have itself :
                isBarred paired (occurrence.symbol :: bareTerminals rest) occurrence = false := by
              simpa [isBarred_of_bare bare] using fun _ => ⟨partner, partner_mem, different⟩
            have others : rest.filter (isBarred paired (occurrence.symbol :: bareTerminals rest)) =
                rest.filter (isBarred later (bareTerminals rest)) :=
              List.filter_congr fun _ => isBarred_cons_of_partner partner_mem different later_paired
            simp [itself, others]
      · rw [untaggableFrom, bareTerminals_cons_of_not_bare bare]
        cases kind : occurrence.symbol.isTerminal with
        | true => simp [bare, kind, ih, isBarred_of_not_bare bare]
        | false => simp [bare, kind, ih, isBarred_of_not_bare bare]

/-- The untaggable terminals of an alternative, with no regard to the order of the walk. -/
theorem untaggable_eq (alternative : Alternative) :
    alternative.untaggable =
      (alternative.filter (isBarred .empty alternative.bareTerminals)).map Occurrence.symbol :=
  untaggableFrom_eq .empty alternative

theorem isBarred_empty_iff {terminals : List Symbol} :
    isBarred .empty terminals occurrence ↔ occurrence.symbol.isTerminal ∧
      (occurrence.repetition ≠ .once ∨ ∀ other ∈ terminals, other = occurrence.symbol) := by
  unfold isBarred
  split
  · next bare =>
    simp only [Occurrence.isBareTerminal, Bool.and_eq_true, decide_eq_true_eq] at bare
    simp [bare]
  · next marked =>
    simp only [Occurrence.isBareTerminal, Bool.and_eq_true, decide_eq_true_eq, not_and] at marked
    exact ⟨fun terminal => ⟨terminal, .inl (marked terminal)⟩, And.left⟩

end VisiblyPushdown.Alternative
