import Mathlib.Algebra.Group.Nat.Even
import VisiblyPushdown.Proofs.TokenSpans

/-!
# Where comments end

A star in a block comment hides the character behind it, so the stars in front of a slash hide each
other in pairs. The delimiter that closes a comment is the first one with an even number of further
stars directly in front of it. This is the first delimiter of all unless that one stands behind an
odd number of stars. A comment without such a delimiter is garbage up to the end of the text.
-/

namespace VisiblyPushdown.Source

/-- The number of stars at the end of a text. -/
def trailingStars (text : List Char) : Nat :=
  (text.reverse.takeWhile (· = '*')).length

/-- Whether the first `*/` in a text that counts stands behind `body`. -/
structure ClosesFirst (counts : List Char → Prop) (text body : List Char) : Prop where
  closes : body ++ ['*', '/'] <+: text
  counted : counts body
  first : ∀ other, other ++ ['*', '/'] <+: text → counts other → body.length ≤ other.length

/-- Whether the first `*/` in a text stands behind `body`. -/
abbrev IsFirstDelimiter : (text body : List Char) → Prop :=
  ClosesFirst fun _ => True

/-- Whether the first `*/` with an even number of stars directly in front of it stands there. -/
abbrev IsFirstUnhidden : (text body : List Char) → Prop :=
  ClosesFirst fun body => Even (trailingStars body)

section Stars

variable {front : List Char} {char hidden : Char}

theorem trailingStars_star (front : List Char) :
    trailingStars (front ++ ['*']) = trailingStars front + 1 := by
  simp [trailingStars]

theorem trailingStars_other (front : List Char) (not_star : char ≠ '*') :
    trailingStars (front ++ [char]) = 0 := by
  simp [trailingStars, not_star]

theorem even_trailingStars_other (front : List Char) (not_star : char ≠ '*') :
    Even (trailingStars (front ++ [char])) := by
  rw [trailingStars_other front not_star]
  exact Even.zero

/-- A star and the character that it hides leave the stars in pairs. -/
theorem even_trailingStars_hidden (even : Even (trailingStars front)) (hidden : Char) :
    Even (trailingStars (front ++ ['*', hidden])) := by
  have front_eq : front ++ ['*', hidden] = front ++ ['*'] ++ [hidden] := by simp
  rw [front_eq]
  by_cases star : hidden = '*'
  · rw [star, trailingStars_star, trailingStars_star]
    rwa [Nat.even_add_one, Nat.even_add_one, not_not]
  · exact even_trailingStars_other _ star

end Stars

namespace ClosesFirst

variable {counts : List Char → Prop} {text passed body other : List Char}

theorem length_eq (closes : ClosesFirst counts text body) (others : ClosesFirst counts text other) :
    body.length = other.length :=
  Nat.le_antisymm (closes.first other others.closes others.counted)
    (others.first body closes.closes closes.counted)

theorem unique (closes : ClosesFirst counts text body) (others : ClosesFirst counts text other) :
    body = other := by
  have starts := (List.prefix_append body ['*', '/']).trans closes.closes
  have other_starts := (List.prefix_append other ['*', '/']).trans others.closes
  exact (List.prefix_of_prefix_length_le starts other_starts
    (closes.length_eq others).le).eq_of_length (closes.length_eq others)

/-- It is enough to look at the beginnings of the text that are shorter. -/
theorem iff_take : ClosesFirst counts text body ↔ body ++ ['*', '/'] <+: text ∧ counts body ∧
    ∀ length < body.length, text.take length ++ ['*', '/'] <+: text →
      ¬ counts (text.take length) := by
  constructor
  · intro whole
    refine ⟨whole.closes, whole.counted, ?_⟩
    intro length shorter closes counted
    have length_le := whole.first _ closes counted
    have body_le := whole.closes.length_le
    simp only [List.length_append, List.length_take] at length_le body_le
    omega
  · rintro ⟨closes, counted, first⟩
    refine ⟨closes, counted, ?_⟩
    intro other other_closes other_counted
    by_contra shorter
    have other_eq := List.prefix_iff_eq_take.1
      ((List.prefix_append other ['*', '/']).trans other_closes)
    apply first other.length (Nat.lt_of_not_le shorter)
    · rwa [← other_eq]
    · rwa [← other_eq]

instance [DecidablePred counts] : Decidable (ClosesFirst counts text body) :=
  decidable_of_iff' _ iff_take

/-- Nothing changes when text is put in front in which no delimiter that counts begins. -/
theorem append_iff (skips : ∀ other, other ++ ['*', '/'] <+: passed ++ text → counts other →
    passed.length ≤ other.length) :
    ClosesFirst counts (passed ++ text) body ↔
      ∃ rest, body = passed ++ rest ∧
        ClosesFirst (fun rest => counts (passed ++ rest)) text rest := by
  have split {other : List Char} (closes : other ++ ['*', '/'] <+: passed ++ text)
      (counted : counts other) :
      ∃ rest, other = passed ++ rest ∧ rest ++ ['*', '/'] <+: text := by
    have starts := (List.prefix_append other ['*', '/']).trans closes
    rcases List.prefix_of_prefix_length_le (List.prefix_append passed text) starts
      (skips other closes counted) with ⟨rest, rfl⟩
    rw [List.append_assoc, List.prefix_append_right_inj] at closes
    exact ⟨rest, rfl, closes⟩
  constructor
  · intro whole
    rcases split whole.closes whole.counted with ⟨rest, rfl, closes⟩
    refine ⟨rest, rfl, closes, whole.counted, ?_⟩
    intro other other_closes counted
    have length_le := whole.first (passed ++ other)
      (by rwa [List.append_assoc, List.prefix_append_right_inj]) counted
    simpa using length_le
  · rintro ⟨rest, rfl, inner⟩
    refine ⟨?_, inner.counted, ?_⟩
    · rw [List.append_assoc, List.prefix_append_right_inj]
      exact inner.closes
    · intro other closes counted
      rcases split closes counted with ⟨others, rfl, others_close⟩
      have length_le := inner.first others others_close counted
      simpa using length_le

/-- Where a text closes that has some passed characters in front. -/
theorem exists_length_iff {length : Nat}
    (skips : ∀ other, other ++ ['*', '/'] <+: passed ++ text → counts other →
      passed.length ≤ other.length) :
    (∃ inner, (∃ rest, inner = rest.length + 2 ∧
        ClosesFirst (fun rest => counts (passed ++ rest)) text rest) ∧
      inner + passed.length = length) ↔
      ∃ body, length = body.length + 2 ∧ ClosesFirst counts (passed ++ text) body := by
  constructor
  · rintro ⟨_, ⟨rest, rfl, closes⟩, rfl⟩
    refine ⟨passed ++ rest, ?_, (append_iff skips).2 ⟨rest, rfl, closes⟩⟩
    rw [List.length_append]
    omega
  · rintro ⟨_, rfl, closes⟩
    rcases (append_iff skips).1 closes with ⟨rest, rfl, inner⟩
    refine ⟨_, ⟨rest, rfl, inner⟩, ?_⟩
    rw [List.length_append]
    omega

end ClosesFirst

section Length

variable {rest : List Char} {length : Nat}

/-- The scan of a comment goes from one place to the next at which the stars so far are in pairs. -/
theorem commentLength?_eq_some_iff_of_even {front : List Char}
    (even : Even (trailingStars front)) :
    commentLength? rest = some length ↔ ∃ body, length = body.length + 2 ∧
      ClosesFirst (fun body => Even (trailingStars (front ++ body))) rest body := by
  fun_induction commentLength? rest generalizing front length with
  | case1 =>
      constructor
      · intro closed
        cases closed
      · rintro ⟨body, _, closes, _⟩
        simp at closes
  | case2 rest =>
      have here : ClosesFirst (fun body => Even (trailingStars (front ++ body)))
          ('*' :: '/' :: rest) [] :=
        ⟨by simp, by simpa using even, fun _ _ _ => Nat.zero_le _⟩
      constructor
      · intro closed
        cases closed
        exact ⟨[], rfl, here⟩
      · rintro ⟨body, rfl, closes⟩
        rw [closes.length_eq here]
        rfl
  | case3 hidden rest not_slash ih =>
      have skips : ∀ other, other ++ ['*', '/'] <+: ['*', hidden] ++ rest →
          Even (trailingStars (front ++ other)) → ['*', hidden].length ≤ other.length := by
        rintro (_ | ⟨first, _ | ⟨second, other⟩⟩) closes counted
        · simp at closes
          exact absurd closes.symm not_slash
        · -- The star of this delimiter is hidden by the star in front of it.
          simp at closes
          rw [closes.1, trailingStars_star] at counted
          exact absurd even (Nat.even_add_one.1 counted)
        · simp
      rw [Option.map_eq_some_iff]
      simp only [ih (even_trailingStars_hidden even hidden), List.append_assoc]
      exact ClosesFirst.exists_length_iff skips
  | case4 char rest not_closing not_hiding ih =>
      have not_star (more : rest ≠ []) : char ≠ '*' := by
        rintro rfl
        rcases rest with _ | ⟨hidden, rest⟩
        · exact more rfl
        · exact not_hiding hidden rest rfl rfl
      by_cases last : rest = []
      · subst last
        constructor
        · intro closed
          cases closed
        · rintro ⟨body, _, closes, _⟩
          have length_le := closes.length_le
          simp at length_le
      have skips : ∀ other, other ++ ['*', '/'] <+: [char] ++ rest →
          Even (trailingStars (front ++ other)) → [char].length ≤ other.length := by
        rintro (_ | ⟨first, other⟩) closes _
        · simp at closes
          exact absurd closes.1.symm (not_star last)
        · simp
      rw [Option.map_eq_some_iff]
      simp only [ih (even_trailingStars_other front (not_star last)), List.append_assoc]
      exact ClosesFirst.exists_length_iff skips

/-- The end of a comment, by the stars in front of its delimiters. -/
theorem commentLength?_eq_some_iff :
    commentLength? rest = some length ↔
      ∃ body, length = body.length + 2 ∧ IsFirstUnhidden rest body := by
  have no_stars : Even (trailingStars []) := Even.zero
  exact commentLength?_eq_some_iff_of_even no_stars

end Length

section Lexer

variable {source rest : List Char} {found : List Lexeme}

/-- The lexer reads on from each place to which it comes as it does from the start of a text. -/
theorem lexemes_joined_of_eq_append {front : List Lexeme} (cut : lexemes source = front ++ found) :
    lexemes (joined found) = found := by
  induction front generalizing source with
  | nil =>
      rw [List.nil_append] at cut
      rw [← cut, joined, text_lexemes]
  | cons first front ih =>
      have nonempty : source ≠ [] := by
        rintro rfl
        cases cut
      rw [lexemes_of_ne_nil nonempty] at cut
      exact ih (List.cons.inj cut).2

theorem lexemes_of_isFirstUnhidden {body : List Char} (closes : IsFirstUnhidden rest body) :
    lexemes ('/' :: '*' :: rest) =
      ⟨.blockComment, '/' :: '*' :: (body ++ ['*', '/'])⟩ ::
        lexemes (rest.drop (body.length + 2)) := by
  have closed := commentLength?_eq_some_iff.2 ⟨body, rfl, closes⟩
  have take_eq : rest.take (body.length + 2) = body ++ ['*', '/'] := by
    have taken := List.prefix_iff_eq_take.1 closes.closes
    simpa using taken.symm
  rw [lexemes_of_ne_nil (List.cons_ne_nil _ _)]
  simp [firstLexeme, closed, take_eq]

theorem lexemes_of_unclosed (unclosed : ∀ body, ¬ IsFirstUnhidden rest body) :
    lexemes ('/' :: '*' :: rest) = [⟨.garbage, '/' :: '*' :: rest⟩] := by
  have open_end : commentLength? rest = none := by
    rw [Option.eq_none_iff_forall_ne_some]
    intro length closed
    rcases commentLength?_eq_some_iff.1 closed with ⟨body, _, closes⟩
    exact unclosed body closes
  rw [lexemes_of_ne_nil (List.cons_ne_nil _ _)]
  simp [firstLexeme, open_end, lexemes, lexemesFrom]

end Lexer

/--
Wherever the lexer comes to the start of a block comment, the comment ends behind the first `*/`
with an even number of stars directly in front of it. When there is none, the rest of the text is
one failed match. So the comment ends with the first `*/` of all just when no star hides that.
-/
theorem blockComment_extent {source : String} {front back : List Lexeme} {lexeme : Lexeme}
    {rest : List Char} (cut : lexemes source.toList = front ++ lexeme :: back)
    (opens : lexeme.text ++ joined back = '/' :: '*' :: rest) :
    (∀ body, IsFirstUnhidden rest body →
      lexeme = ⟨.blockComment, '/' :: '*' :: (body ++ ['*', '/'])⟩) ∧
    ((∀ body, ¬ IsFirstUnhidden rest body) →
      lexeme = ⟨.garbage, '/' :: '*' :: rest⟩ ∧ back = []) ∧
    (∀ body, IsFirstDelimiter rest body →
      (lexeme = ⟨.blockComment, '/' :: '*' :: (body ++ ['*', '/'])⟩ ↔
        Even (trailingStars body))) ∧
    ((∀ body, ¬ body ++ ['*', '/'] <+: rest) →
      lexeme = ⟨.garbage, '/' :: '*' :: rest⟩ ∧ back = []) := by
  have whole := lexemes_joined_of_eq_append cut
  rw [joined_cons, opens] at whole
  have closed {body : List Char} (closes : IsFirstUnhidden rest body) :
      lexeme = ⟨.blockComment, '/' :: '*' :: (body ++ ['*', '/'])⟩ := by
    rw [lexemes_of_isFirstUnhidden closes] at whole
    exact (List.cons.inj whole).1.symm
  have unclosed (hidden : ∀ body, ¬ IsFirstUnhidden rest body) :
      lexeme = ⟨.garbage, '/' :: '*' :: rest⟩ ∧ back = [] := by
    rw [lexemes_of_unclosed hidden] at whole
    rcases List.cons.inj whole with ⟨lexeme_eq, back_eq⟩
    exact ⟨lexeme_eq.symm, back_eq.symm⟩
  refine ⟨fun body => closed, unclosed, ?_, ?_⟩
  · intro body delimiter
    constructor
    · intro lexeme_eq
      by_contra odd
      by_cases found : ∃ other, IsFirstUnhidden rest other
      · rcases found with ⟨other, closes⟩
        have same : body = other := by simpa [lexeme_eq] using closed closes
        exact odd (same ▸ closes.counted)
      · rw [not_exists] at found
        cases lexeme_eq.symm.trans (unclosed found).1
    · intro even
      refine closed ⟨delimiter.closes, even, ?_⟩
      exact fun other closes _ => delimiter.first other closes trivial
  · intro no_delimiter
    exact unclosed fun body closes => no_delimiter body closes.closes

/-- Three stars close a comment, as two of them hide nothing but each other. -/
theorem blockComment_extent_threeStars :
    lexemes "a/* b ***/c".toList =
        [⟨.identifier, ['a']⟩] ++ ⟨.blockComment, "/* b ***/".toList⟩ :: [⟨.identifier, ['c']⟩] ∧
      IsFirstDelimiter " b ***/c".toList " b **".toList ∧ Even (trailingStars " b **".toList) := by
  have cut : lexemes "a/* b ***/c".toList =
      [⟨.identifier, ['a']⟩] ++ ⟨.blockComment, "/* b ***/".toList⟩ :: [⟨.identifier, ['c']⟩] := by
    decide
  have delimiter : IsFirstDelimiter " b ***/c".toList " b **".toList := by decide
  have opens : "/* b ***/".toList ++ joined [⟨.identifier, ['c']⟩] =
      '/' :: '*' :: " b ***/c".toList := by decide
  rcases blockComment_extent cut opens with ⟨_, _, first, _⟩
  exact ⟨cut, delimiter, (first _ delimiter).1 (by decide)⟩

/-- A comment of three stars between slashes takes in what stands behind it, or is garbage. -/
theorem firstDelimiter_passed :
    (IsFirstDelimiter "**/ a /* */ b".toList ['*'] ∧
      lexemes "/***/ a /* */ b".toList =
        [⟨.blockComment, "/***/ a /* */".toList⟩, ⟨.blank, [' ']⟩, ⟨.identifier, ['b']⟩] ∧
      tokens "/***/ a /* */ b" = [⟨.identifier, "b", 14, 15, 1⟩]) ∧
    (IsFirstDelimiter "**/ a".toList ['*'] ∧
      tokens "/***/ a" = [⟨.garbage, "/***/ a", 0, 7, 1⟩]) := by
  decide

end VisiblyPushdown.Source
