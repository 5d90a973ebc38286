import VisiblyPushdown.Proofs.Complements

/-!
# Longest matches

`Lexeme.IsToken` lists the spellings of all tokens, blanks and comments among them. What the lexer
cuts from a text is the longest token that the text begins with. When the text begins with none, the
lexer takes a piece of garbage, so garbage is where a match failed.
-/

namespace VisiblyPushdown.Source

/--
Text that may stand in a block comment: a star is taken together with the character behind it, which
is no slash.
-/
inductive CommentBody : List Char → Prop
  | nil : CommentBody []
  | char {char : Char} {rest : List Char} : char ≠ '*' → CommentBody rest →
      CommentBody (char :: rest)
  | star {hidden : Char} {rest : List Char} : hidden ≠ '/' → CommentBody rest →
      CommentBody ('*' :: hidden :: rest)

/-- Spelling of blanks and comments. -/
inductive Idle : TokenKind → List Char → Prop
  | blank {first : Char} {rest : List Char} : isBlank first → (∀ char ∈ rest, isBlank char) →
      Idle .blank (first :: rest)
  | lineComment {rest : List Char} : (∀ char ∈ rest, char ≠ '\n') →
      Idle .lineComment ('/' :: '/' :: rest)
  | blockComment {body : List Char} : CommentBody body →
      Idle .blockComment ('/' :: '*' :: (body ++ ['*', '/']))

/-- Whether a lexeme is a token, one with a meaning or one without. -/
def Lexeme.IsToken (lexeme : Lexeme) : Prop :=
  Spelled lexeme.kind lexeme.text ∨ Idle lexeme.kind lexeme.text

/--
Whether a lexeme is the longest token that a text begins with, or some garbage at the beginning of a
text that begins with no token.
-/
structure BeginsWith (source : List Char) (lexeme : Lexeme) : Prop where
  nonempty : lexeme.text ≠ []
  starts : lexeme.text <+: source
  isToken : lexeme.kind ≠ .garbage → lexeme.IsToken
  longest : ∀ other : Lexeme, other.IsToken → other.text <+: source →
    lexeme.kind ≠ .garbage ∧ (other = lexeme ∨ other.text.length < lexeme.text.length)

section Comments

variable {body rest : List Char} {length : Nat}

theorem CommentBody.commentLength?_append (commented : CommentBody body) (rest : List Char) :
    commentLength? (body ++ '*' :: '/' :: rest) = some (body.length + 2) := by
  induction commented with
  | nil => rfl
  | char not_star _ ih => simp [commentLength?, not_star, ih]
  | star not_slash _ ih => simp [commentLength?, ih]

/-- A comment that is closed has a body in front of the delimiter that closes it. -/
theorem exists_commentBody (closed : commentLength? rest = some length) :
    ∃ body, CommentBody body ∧ rest.take length = body ++ ['*', '/'] := by
  fun_induction commentLength? rest generalizing length with
  | case1 => cases closed
  | case2 =>
      cases closed
      exact ⟨[], .nil, rfl⟩
  | case3 hidden rest not_slash ih =>
      rcases Option.map_eq_some_iff.1 closed with ⟨inner, inner_closed, rfl⟩
      rcases ih inner_closed with ⟨body, commented, body_eq⟩
      exact ⟨'*' :: hidden :: body, .star not_slash commented, by simp [body_eq]⟩
  | case4 char rest not_closing not_hiding ih =>
      rcases Option.map_eq_some_iff.1 closed with ⟨inner, inner_closed, rfl⟩
      have not_star : char ≠ '*' := by
        rintro rfl
        cases rest with
        | nil => cases inner_closed
        | cons hidden rest => exact not_hiding hidden rest rfl rfl
      rcases ih inner_closed with ⟨body, commented, body_eq⟩
      exact ⟨char :: body, .char not_star commented, by simp [body_eq]⟩

end Comments

section Tokens

variable {kind : TokenKind} {text rest : List Char} {lexeme : Lexeme}

theorem Idle.isTrivia (idle : Idle kind text) : kind.isTrivia := by
  cases idle <;> rfl

/-- How the lexer reads a token that stands in front of a text: together with `more` of the text. -/
structure ReadsOn (lexeme : Lexeme) (rest more : List Char) (kind : TokenKind) : Prop where
  starts : more <+: rest
  notGarbage : kind ≠ .garbage
  same : more = [] → kind = lexeme.kind
  first : firstLexeme (lexeme.text ++ rest) = (kind, (lexeme.text ++ more).length)

theorem Spelled.exists_readsOn (spelled : Spelled kind text) (rest : List Char) :
    ∃ more found, ReadsOn ⟨kind, text⟩ rest more found := by
  by_cases ends : kind.EndsAt rest
  · have first := firstLexeme_append spelled ends
    exact ⟨[], kind, List.nil_prefix, spelled.isMeaningful.2, fun _ => rfl, by simpa using first⟩
  rcases rest with _ | ⟨char, rest⟩
  · exact absurd (fun _ mem => by cases mem) ends
  have goes_on : kind.goesOn char := TokenKind.goesOn_of_not_endsAt ends
  cases kind with
  | identifier =>
      cases spelled with
      | sign found => cases found
      | identifier starts continues =>
          refine ⟨_, .identifier, List.takeWhile_prefix continuesIdentifier, by decide,
            fun _ => rfl, ?_⟩
          rw [List.cons_append, firstLexeme_identifier starts,
            List.takeWhile_append_of_pos continues]
          rfl
  | plus =>
      obtain rfl := of_decide_eq_true goes_on
      obtain rfl := spelled.eq_sign rfl
      exact ⟨['='], .plusAssign, by simp, by decide, by simp, rfl⟩
  | colon =>
      obtain rfl := of_decide_eq_true goes_on
      obtain rfl := spelled.eq_sign rfl
      exact ⟨[':'], .doubleColon, by simp, by decide, by simp, rfl⟩
  | dot =>
      obtain rfl := of_decide_eq_true goes_on
      obtain rfl := spelled.eq_sign rfl
      exact ⟨['.'], .range, by simp, by decide, by simp, rfl⟩
  | _ => cases goes_on

theorem Idle.exists_readsOn (idle : Idle kind text) (rest : List Char) :
    ∃ more found, ReadsOn ⟨kind, text⟩ rest more found := by
  cases idle with
  | blank first_blank blank =>
      refine ⟨_, .blank, List.takeWhile_prefix isBlank, by decide, fun _ => rfl, ?_⟩
      rw [List.cons_append, firstLexeme_blank first_blank, List.takeWhile_append_of_pos blank]
      rfl
  | lineComment on_line =>
      refine ⟨_, .lineComment, List.takeWhile_prefix (· ≠ '\n'), by decide, fun _ => rfl, ?_⟩
      have on_line : ∀ char ∈ _, decide (char ≠ '\n') = true := fun char mem =>
        decide_eq_true (on_line char mem)
      rw [List.cons_append, List.cons_append, firstLexeme, List.takeWhile_append_of_pos on_line]
      rfl
  | @blockComment body commented =>
      refine ⟨[], .blockComment, List.nil_prefix, by decide, fun _ => rfl, ?_⟩
      have closed := commented.commentLength?_append rest
      simp [firstLexeme, closed]

theorem isTrivia_blockOrGarbage (block : TokenKind) (delimiters : Delimiters) (rest : List Char)
    (not_trivia : block.isTrivia = false) :
    (blockOrGarbage block delimiters rest).1.isTrivia = false := by
  unfold blockOrGarbage
  split
  · exact not_trivia
  · rfl

/-- What is cut without a meaning, but is not garbage, is spelled as blanks or a comment. -/
theorem idle_take {length : Nat} (first : firstLexeme rest = (kind, length))
    (trivia : kind.isTrivia) : Idle kind (rest.take length) := by
  revert first
  fun_cases firstLexeme rest <;> intro first
  case case4 rest =>
    have not_trivia := isTrivia_blockOrGarbage .actionBlock .braces rest rfl
    simp [first, trivia] at not_trivia
  case case5 rest =>
    have not_trivia := isTrivia_blockOrGarbage .bracketBlock .brackets rest rfl
    simp [first, trivia] at not_trivia
  case case24 =>
    split at first
    all_goals
      cases first
      cases trivia
  case case25 rest =>
    cases first
    rw [List.take_succ_cons, List.take_succ_cons,
      ← List.prefix_iff_eq_take.1 (List.takeWhile_prefix _)]
    exact .lineComment fun char mem => by simpa using List.mem_takeWhile_imp mem
  case case26 rest inner closed =>
    cases first
    rcases exists_commentBody closed with ⟨body, commented, body_eq⟩
    rw [List.take_succ_cons, List.take_succ_cons, body_eq]
    exact .blockComment commented
  case case28 blank =>
    cases first
    rw [List.take_succ_cons, ← List.prefix_iff_eq_take.1 (List.takeWhile_prefix _)]
    exact .blank blank fun char mem => List.mem_takeWhile_imp mem
  -- The other lexemes are garbage or mean something.
  all_goals
    cases first
    cases trivia

theorem Lexeme.IsToken.exists_readsOn (is_token : lexeme.IsToken) (rest : List Char) :
    ∃ more found, ReadsOn lexeme rest more found :=
  is_token.elim (fun spelled => spelled.exists_readsOn rest) fun idle => idle.exists_readsOn rest

/-- The lexer takes the longest token. -/
theorem beginsWith_firstLexeme {source : List Char} (nonempty : source ≠ []) :
    BeginsWith source ⟨(firstLexeme source).1, source.take (firstLexeme source).2⟩ where
  nonempty := by
    have length_pos := firstLexeme_length_pos nonempty
    simp only [ne_eq, List.take_eq_nil_iff, not_or]
    exact ⟨by omega, nonempty⟩
  starts := List.take_prefix _ _
  isToken := by
    intro not_garbage
    by_cases trivia : (firstLexeme source).1.isTrivia
    · exact .inr (idle_take rfl trivia)
    · exact .inl (spelled_take rfl ⟨Bool.eq_false_iff.2 trivia, not_garbage⟩)
  longest := by
    rintro other is_token ⟨rest, rfl⟩
    rcases is_token.exists_readsOn rest with ⟨more, kind, ⟨others, rfl⟩, not_garbage, same, first⟩
    rw [first]
    refine ⟨not_garbage, ?_⟩
    rw [← List.append_assoc, List.take_left]
    rcases more with _ | ⟨char, more⟩
    · left
      rw [same rfl, List.append_nil]
    · right
      simp

end Tokens

end VisiblyPushdown.Source
