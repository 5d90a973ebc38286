import Mathlib.Data.List.Chain
import Mathlib.Data.List.Pairwise
import Mathlib.Data.String.Basic
import VisiblyPushdown.Proofs.LongestMatch

/-!
# Places of tokens

The matches of the lexer stand one behind the other and cover the source text. To join garbage only
takes away boundaries between pieces of garbage, and to drop blanks and comments takes away nothing
else. So each byte is covered by one token, or it belongs to a blank or a comment.
-/

namespace VisiblyPushdown.Source

/-- Whether a token covers a byte. -/
def Token.Covers (token : Token) (byte : Nat) : Prop :=
  token.start ≤ byte ∧ byte < token.stop

/-- What the lexer matches in a source text, trivia and failed matches among it. -/
def matched (source : String) : List Token :=
  placed 0 1 (lexemes source.toList)

/-- Whether a token has a text, which stands in a source text where the token is placed. -/
structure Token.StandsIn (token : Token) (source before after : String) : Prop where
  source_eq : source = before ++ token.text ++ after
  start_eq : token.start = before.utf8ByteSize
  stop_eq : token.stop = (before ++ token.text).utf8ByteSize
  start_lt_stop : token.start < token.stop

section Matches

variable {source : List Char} {lexeme : Lexeme}

theorem lexemesFrom_eq (skip : Nat) (source : List Char) :
    lexemesFrom skip source = lexemes (source.drop skip) := by
  induction source generalizing skip with
  | nil => simp [lexemes, lexemesFrom]
  | cons char rest ih =>
      cases skip with
      | zero => rfl
      | succ skip => exact ih skip

theorem lexemes_of_ne_nil (nonempty : source ≠ []) :
    lexemes source = ⟨(firstLexeme source).1, source.take (firstLexeme source).2⟩ ::
      lexemes (source.drop (firstLexeme source).2) := by
  rcases source with _ | ⟨char, rest⟩
  · exact absurd rfl nonempty
  rcases Nat.exists_eq_add_one_of_ne_zero (Nat.ne_of_gt (firstLexeme_length_pos nonempty)) with
    ⟨length, length_eq⟩
  have tail_eq := lexemesFrom_eq length rest
  simp only [lexemes, lexemesFrom, length_eq, Nat.add_sub_cancel, tail_eq, List.drop_succ_cons]

/-- Each match is the longest token at its place, or a failed match. -/
theorem beginsWith_of_lexemes_eq {front back : List Lexeme}
    (cut : lexemes source = front ++ lexeme :: back) :
    BeginsWith (lexeme.text ++ joined back) lexeme := by
  induction front generalizing source with
  | nil =>
      have nonempty : source ≠ [] := by
        rintro rfl
        cases cut
      have source_eq : joined (lexeme :: back) = source := by
        rw [← text_lexemes source, cut]
        rfl
      rw [joined_cons] at source_eq
      rw [source_eq]
      rw [lexemes_of_ne_nil nonempty] at cut
      cases cut
      exact beginsWith_firstLexeme nonempty
  | cons first front ih =>
      have nonempty : source ≠ [] := by
        rintro rfl
        cases cut
      rw [lexemes_of_ne_nil nonempty] at cut
      exact ih (List.cons.inj cut).2

end Matches

section Places

variable {found : List Lexeme} {lexeme : Lexeme} {token : Token} {start line byte : Nat}

theorem byteLength_eq (text : List Char) :
    byteLength text = (String.ofList text).utf8ByteSize := by
  rw [String.utf8ByteSize_ofList]
  induction text with
  | nil => rfl
  | cons char text ih =>
      rw [String.utf8Len_cons, ← ih, Nat.add_comm]
      rfl

theorem byteLength_append (front back : List Char) :
    byteLength (front ++ back) = byteLength front + byteLength back := by
  simp [byteLength_eq]

theorem byteLength_pos {text : List Char} (nonempty : text ≠ []) : 0 < byteLength text := by
  rcases text with _ | ⟨char, text⟩
  · exact absurd rfl nonempty
  · have char_pos := char.utf8Size_pos
    simp only [byteLength, List.foldr_cons]
    omega

theorem exists_of_mem_placed (mem : token ∈ placed start line found) :
    ∃ front back, found = front ++ token.lexeme :: back ∧
      token.start = start + byteLength (joined front) ∧
      token.stop = token.start + byteLength token.lexeme.text := by
  induction found generalizing start line with
  | nil => cases mem
  | cons first found ih =>
      rcases List.mem_cons.1 mem with rfl | mem
      · exact ⟨[], found, by simp [Token.lexeme], rfl, by simp [Token.lexeme]⟩
      · rcases ih mem with ⟨front, back, rfl, start_eq, stop_eq⟩
        refine ⟨first :: front, back, rfl, ?_, stop_eq⟩
        rw [joined_cons, byteLength_append, start_eq]
        omega

theorem exists_standsIn {source : String} (mem : token ∈ placed 0 line found)
    (whole : joined found = source.toList) (nonempty : ∀ lexeme ∈ found, lexeme.text ≠ []) :
    ∃ front back, found = front ++ token.lexeme :: back ∧
      token.StandsIn source (String.ofList (joined front)) (String.ofList (joined back)) := by
  rcases exists_of_mem_placed mem with ⟨front, back, rfl, start_eq, stop_eq⟩
  refine ⟨front, back, rfl, ?_, ?_, ?_, ?_⟩
  · apply String.toList_injective
    simp [← whole, joined, Token.lexeme]
  · rw [start_eq, byteLength_eq, Nat.zero_add]
  · simp [stop_eq, start_eq, byteLength_eq, Token.lexeme]
  · have length_pos := byteLength_pos (nonempty token.lexeme (by simp))
    omega

theorem pairwise_placed (start line : Nat) (found : List Lexeme) :
    (placed start line found).Pairwise fun first second => first.stop ≤ second.start := by
  induction found generalizing start line with
  | nil => exact .nil
  | cons first found ih =>
      refine .cons ?_ (ih _ _)
      intro token mem
      rcases exists_of_mem_placed mem with ⟨front, back, rfl, start_eq, stop_eq⟩
      simp only
      omega

theorem exists_covers (start_le : start ≤ byte)
    (lt_stop : byte < start + byteLength (joined found)) :
    ∃ token ∈ placed start line found, token.Covers byte := by
  induction found generalizing start line with
  | nil =>
      simp only [joined_nil, byteLength, List.foldr_nil] at lt_stop
      omega
  | cons first found ih =>
      by_cases inside : byte < start + byteLength first.text
      · exact ⟨_, List.mem_cons_self, start_le, inside⟩
      · rw [joined_cons, byteLength_append] at lt_stop
        rcases @ih (start + byteLength first.text) (line + first.text.count '\n') (by omega)
          (by omega) with ⟨token, mem, covers⟩
        exact ⟨token, List.mem_cons_of_mem _ mem, covers⟩

theorem eq_of_covers {other : Token} (mem : token ∈ placed start line found)
    (other_mem : other ∈ placed start line found) (covers : token.Covers byte)
    (other_covers : other.Covers byte) : token = other := by
  by_contra different
  have apart : (placed start line found).Pairwise fun first second =>
      ¬ (first.Covers byte ∧ second.Covers byte) :=
    (pairwise_placed start line found).imp fun stop_le both => by
      have := both.1.2
      have := both.2.1
      omega
  have : Std.Symm fun first second : Token => ¬ (first.Covers byte ∧ second.Covers byte) :=
    ⟨fun _ _ not_both both => not_both both.symm⟩
  exact apart.forall mem other_mem different ⟨covers, other_covers⟩

end Places

section Joining

variable {found rest : List Lexeme} {lexeme : Lexeme} {token : Token} {start line byte : Nat}

theorem joined_foldr_joinGarbage (found : List Lexeme) :
    joined (found.foldr joinGarbage []) = joined found := by
  induction found with
  | nil => rfl
  | cons first found ih =>
      rw [List.foldr_cons, joined_cons, ← ih]
      exact text_joinGarbage first _

theorem text_ne_nil_joinGarbage (nonempty : ∀ other ∈ lexeme :: rest, other.text ≠ []) :
    ∀ other ∈ joinGarbage lexeme rest, other.text ≠ [] := by
  intro other mem
  unfold joinGarbage at mem
  split at mem
  · exact nonempty other mem
  · split at mem
    · rcases List.mem_cons.1 mem with rfl | mem
      · have := nonempty lexeme List.mem_cons_self
        simp [this]
      · exact nonempty other (List.mem_cons_of_mem _ (List.mem_cons_of_mem _ mem))
    · exact nonempty other mem

theorem text_ne_nil_foldr_joinGarbage (nonempty : ∀ other ∈ found, other.text ≠ []) :
    ∀ other ∈ found.foldr joinGarbage [], other.text ≠ [] := by
  induction found with
  | nil => simp
  | cons first found ih =>
      apply text_ne_nil_joinGarbage
      intro other mem
      rcases List.mem_cons.1 mem with rfl | mem
      · exact nonempty other List.mem_cons_self
      · exact ih (fun other mem => nonempty other (List.mem_cons_of_mem _ mem)) other mem

/-- Whether a byte is covered by a token of a kind. -/
def IsCoveredBy (found : List Token) (kind : TokenKind) (byte : Nat) : Prop :=
  ∃ token ∈ found, token.kind = kind ∧ token.Covers byte

theorem isCoveredBy_cons (found : List Token) (kind : TokenKind) :
    IsCoveredBy (token :: found) kind byte ↔
      token.kind = kind ∧ token.Covers byte ∨ IsCoveredBy found kind byte := by
  simp [IsCoveredBy]

theorem isCoveredBy_placed_joinGarbage (start line : Nat) (lexeme : Lexeme) (rest : List Lexeme)
    (kind : TokenKind) :
    IsCoveredBy (placed start line (joinGarbage lexeme rest)) kind byte ↔
      IsCoveredBy (placed start line (lexeme :: rest)) kind byte := by
  unfold joinGarbage
  split
  · rfl
  · next next_lexeme rest =>
      split
      · next both =>
          simp only [placed, isCoveredBy_cons, Token.Covers, byteLength_append, List.count_append,
            both.1, both.2, Nat.add_assoc, ← or_assoc, ← and_or_left]
          apply or_congr_left
          apply and_congr_right
          intro _
          omega
      · rfl

/-- To join garbage leaves every byte to the kind that it belongs to. -/
theorem isCoveredBy_placed_foldr (start line : Nat) (found : List Lexeme) (kind : TokenKind) :
    IsCoveredBy (placed start line (found.foldr joinGarbage [])) kind byte ↔
      IsCoveredBy (placed start line found) kind byte := by
  induction found generalizing start line with
  | nil => rfl
  | cons first found ih =>
      rw [List.foldr_cons, isCoveredBy_placed_joinGarbage, placed, placed, isCoveredBy_cons,
        isCoveredBy_cons, ih]

theorem mem_cons_of_garbage {first : Token} {others : List Token} (clean : token.kind ≠ .garbage)
    (garbage : first.kind = .garbage) : token ∈ first :: others ↔ token ∈ others := by
  constructor
  · intro mem
    rcases List.mem_cons.1 mem with rfl | mem
    · exact absurd garbage clean
    · exact mem
  · exact List.mem_cons_of_mem first

theorem mem_placed_joinGarbage (clean : token.kind ≠ .garbage) :
    token ∈ placed start line (joinGarbage lexeme rest) ↔
      token ∈ placed start line (lexeme :: rest) := by
  unfold joinGarbage
  split
  · rfl
  · split
    · next both =>
        simp only [placed, byteLength_append, List.count_append, ← Nat.add_assoc]
        rw [mem_cons_of_garbage clean rfl, mem_cons_of_garbage clean both.1,
          mem_cons_of_garbage clean both.2]
    · rfl

/-- To join garbage leaves every other token where it is. -/
theorem mem_placed_foldr (clean : token.kind ≠ .garbage) :
    token ∈ placed start line (found.foldr joinGarbage []) ↔ token ∈ placed start line found := by
  induction found generalizing start line with
  | nil => rfl
  | cons first found ih =>
      rw [List.foldr_cons, mem_placed_joinGarbage clean, placed, placed, List.mem_cons,
        List.mem_cons, ih]

/-- Whether no garbage stands directly in front of garbage. -/
def IsJoined (kinds : List TokenKind) : Prop :=
  kinds.IsChain fun first second => ¬ (first = .garbage ∧ second = .garbage)

theorem isJoined_joinGarbage (lexeme : Lexeme) (apart : IsJoined (rest.map Lexeme.kind)) :
    IsJoined ((joinGarbage lexeme rest).map Lexeme.kind) := by
  unfold joinGarbage
  split
  · exact .singleton _
  · split
    · next both =>
        rw [List.map_cons, both.2] at apart
        exact apart
    · next not_both => exact .cons_cons not_both apart

theorem isJoined_foldr (found : List Lexeme) :
    IsJoined ((found.foldr joinGarbage []).map Lexeme.kind) := by
  induction found with
  | nil => exact .nil
  | cons first found ih => exact isJoined_joinGarbage first ih

theorem map_kind_placed (start line : Nat) (found : List Lexeme) :
    (placed start line found).map Token.kind = found.map Lexeme.kind := by
  rw [← map_lexeme_placed start line found, List.map_map, map_lexeme_placed]
  rfl

end Joining

section Tokens

variable {source : String} {token : Token} {byte : Nat}

/-- What the lexer matches in a source text, with pieces of garbage joined. -/
def joinedMatches (source : String) : List Token :=
  placed 0 1 ((lexemes source.toList).foldr joinGarbage [])

theorem mem_tokens : token ∈ tokens source ↔
    token ∈ joinedMatches source ∧ token.kind.isTrivia = false := by
  simp [tokens, joinedMatches]

theorem text_ne_nil_of_mem_lexemes {source : List Char} :
    ∀ lexeme ∈ lexemes source, lexeme.text ≠ [] := by
  intro lexeme mem
  rcases List.append_of_mem mem with ⟨front, back, cut⟩
  exact (beginsWith_of_lexemes_eq cut).nonempty

theorem exists_standsIn_of_mem_matched (mem : token ∈ matched source) :
    ∃ before after, token.StandsIn source before after ∧
      BeginsWith (token.text ++ after).toList token.lexeme := by
  rcases exists_standsIn mem (text_lexemes source.toList) text_ne_nil_of_mem_lexemes with
    ⟨front, back, cut, stands⟩
  refine ⟨_, _, stands, ?_⟩
  rw [String.toList_append, String.toList_ofList]
  exact beginsWith_of_lexemes_eq cut

theorem exists_standsIn_of_mem_joinedMatches (mem : token ∈ joinedMatches source) :
    ∃ before after, token.StandsIn source before after := by
  have whole : joined ((lexemes source.toList).foldr joinGarbage []) = source.toList := by
    rw [joined_foldr_joinGarbage]
    exact text_lexemes source.toList
  have nonempty := text_ne_nil_foldr_joinGarbage (@text_ne_nil_of_mem_lexemes source.toList)
  rcases exists_standsIn mem whole nonempty with ⟨front, back, _, stands⟩
  exact ⟨_, _, stands⟩

theorem pairwise_tokens (source : String) :
    (tokens source).Pairwise fun first second =>
      first.start < second.start ∧ first.stop ≤ second.start := by
  apply ((pairwise_placed 0 1 _).filter _).imp_of_mem
  intro first second mem _ stop_le
  rcases exists_standsIn_of_mem_joinedMatches (mem_tokens.1 mem).1 with ⟨before, after, stands⟩
  have start_lt := stands.start_lt_stop
  exact ⟨by omega, stop_le⟩

theorem mem_matched_iff (clean : token.kind ≠ .garbage) :
    token ∈ matched source ↔ token ∈ joinedMatches source :=
  (mem_placed_foldr clean).symm

/-- Blanks and comments are matches, and they are spelled as such. -/
theorem idle_of_isTrivia (mem : token ∈ joinedMatches source) (trivia : token.kind.isTrivia) :
    token ∈ matched source ∧ Idle token.kind token.text.toList := by
  have clean := TokenKind.ne_garbage_of_isTrivia trivia
  have matched_mem := (mem_matched_iff clean).2 mem
  rcases exists_standsIn_of_mem_matched matched_mem with ⟨before, after, _, begins⟩
  rcases begins.isToken clean with spelled | idle
  · exact absurd (spelled.isMeaningful.1.symm.trans trivia) Bool.false_ne_true
  · exact ⟨matched_mem, idle⟩

/-- No token covers a byte of a blank or of a comment, and every other byte has one that does. -/
theorem uncovered_iff (inside : byte < source.utf8ByteSize) :
    (∀ token ∈ tokens source, ¬ token.Covers byte) ↔
      ∃ piece ∈ matched source, Idle piece.kind piece.text.toList ∧ piece.Covers byte := by
  constructor
  · intro uncovered
    have inside_joined :
        byte < 0 + byteLength (joined ((lexemes source.toList).foldr joinGarbage [])) := by
      rw [joined_foldr_joinGarbage, joined, text_lexemes, byteLength_eq, String.ofList_toList]
      omega
    rcases @exists_covers _ 0 1 byte (Nat.zero_le byte) inside_joined with ⟨token, mem, covers⟩
    have trivia : token.kind.isTrivia := by
      by_contra meaningful
      exact uncovered token (mem_tokens.2 ⟨mem, Bool.eq_false_iff.2 meaningful⟩) covers
    rcases idle_of_isTrivia mem trivia with ⟨matched_mem, idle⟩
    exact ⟨token, matched_mem, idle, covers⟩
  · rintro ⟨piece, piece_mem, idle, piece_covers⟩ token mem covers
    have trivia := idle.isTrivia
    have joined_mem := (mem_matched_iff (TokenKind.ne_garbage_of_isTrivia trivia)).1 piece_mem
    rcases mem_tokens.1 mem with ⟨mem, meaningful⟩
    rw [eq_of_covers joined_mem mem piece_covers covers, meaningful] at trivia
    cases trivia

theorem exists_failed_match (mem : token ∈ tokens source) (garbage : token.kind = .garbage)
    (covers : token.Covers byte) :
    ∃ failed ∈ matched source, failed.kind = .garbage ∧ failed.Covers byte :=
  (isCoveredBy_placed_foldr 0 1 _ _).1 ⟨token, (mem_tokens.1 mem).1, garbage, covers⟩

/-- Something without a meaning stands between pieces of garbage. -/
theorem exists_trivia_between {front back : List Token} {first second : Token}
    (cut : tokens source = front ++ first :: second :: back) (garbage : first.kind = .garbage)
    (next_garbage : second.kind = .garbage) :
    ∃ piece ∈ matched source, Idle piece.kind piece.text.toList ∧
      first.stop ≤ piece.start ∧ piece.stop ≤ second.start := by
  rcases List.filter_eq_append_iff.1 cut with ⟨before, rest, whole, _, rest_eq⟩
  rcases List.filter_eq_cons_iff.1 rest_eq with ⟨skipped, behind, rfl, _, _, behind_eq⟩
  rcases List.filter_eq_cons_iff.1 behind_eq with ⟨between, after, rfl, trivia, _, _⟩
  rw [← List.append_assoc] at whole
  rcases between with _ | ⟨piece, between⟩
  · -- Garbage that stands directly behind garbage would have been joined.
    have apart := isJoined_foldr (lexemes source.toList)
    rw [← map_kind_placed 0 1, whole, List.map_append, List.map_cons, List.nil_append,
      List.map_cons, IsJoined, List.isChain_append_cons_cons] at apart
    exact absurd ⟨garbage, next_garbage⟩ apart.2.1
  · have piece_trivia : piece.kind.isTrivia := by simpa using trivia piece List.mem_cons_self
    have piece_mem : piece ∈ joinedMatches source := by simp [joinedMatches, whole]
    have ordered := pairwise_placed 0 1 ((lexemes source.toList).foldr joinGarbage [])
    rw [whole] at ordered
    rcases List.pairwise_cons.1 (List.pairwise_append.1 ordered).2.1 with ⟨first_le, ordered⟩
    have piece_le := (List.pairwise_cons.1 ordered).1
    rcases idle_of_isTrivia piece_mem piece_trivia with ⟨matched_mem, idle⟩
    exact ⟨piece, matched_mem, idle, first_le piece (by simp), piece_le second (by simp)⟩

/--
The tokens of a source text account for it. Each match of the lexer is the longest token at its
place or a failed match, and all tokens stand where they are placed, one behind the other. A byte is
covered by no token just when it belongs to a blank or a comment. A token is a match unless it is
garbage. Garbage consists of failed matches, with blanks or comments between any two pieces of it.
-/
theorem tokens_cover_source (source : String) :
    (∀ token ∈ matched source, ∃ before after, token.StandsIn source before after ∧
      BeginsWith (token.text ++ after).toList token.lexeme) ∧
    (∀ token ∈ tokens source, ∃ before after, token.StandsIn source before after) ∧
    (tokens source).Pairwise (fun first second =>
      first.start < second.start ∧ first.stop ≤ second.start) ∧
    (∀ byte < source.utf8ByteSize, (∀ token ∈ tokens source, ¬ token.Covers byte) ↔
      ∃ piece ∈ matched source, Idle piece.kind piece.text.toList ∧ piece.Covers byte) ∧
    (∀ token ∈ tokens source, token.kind ≠ .garbage → token ∈ matched source) ∧
    (∀ token ∈ tokens source, token.kind = .garbage → ∀ byte, token.Covers byte →
      ∃ failed ∈ matched source, failed.kind = .garbage ∧ failed.Covers byte) ∧
    ∀ front first second back, tokens source = front ++ first :: second :: back →
      first.kind = .garbage → second.kind = .garbage →
      ∃ piece ∈ matched source, Idle piece.kind piece.text.toList ∧
        first.stop ≤ piece.start ∧ piece.stop ≤ second.start := by
  refine ⟨?_, ?_, pairwise_tokens source, ?_, ?_, ?_, ?_⟩
  · intro token mem
    exact exists_standsIn_of_mem_matched mem
  · intro token mem
    exact exists_standsIn_of_mem_joinedMatches (mem_tokens.1 mem).1
  · intro byte inside
    exact uncovered_iff inside
  · intro token mem clean
    exact (mem_matched_iff clean).2 (mem_tokens.1 mem).1
  · intro token mem garbage byte covers
    exact exists_failed_match mem garbage covers
  · intro front first second back cut garbage next_garbage
    exact exists_trivia_between cut garbage next_garbage

/-- Characters of several bytes that start no token, and a literal that is not closed. -/
theorem tokens_cover_source_unclosed :
    tokens "é€ 'a" = [⟨.garbage, "é€", 0, 5, 1⟩, ⟨.garbage, "'a", 6, 8, 1⟩] ∧
      ∃ piece ∈ matched "é€ 'a", Idle piece.kind piece.text.toList ∧
        5 ≤ piece.start ∧ piece.stop ≤ 6 := by
  have cut : tokens "é€ 'a" =
      [] ++ ⟨.garbage, "é€", 0, 5, 1⟩ :: ⟨.garbage, "'a", 6, 8, 1⟩ :: [] := by decide
  rcases tokens_cover_source "é€ 'a" with ⟨_, _, _, _, _, _, between⟩
  exact ⟨cut, between _ _ _ _ cut rfl rfl⟩

end Tokens

end VisiblyPushdown.Source
