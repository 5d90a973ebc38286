import Mathlib.Data.List.TakeWhile
import Mathlib.Order.Basic
import VisiblyPushdown.Source.Lexer

/-!
# Spelling

How a token is spelled does not depend on what follows it. `Spelled` lists the spellings of each
kind of token. Whatever the lexer cuts from a text is spelled like this, and a spelled token that is
put in front of another text is cut off again, unless the text goes on with it: a name with a
letter, a colon with a colon, a plus with an equals sign or a dot with a dot.
-/

namespace VisiblyPushdown.Source

namespace TokenKind

/-- The text of the tokens that are always written alike. -/
def sign? : TokenKind → Option (List Char)
  | .leftParen => some ['(']
  | .rightParen => some [')']
  | .doubleColon => some [':', ':']
  | .colon => some [':']
  | .semicolon => some [';']
  | .bar => some ['|']
  | .question => some ['?']
  | .star => some ['*']
  | .plus => some ['+']
  | .assign => some ['=']
  | .plusAssign => some ['+', '=']
  | .pound => some ['#']
  | .range => some ['.', '.']
  | .dot => some ['.']
  | .tilde => some ['~']
  | .less => some ['<']
  | .greater => some ['>']
  | .comma => some [',']
  | .arrow => some ['-', '>']
  | .at => some ['@']
  | _ => none

/-- Whether a token of the kind may go on with a character that is put behind it. -/
def goesOn : TokenKind → Char → Bool
  | .identifier, char => continuesIdentifier char
  | .colon, char => char = ':'
  | .plus, char => char = '='
  | .dot, char => char = '.'
  | _, _ => false

/-- Whether a token of the kind ends where a text follows it. -/
def EndsAt (kind : TokenKind) (rest : List Char) : Prop :=
  ∀ char ∈ rest.head?, kind.goesOn char = false

/-- Whether tokens of the kind mean something. -/
def IsMeaningful (kind : TokenKind) : Prop :=
  kind.isTrivia = false ∧ kind ≠ .garbage

theorem ne_garbage_of_isTrivia {kind : TokenKind} (trivia : kind.isTrivia) : kind ≠ .garbage := by
  rintro rfl
  cases trivia

end TokenKind

/-- Spelling of a token that means something. -/
inductive Spelled : TokenKind → List Char → Prop
  | sign {kind : TokenKind} {text : List Char} : kind.sign? = some text → Spelled kind text
  | actionBlock {rest : List Char} : blockLength? .braces 0 none rest = some rest.length →
      Spelled .actionBlock ('{' :: rest)
  | bracketBlock {rest : List Char} : blockLength? .brackets 0 none rest = some rest.length →
      Spelled .bracketBlock ('[' :: rest)
  | stringLiteral {rest : List Char} : literalExtent rest = ⟨rest.length, true⟩ →
      Spelled .stringLiteral ('\'' :: rest)
  | identifier {first : Char} {rest : List Char} : startsIdentifier first →
      (∀ char ∈ rest, continuesIdentifier char) → Spelled .identifier (first :: rest)

section Extents

variable {delimiters : Delimiters} {depth length : Nat} {quote : Option Char} {rest : List Char}

/-- A character that hides nothing closes a block or leaves it open, whatever follows. -/
theorem blockLength?_cons (delimiters : Delimiters) (depth : Nat) (quote : Option Char)
    {char : Char} (visible : char ≠ '\\') :
    (∀ rest, blockLength? delimiters depth quote (char :: rest) = some 1) ∨
      ∃ inner within, ∀ rest, blockLength? delimiters depth quote (char :: rest) =
        (blockLength? delimiters inner within rest).map (· + 1) := by
  rcases quote with _ | quote
  · by_cases quotes : delimiters.quotes ∧ (char = '"' ∨ char = '\'')
    · exact .inr ⟨depth, some char, by cases depth <;> simp [blockLength?, visible, quotes]⟩
    by_cases opens : char = delimiters.opening
    · exact .inr ⟨depth + 1, none, by
        cases depth <;> simp [blockLength?, visible, quotes, ← opens]⟩
    by_cases closes : char = delimiters.closing
    · cases depth with
      | zero => exact .inl (by simp [blockLength?, visible, quotes, opens, ← closes])
      | succ depth =>
        exact .inr ⟨depth, none, by simp [blockLength?, visible, quotes, opens, ← closes]⟩
    · exact .inr ⟨depth, none, by
        cases depth <;> simp [blockLength?, visible, quotes, opens, closes]⟩
  · exact .inr ⟨depth, if char = quote then none else some quote, by simp [blockLength?, visible]⟩

theorem blockLength?_backslash (closing_ne : delimiters.closing ≠ '\\') :
    blockLength? delimiters depth quote ['\\'] = none := by
  have closing_ne := closing_ne.symm
  cases quote <;> cases depth <;> simp [blockLength?, closing_ne]

/-- A block is found by its own characters alone. -/
theorem blockLength?_take (closing_ne : delimiters.closing ≠ '\\')
    (found : blockLength? delimiters depth quote rest = some length) :
    length ≤ rest.length ∧
      ∀ more, blockLength? delimiters depth quote (rest.take length ++ more) = some length := by
  induction count : rest.length using Nat.strongRecOn generalizing depth quote rest length
  next count ih =>
  subst count
  rcases rest with _ | ⟨char, rest⟩
  · rw [blockLength?] at found
    cases found
  by_cases hides : char = '\\'
  · subst hides
    rcases rest with _ | ⟨hidden, rest⟩
    · rw [blockLength?_backslash closing_ne] at found
      cases found
    · rw [blockLength?] at found
      rcases Option.map_eq_some_iff.1 found with ⟨inner, inner_found, rfl⟩
      rcases ih _ (by simp only [List.length_cons]; omega) inner_found rfl with ⟨length_le, kept⟩
      refine ⟨by simpa using length_le, ?_⟩
      intro more
      simp [blockLength?, kept more]
  · rcases blockLength?_cons delimiters depth quote hides with closes | ⟨within, quoted, step⟩
    · rw [closes] at found
      cases found
      exact ⟨by simp, fun more => closes _⟩
    · rw [step] at found
      rcases Option.map_eq_some_iff.1 found with ⟨inner, inner_found, rfl⟩
      rcases ih _ (by simp) inner_found rfl with ⟨length_le, kept⟩
      refine ⟨by simpa using length_le, ?_⟩
      intro more
      rw [List.take_succ_cons, List.cons_append, step, kept more]
      rfl

/-- A closed literal is found by its own characters alone. -/
theorem literalExtent_take (closed : literalExtent rest = ⟨length, true⟩) :
    length ≤ rest.length ∧
      ∀ more, literalExtent (rest.take length ++ more) = ⟨length, true⟩ := by
  fun_induction literalExtent rest generalizing length with
  | case1 | case3 | case4 => cases closed
  | case2 rest =>
      cases closed
      simp [literalExtent]
  | case5 hidden rest visible ih =>
      rcases extent : literalExtent rest with ⟨inner, closes⟩
      rw [extent] at closed
      cases closed
      rcases ih extent with ⟨length_le, kept⟩
      refine ⟨by simp; omega, ?_⟩
      intro more
      rw [Nat.add_comm 2]
      simp [literalExtent, kept more, LiteralExtent.after, Nat.add_comm 2]
  | case6 char rest not_quote not_line not_hidden_line not_hidden ih =>
      rcases extent : literalExtent rest with ⟨inner, closes⟩
      rw [extent] at closed
      cases closed
      rcases ih extent with ⟨length_le, kept⟩
      have visible : char ≠ '\\' := by
        rintro rfl
        cases rest with
        | nil => cases extent
        | cons head tail => exact not_hidden head tail rfl rfl
      refine ⟨by simp; omega, ?_⟩
      intro more
      rw [Nat.add_comm 1]
      simp [literalExtent, visible, kept more, LiteralExtent.after, Nat.add_comm 1]

end Extents

theorem lexemesFrom_length (text rest : List Char) :
    lexemesFrom text.length (text ++ rest) = lexemes rest := by
  induction text with
  | nil => rfl
  | cons char text ih => exact ih

/-- A text that starts with a token goes on behind it. -/
theorem lexemes_eq_cons {kind : TokenKind} {text rest : List Char} (nonempty : text ≠ [])
    (first : firstLexeme (text ++ rest) = (kind, text.length)) :
    lexemes (text ++ rest) = ⟨kind, text⟩ :: lexemes rest := by
  rcases text with _ | ⟨char, text⟩
  · exact absurd rfl nonempty
  · rw [lexemes, List.cons_append, lexemesFrom]
    rw [List.cons_append] at first
    simp only [first, List.length_cons, Nat.add_sub_cancel]
    rw [lexemesFrom_length]
    simp

theorem firstLexeme_blank {char : Char} (blank : isBlank char) (rest : List Char) :
    firstLexeme (char :: rest) = (.blank, (rest.takeWhile isBlank).length + 1) := by
  simp only [isBlank, Bool.or_eq_true, decide_eq_true_eq] at blank
  rcases blank with (((rfl | rfl) | rfl) | rfl) | rfl <;> rfl

theorem exists_firstLexeme_of_mem_lexemesFrom {skip : Nat} {source : List Char} {lexeme : Lexeme}
    (mem : lexeme ∈ lexemesFrom skip source) :
    ∃ rest, (firstLexeme rest).1 = lexeme.kind ∧
      rest.take (firstLexeme rest).2 = lexeme.text := by
  induction source generalizing skip with
  | nil => cases mem
  | cons char rest ih =>
      cases skip with
      | zero =>
          rcases List.mem_cons.1 mem with rfl | mem
          · exact ⟨char :: rest, rfl, rfl⟩
          · exact ih mem
      | succ skip => exact ih mem

section Spelled

variable {kind : TokenKind} {text rest : List Char}

theorem Spelled.ne_nil (spelled : Spelled kind text) : text ≠ [] := by
  cases spelled with
  | sign found => cases kind <;> cases found <;> exact List.cons_ne_nil _ _
  | _ => exact List.cons_ne_nil _ _

theorem Spelled.isMeaningful (spelled : Spelled kind text) : kind.IsMeaningful := by
  cases spelled with
  | sign found =>
      rw [TokenKind.IsMeaningful]
      cases kind <;> first | cases found; done | decide
  | _ => exact ⟨rfl, by decide⟩

theorem isBlank_of_startsIdentifier {char : Char} (starts : startsIdentifier char) :
    isBlank char = false := by
  apply Bool.eq_false_iff.2
  intro blank
  simp only [isBlank, Bool.or_eq_true, decide_eq_true_eq] at blank
  rcases blank with (((rfl | rfl) | rfl) | rfl) | rfl <;> cases starts

theorem firstLexeme_identifier {first : Char} (starts : startsIdentifier first) :
    firstLexeme (first :: rest) =
      (.identifier, (rest.takeWhile continuesIdentifier).length + 1) := by
  have not_blank := isBlank_of_startsIdentifier starts
  generalize source_eq : first :: rest = source
  -- No name starts with the character of a sign, so only the last cases are left.
  fun_cases firstLexeme source with
  | case1 => cases source_eq
  | case28 =>
      cases source_eq
      simp_all
  | case29 =>
      cases source_eq
      rfl
  | case30 =>
      cases source_eq
      contradiction
  | _ =>
      cases source_eq
      cases starts

theorem firstLexeme_append (spelled : Spelled kind text) (ends : kind.EndsAt rest) :
    firstLexeme (text ++ rest) = (kind, text.length) := by
  cases spelled with
  | sign found =>
      cases kind <;> cases found
      -- What is left are the signs that are the start of a longer one.
      all_goals try rfl
      all_goals
        rcases rest with _ | ⟨char, rest⟩
        · rfl
        · have different := of_decide_eq_false (ends char rfl)
          simp [firstLexeme, different]
  | actionBlock found =>
      have kept := (blockLength?_take (by decide) found).2 rest
      rw [List.take_length] at kept
      simp [firstLexeme, blockOrGarbage, kept]
  | bracketBlock found =>
      have kept := (blockLength?_take (by decide) found).2 rest
      rw [List.take_length] at kept
      simp [firstLexeme, blockOrGarbage, kept]
  | stringLiteral closed =>
      have kept := (literalExtent_take closed).2 rest
      rw [List.take_length] at kept
      simp [firstLexeme, kept]
  | @identifier first tail starts continues =>
      have stops : rest.takeWhile continuesIdentifier = [] := by
        rcases rest with _ | ⟨char, rest⟩
        · rfl
        · have stops : continuesIdentifier char = false := ends char rfl
          exact List.takeWhile_cons_of_neg (by simp [stops])
      rw [List.cons_append, firstLexeme_identifier starts,
        List.takeWhile_append_of_pos continues, stops]
      simp

theorem lexemes_append (spelled : Spelled kind text) (ends : kind.EndsAt rest) :
    lexemes (text ++ rest) = ⟨kind, text⟩ :: lexemes rest :=
  lexemes_eq_cons spelled.ne_nil (firstLexeme_append spelled ends)

/-- A block that is closed ends with its closing delimiter. -/
theorem blockLength?_of_blockOrGarbage {block : TokenKind} {delimiters : Delimiters} {length : Nat}
    (closing_ne : delimiters.closing ≠ '\\')
    (first : blockOrGarbage block delimiters rest = (kind, length))
    (meaningful : kind.IsMeaningful) :
    ∃ inner, (block, inner + 1) = (kind, length) ∧
      blockLength? delimiters 0 none (rest.take inner) = some (rest.take inner).length := by
  unfold blockOrGarbage at first
  split at first
  · next inner found =>
      rcases blockLength?_take closing_ne found with ⟨length_le, kept⟩
      refine ⟨inner, first, ?_⟩
      have alone := kept []
      rw [List.append_nil] at alone
      rw [alone, List.length_take_of_le length_le]
  · cases first
    exact absurd rfl meaningful.2

/-- What the lexer cuts from a text is spelled, unless it means nothing. -/
theorem spelled_take {length : Nat} (first : firstLexeme rest = (kind, length))
    (meaningful : kind.IsMeaningful) : Spelled kind (rest.take length) := by
  revert first
  fun_cases firstLexeme rest <;> intro first
  case case4 rest =>
    rcases blockLength?_of_blockOrGarbage (by decide) first meaningful with ⟨inner, same, found⟩
    cases same
    exact .actionBlock found
  case case5 rest =>
    rcases blockLength?_of_blockOrGarbage (by decide) first meaningful with ⟨inner, same, found⟩
    cases same
    exact .bracketBlock found
  case case24 rest extent =>
    rcases found : literalExtent rest with ⟨inner, _ | _⟩
    · simp only [extent, found] at first
      cases first
      exact absurd rfl meaningful.2
    · simp only [extent, found] at first
      cases first
      rcases literalExtent_take found with ⟨length_le, kept⟩
      have alone := kept []
      rw [List.append_nil] at alone
      refine .stringLiteral ?_
      rw [alone, List.length_take_of_le length_le]
  case case29 =>
    cases first
    rw [List.take_succ_cons, ← List.prefix_iff_eq_take.1 (List.takeWhile_prefix _)]
    exact .identifier (by assumption) fun char mem => List.mem_takeWhile_imp mem
  -- The other lexemes mean nothing or are signs.
  all_goals
    cases first
    first
      | exact .sign rfl
      | exact absurd rfl meaningful.2
      | exact absurd meaningful.1 (by decide)

theorem spelled_of_mem_lexemes {source : List Char} {lexeme : Lexeme}
    (mem : lexeme ∈ lexemes source) (meaningful : lexeme.kind.IsMeaningful) :
    Spelled lexeme.kind lexeme.text := by
  rcases exists_firstLexeme_of_mem_lexemesFrom mem with ⟨rest, kind_eq, text_eq⟩
  rw [← text_eq]
  exact spelled_take (Prod.ext kind_eq rfl) meaningful

end Spelled

theorem mem_of_mem_joinGarbage {lexeme first : Lexeme} {others : List Lexeme}
    (mem : lexeme ∈ joinGarbage first others) (clean : lexeme.kind ≠ .garbage) :
    lexeme ∈ first :: others := by
  unfold joinGarbage at mem
  split at mem
  · exact mem
  · split at mem
    · rcases List.mem_cons.1 mem with rfl | mem
      · exact absurd rfl clean
      · exact List.mem_cons_of_mem _ (List.mem_cons_of_mem _ mem)
    · exact mem

theorem mem_of_mem_foldr_joinGarbage {lexeme : Lexeme} {found : List Lexeme}
    (mem : lexeme ∈ found.foldr joinGarbage []) (clean : lexeme.kind ≠ .garbage) :
    lexeme ∈ found := by
  induction found with
  | nil => exact mem
  | cons first found ih =>
      rcases List.mem_cons.1 (mem_of_mem_joinGarbage mem clean) with rfl | mem
      · exact List.mem_cons_self
      · exact List.mem_cons_of_mem _ (ih mem)

/-- Joining changes nothing where there is no garbage. -/
theorem foldr_joinGarbage {found : List Lexeme}
    (clean : ∀ lexeme ∈ found, lexeme.kind ≠ .garbage) :
    found.foldr joinGarbage [] = found := by
  induction found with
  | nil => rfl
  | cons first found ih =>
      rw [List.foldr_cons, ih fun lexeme mem => clean lexeme (List.mem_cons_of_mem _ mem)]
      cases found with
      | nil => rfl
      | cons second found => exact if_neg fun both => clean first List.mem_cons_self both.1

/-- A token without its place. -/
def Token.lexeme (token : Token) : Lexeme :=
  { kind := token.kind, text := token.text.toList }

theorem map_lexeme_placed (start line : Nat) (found : List Lexeme) :
    (placed start line found).map Token.lexeme = found := by
  induction found generalizing start line with
  | nil => rfl
  | cons first found ih => simp [placed, Token.lexeme, ih]

/-- The tokens of a text are its lexemes without blanks and comments. -/
theorem map_lexeme_tokens (source : String) :
    (tokens source).map Token.lexeme =
      ((lexemes source.toList).foldr joinGarbage []).filter (!·.kind.isTrivia) := by
  rw [tokens, ← map_lexeme_placed 0 1 (List.foldr joinGarbage [] _), List.filter_map,
    map_lexeme_placed]
  rfl

/-- Every token of a text is spelled, garbage apart. -/
theorem spelled_of_mem_tokens {source : String} {token : Token} (mem : token ∈ tokens source)
    (clean : token.kind ≠ .garbage) : Spelled token.kind token.text.toList := by
  have lexeme_mem : token.lexeme ∈ (tokens source).map Token.lexeme := List.mem_map_of_mem mem
  rw [map_lexeme_tokens, List.mem_filter] at lexeme_mem
  have meaningful : token.kind.IsMeaningful := ⟨by simpa [Token.lexeme] using lexeme_mem.2, clean⟩
  exact spelled_of_mem_lexemes (mem_of_mem_foldr_joinGarbage lexeme_mem.1 clean) meaningful

end VisiblyPushdown.Source
