import VisiblyPushdown.Proofs.LongestMatch
import VisiblyPushdown.Proofs.PrintedTokens
import VisiblyPushdown.Proofs.Unplaced

/-!
# Layout

Blanks and comments between tokens mean nothing. When the tokens of a text without garbage are
written anew, with blanks or line comments around each of them, the lexer finds the same kinds and
texts, and the parser reads the same.
-/

namespace VisiblyPushdown.Source

/-- Text between tokens: blanks and line comments with the line feeds that close them. -/
inductive Gap : List Char → Prop
  | blank {run : List Char} : Idle .blank run → Gap run
  | lineComment {comment : List Char} : Idle .lineComment comment → Gap (comment ++ ['\n'])
  | append {front back : List Char} : Gap front → Gap back → Gap (front ++ back)

/-- Whether a text consists of the given ones in order, with gaps between them and at both ends. -/
inductive LaidOut : (texts : List String) → List Char → Prop
  | nil {gap : List Char} : Gap gap → LaidOut [] gap
  | cons {text : String} {texts : List String} {gap rest : List Char} : Gap gap →
      LaidOut texts rest → LaidOut (text :: texts) (gap ++ text.toList ++ rest)

section Gaps

variable {gap rest body : List Char} {found : List Lexeme}

theorem lexemes_lineComment (on_line : ∀ char ∈ body, char ≠ '\n') (rest : List Char) :
    lexemes ('/' :: '/' :: body ++ '\n' :: rest) =
      ⟨.lineComment, '/' :: '/' :: body⟩ :: lexemes ('\n' :: rest) := by
  apply lexemes_eq_cons (List.cons_ne_nil _ _)
  have body_eq : (body ++ '\n' :: rest).takeWhile (· ≠ '\n') = body := by
    rw [List.takeWhile_append_of_pos (by simpa using on_line)]
    simp
  simp only [List.cons_append, firstLexeme, body_eq, List.length_cons]

theorem ConsistsOf.lineComment (consists : ConsistsOf rest found)
    (on_line : ∀ char ∈ body, char ≠ '\n') :
    ConsistsOf ('/' :: '/' :: body ++ '\n' :: rest) found :=
  (consists.blank '\n' rfl).trivia rfl (lexemes_lineComment on_line rest)

theorem ConsistsOf.blanks {run : List Char} (consists : ConsistsOf rest found)
    (blank : ∀ char ∈ run, isBlank char) : ConsistsOf (run ++ rest) found := by
  induction run with
  | nil => exact consists
  | cons char run ih =>
      have others := ih fun char mem => blank char (List.mem_cons_of_mem _ mem)
      exact others.blank char (blank char List.mem_cons_self)

/-- A gap adds no token to the text behind it. -/
theorem Gap.consistsOf (gaps : Gap gap) (consists : ConsistsOf rest found) :
    ConsistsOf (gap ++ rest) found := by
  induction gaps generalizing rest with
  | blank idle =>
      cases idle with
      | blank first_blank blank => exact (consists.blanks blank).blank _ first_blank
  | lineComment idle =>
      cases idle with
      | lineComment on_line =>
          rw [List.append_assoc]
          exact consists.lineComment on_line
  | append _ _ front_ih back_ih =>
      rw [List.append_assoc]
      exact front_ih (back_ih consists)

/-- Every token ends where a gap begins. -/
theorem Gap.endsAll (gaps : Gap gap) (rest : List Char) : EndsAll (gap ++ rest) := by
  induction gaps generalizing rest with
  | blank idle =>
      cases idle with
      | blank first_blank blank => exact endsAll_blank _ first_blank _
  | lineComment idle =>
      cases idle with
      | lineComment on_line => exact endsAll_cons (by rintro (_ | _) <;> rfl) _
  | append _ _ front_ih _ =>
      rw [List.append_assoc]
      exact front_ih _

end Gaps

section LaidOut

variable {texts : List String} {found : List Token} {source : List Char}

theorem LaidOut.endsAll (laid_out : LaidOut texts source) : EndsAll source := by
  cases laid_out with
  | nil gap =>
      have ends_all := gap.endsAll []
      rwa [List.append_nil] at ends_all
  | cons gap _ =>
      rw [List.append_assoc]
      exact gap.endsAll _

/-- Texts of tokens that are laid out are found again. -/
theorem LaidOut.consistsOf (laid_out : LaidOut (found.map Token.text) source)
    (spelled : ∀ token ∈ found, Spelled token.kind token.text.toList) :
    ConsistsOf source (found.map Token.lexeme) := by
  induction found generalizing source with
  | nil =>
      cases laid_out with
      | nil gap => simpa using gap.consistsOf .nil
  | cons token found ih =>
      cases laid_out with
      | cons gap others =>
          have consists := ih others fun token mem => spelled token (List.mem_cons_of_mem _ mem)
          rw [List.append_assoc]
          exact gap.consistsOf
            (consists.cons (spelled token List.mem_cons_self) (others.endsAll token.kind))

/-- How tokens are laid out changes neither the tokens nor what is read from them. -/
theorem parse_of_laidOut {source other : String}
    (clean : ∀ token ∈ tokens source, token.kind ≠ .garbage)
    (laid_out : LaidOut ((tokens source).map Token.text) other.toList) :
    (tokens other).map Token.lexeme = (tokens source).map Token.lexeme ∧
      (parse other).mapError GrammarError.unplaced =
        (parse source).mapError GrammarError.unplaced := by
  have same : (tokens other).map Token.lexeme = (tokens source).map Token.lexeme := by
    apply ConsistsOf.tokens
    exact laid_out.consistsOf fun token mem => spelled_of_mem_tokens mem (clean token mem)
  exact ⟨same, parse_of_map_lexeme_eq same⟩

/-- A rule that is not ended, and the same rule over several lines. -/
theorem parse_of_laidOut_unended :
    (∀ token ∈ tokens "s:'a'", token.kind ≠ .garbage) ∧
      LaidOut ((tokens "s:'a'").map Token.text) " s //name\n:\t'a'\n".toList ∧
      (tokens " s //name\n:\t'a'\n").map Token.lexeme = (tokens "s:'a'").map Token.lexeme ∧
      (parse " s //name\n:\t'a'\n").mapError GrammarError.unplaced =
        (parse "s:'a'").mapError GrammarError.unplaced ∧
      parse "s:'a'" = .error (.malformed 1 (.expected "`;`" none)) ∧
      parse " s //name\n:\t'a'\n" = .error (.malformed 3 (.expected "`;`" none)) := by
  have clean : ∀ token ∈ tokens "s:'a'", token.kind ≠ .garbage := by decide
  have blank {char : Char} (blank : isBlank char) : Gap [char] :=
    .blank (.blank blank fun _ mem => by cases mem)
  have on_line : ∀ char ∈ "name".toList, char ≠ '\n' := by simp
  have comment : Gap ("//name".toList ++ ['\n']) := .lineComment (.lineComment on_line)
  have pieces : " s //name\n:\t'a'\n".toList = [' '] ++ "s".toList ++
      (([' '] ++ ("//name".toList ++ ['\n'])) ++ ":".toList ++
        (['\t'] ++ "'a'".toList ++ ['\n'])) := by decide
  have laid_out : LaidOut ["s", ":", "'a'"] " s //name\n:\t'a'\n".toList := by
    rw [pieces]
    exact .cons (blank rfl) (.cons (.append (blank rfl) comment)
      (.cons (blank rfl) (.nil (blank rfl))))
  have texts_eq : (tokens "s:'a'").map Token.text = ["s", ":", "'a'"] := by decide
  rw [← texts_eq] at laid_out
  rcases parse_of_laidOut clean laid_out with ⟨same, read_eq⟩
  exact ⟨clean, laid_out, same, read_eq, by decide, by decide⟩

end LaidOut

end VisiblyPushdown.Source
