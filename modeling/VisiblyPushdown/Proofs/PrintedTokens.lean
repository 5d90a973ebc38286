import VisiblyPushdown.Grammar.Printer
import VisiblyPushdown.Proofs.LegibleNames

/-!
# Tokens of a printed grammar

A grammar that is printed without marks consists of the tokens of its names and of the signs between
them, all of them set off by blanks or signs that no name goes on with. So if all names are legible,
the lexer finds exactly these tokens again.
-/

namespace VisiblyPushdown

namespace Source

/-- Whether a text consists of tokens and blanks, without any garbage. -/
structure ConsistsOf (source : List Char) (found : List Lexeme) : Prop where
  clean : ∀ lexeme ∈ lexemes source, lexeme.kind ≠ .garbage
  filter_eq : (lexemes source).filter (!·.kind.isTrivia) = found

@[simp]
theorem lexemes_nil : lexemes [] = [] :=
  rfl

theorem lexemes_blank {char : Char} (blank : isBlank char) (rest : List Char) :
    lexemes (char :: rest) =
      ⟨.blank, char :: rest.takeWhile isBlank⟩ :: lexemes (rest.dropWhile isBlank) := by
  have whole : char :: rest = (char :: rest.takeWhile isBlank) ++ rest.dropWhile isBlank := by simp
  rw [whole]
  apply lexemes_eq_cons (List.cons_ne_nil _ _)
  rw [← whole, firstLexeme_blank blank]
  rfl

namespace ConsistsOf

variable {source rest : List Char} {found front : List Lexeme}

theorem nil : ConsistsOf [] [] :=
  ⟨by simp, rfl⟩

theorem dropWhile (consists : ConsistsOf rest found) :
    ConsistsOf (rest.dropWhile isBlank) found := by
  rcases rest with _ | ⟨char, rest⟩
  · exact consists
  · by_cases blank : isBlank char
    · rcases consists with ⟨clean, filter_eq⟩
      rw [lexemes_blank blank] at clean filter_eq
      rw [List.dropWhile_cons_of_pos blank]
      exact ⟨fun lexeme mem => clean lexeme (List.mem_cons_of_mem _ mem), filter_eq⟩
    · rwa [List.dropWhile_cons_of_neg blank]

theorem trivia (consists : ConsistsOf rest found) {lexeme : Lexeme}
    (trivia : lexeme.kind.isTrivia) (cut : lexemes source = lexeme :: lexemes rest) :
    ConsistsOf source found := by
  rcases consists with ⟨clean, filter_eq⟩
  constructor
  · rw [cut]
    intro other mem
    rcases List.mem_cons.1 mem with rfl | mem
    · exact TokenKind.ne_garbage_of_isTrivia trivia
    · exact clean other mem
  · rw [cut, List.filter_cons_of_neg (by simp [trivia]), filter_eq]

theorem blank (consists : ConsistsOf rest found) (char : Char) (blank : isBlank char) :
    ConsistsOf (char :: rest) found :=
  consists.dropWhile.trivia rfl (lexemes_blank blank rest)

theorem cons (consists : ConsistsOf rest found) {kind : TokenKind} {text : List Char}
    (spelled : Spelled kind text) (ends : kind.EndsAt rest) :
    ConsistsOf (text ++ rest) (⟨kind, text⟩ :: found) := by
  rcases consists with ⟨clean, filter_eq⟩
  have meaningful := spelled.isMeaningful
  constructor
  · rw [lexemes_append spelled ends]
    intro lexeme mem
    rcases List.mem_cons.1 mem with rfl | mem
    · exact meaningful.2
    · exact clean lexeme mem
  · rw [lexemes_append spelled ends, List.filter_cons_of_pos (by simp [meaningful.1]), filter_eq]

theorem sign (consists : ConsistsOf rest found) (kind : TokenKind) {text : List Char}
    (known : kind.sign? = some text) (ends : kind.EndsAt rest) :
    ConsistsOf (text ++ rest) (⟨kind, text⟩ :: found) :=
  consists.cons (.sign known) ends

/-- Tokens that stay apart in front of a text that does not go on with any. -/
theorem append (consists : ConsistsOf rest found) (apart : StayApart front)
    (ends_all : EndsAll rest) : ConsistsOf (joined front ++ rest) (front ++ found) := by
  induction front with
  | nil => exact consists
  | cons lexeme front ih =>
      rcases apart with ⟨spelled, ends, apart⟩
      rw [joined_cons, List.append_assoc]
      exact (ih apart).cons spelled (ends.append ends_all)

theorem tokens {source : String} (consists : ConsistsOf source.toList found) :
    (tokens source).map Token.lexeme = found := by
  rw [map_lexeme_tokens, foldr_joinGarbage consists.clean, consists.filter_eq]

end ConsistsOf

theorem endsAll_cons {char : Char} (stops : ∀ kind : TokenKind, kind.goesOn char = false)
    (rest : List Char) : EndsAll (char :: rest) := by
  rintro kind _ ⟨⟩
  exact stops kind

theorem endsAll_blank (char : Char) (blank : isBlank char) (rest : List Char) :
    EndsAll (char :: rest) := by
  apply endsAll_cons
  simp only [isBlank, Bool.or_eq_true, decide_eq_true_eq] at blank
  rcases blank with (((rfl | rfl) | rfl) | rfl) | rfl <;> rintro (_ | _) <;> rfl

end Source

open Source

/-- The tokens of the name of a symbol. -/
def Symbol.lexemes (symbol : Symbol) : List Lexeme :=
  Source.lexemes symbol.name.toList

/-- The token of a mark. -/
def Repetition.lexemes : Repetition → List Lexeme
  | once => []
  | optional => [⟨.question, ['?']⟩]
  | star => [⟨.star, ['*']⟩]
  | plus => [⟨.plus, ['+']⟩]

/-- The tokens of an occurrence. -/
def Occurrence.lexemes (occurrence : Occurrence) : List Lexeme :=
  occurrence.symbol.lexemes ++ occurrence.repetition.lexemes

/-- The tokens of an alternative. -/
def Alternative.lexemes (alternative : Alternative) : List Lexeme :=
  alternative.flatMap Occurrence.lexemes

/-- The tokens of further alternatives, each with a bar in front of it. -/
def furtherLexemes (alternatives : List Alternative) : List Lexeme :=
  alternatives.flatMap fun alternative => ⟨.bar, ['|']⟩ :: alternative.lexemes

theorem furtherLexemes_cons (first : Alternative) (others : List Alternative) :
    furtherLexemes (first :: others) =
      ⟨.bar, ['|']⟩ :: (first.lexemes ++ furtherLexemes others) :=
  rfl

/-- The tokens of the alternatives of a rule. -/
def alternativesLexemes : List Alternative → List Lexeme
  | [] => []
  | first :: others => ⟨.colon, [':']⟩ :: (first.lexemes ++ furtherLexemes others)

namespace Symbol.IsLegible

variable {symbol : Symbol}

theorem writes_and_stayApart (legible : symbol.IsLegible) :
    Writes symbol.kind symbol.lexemes ∧ StayApart symbol.lexemes := by
  rcases legible with ⟨found, writes, apart, joined_eq⟩
  have ends_all : EndsAll [] := fun _ _ mem => by cases mem
  have lexemes_eq := lexemes_joined_append apart ends_all
  rw [List.append_nil, joined_eq, lexemes_nil, List.append_nil] at lexemes_eq
  rw [Symbol.lexemes, lexemes_eq]
  exact ⟨writes, apart⟩

theorem writes (legible : symbol.IsLegible) : Writes symbol.kind symbol.lexemes :=
  legible.writes_and_stayApart.1

theorem stayApart (legible : symbol.IsLegible) : StayApart symbol.lexemes :=
  legible.writes_and_stayApart.2

end Symbol.IsLegible

theorem Symbol.joined_lexemes (symbol : Symbol) : joined symbol.lexemes = symbol.name.toList :=
  text_lexemes symbol.name.toList

namespace Repetition

theorem joined_lexemes (repetition : Repetition) :
    joined repetition.lexemes = repetition.mark.toList := by
  cases repetition <;> decide

theorem stayApart (repetition : Repetition) : StayApart repetition.lexemes := by
  cases repetition with
  | once => trivial
  | _ => exact Spelled.stayApart (.sign rfl)

theorem endsAll_append (repetition : Repetition) {rest : List Char} (ends_all : EndsAll rest) :
    EndsAll (repetition.mark.toList ++ rest) := by
  cases repetition with
  | once => exact ends_all
  | _ => exact endsAll_cons (by rintro (_ | _) <;> rfl) rest

end Repetition

namespace Grammar

/-- The tokens of a printed rule. -/
def ruleLexemes (grammar : Grammar) (symbol : Symbol) : List Lexeme :=
  symbol.lexemes ++ (alternativesLexemes (grammar.alternatives symbol) ++ [⟨.semicolon, [';']⟩])

section Printing

variable (grammar : Grammar) {rest : List Char} {found : List Lexeme}

theorem toList_printOccurrence (occurrence : Occurrence) :
    (grammar.printOccurrence { marked := false } occurrence).toList =
      ' ' :: (occurrence.symbol.name.toList ++ occurrence.repetition.mark.toList) := by
  rcases occurrence with ⟨symbol, repetition⟩
  cases repetition <;> simp [printOccurrence, printSymbol, Palette.off, Repetition.mark]

theorem consistsOf_printOccurrence {occurrence : Occurrence}
    (legible : occurrence.symbol.IsLegible) (consists : ConsistsOf rest found)
    (ends_all : EndsAll rest) :
    ConsistsOf ((grammar.printOccurrence { marked := false } occurrence).toList ++ rest)
      (occurrence.lexemes ++ found) := by
  have marked := consists.append occurrence.repetition.stayApart ends_all
  rw [Repetition.joined_lexemes] at marked
  have named := marked.append legible.stayApart (occurrence.repetition.endsAll_append ends_all)
  rw [Symbol.joined_lexemes] at named
  rw [toList_printOccurrence, Occurrence.lexemes, List.cons_append, List.append_assoc,
    List.append_assoc]
  exact named.blank ' ' rfl

theorem toList_printAlternative_cons (occurrence : Occurrence) (alternative : Alternative) :
    (grammar.printAlternative { marked := false } (occurrence :: alternative)).toList =
      (grammar.printOccurrence { marked := false } occurrence).toList ++
        (grammar.printAlternative { marked := false } alternative).toList := by
  simp [printAlternative]

theorem endsAll_printAlternative (alternative : Alternative) (ends_all : EndsAll rest) :
    EndsAll ((grammar.printAlternative { marked := false } alternative).toList ++ rest) := by
  cases alternative with
  | nil => exact ends_all
  | cons occurrence alternative =>
      rw [toList_printAlternative_cons, toList_printOccurrence]
      exact endsAll_blank _ rfl _

theorem consistsOf_printAlternative {alternative : Alternative}
    (legible : ∀ occurrence ∈ alternative, occurrence.symbol.IsLegible)
    (consists : ConsistsOf rest found) (ends_all : EndsAll rest) :
    ConsistsOf ((grammar.printAlternative { marked := false } alternative).toList ++ rest)
      (alternative.lexemes ++ found) := by
  induction alternative with
  | nil => exact consists
  | cons occurrence alternative ih =>
      have others := ih fun occurrence mem => legible occurrence (List.mem_cons_of_mem _ mem)
      rw [toList_printAlternative_cons, Alternative.lexemes, List.flatMap_cons, List.append_assoc,
        List.append_assoc]
      exact grammar.consistsOf_printOccurrence (legible occurrence List.mem_cons_self) others
        (grammar.endsAll_printAlternative alternative ends_all)

/-- Further alternatives as they are printed, each on a line of its own. -/
def furtherText (alternatives : List Alternative) : List Char :=
  alternatives.flatMap fun alternative =>
    '\n' :: '\t' :: '|' :: (grammar.printAlternative { marked := false } alternative).toList

theorem endsAll_furtherText (alternatives : List Alternative) (ends_all : EndsAll rest) :
    EndsAll (grammar.furtherText alternatives ++ rest) := by
  cases alternatives with
  | nil => exact ends_all
  | cons alternative alternatives => exact endsAll_blank _ rfl _

theorem consistsOf_furtherText {alternatives : List Alternative}
    (legible : ∀ alternative ∈ alternatives, ∀ occurrence ∈ alternative,
      occurrence.symbol.IsLegible)
    (consists : ConsistsOf rest found) (ends_all : EndsAll rest) :
    ConsistsOf (grammar.furtherText alternatives ++ rest)
      (furtherLexemes alternatives ++ found) := by
  induction alternatives with
  | nil => exact consists
  | cons alternative alternatives ih =>
      have others := ih fun alternative mem => legible alternative (List.mem_cons_of_mem _ mem)
      have first := grammar.consistsOf_printAlternative (legible alternative List.mem_cons_self)
        others (grammar.endsAll_furtherText alternatives ends_all)
      have barred := first.sign .bar rfl fun _ _ => rfl
      rw [furtherText, furtherLexemes, List.flatMap_cons, List.flatMap_cons, List.append_assoc,
        List.append_assoc]
      exact (barred.blank '\t' rfl).blank '\n' rfl

theorem toList_printAlternatives_cons (first : Alternative) (others : List Alternative) :
    (grammar.printAlternatives { marked := false } (first :: others)).toList =
      '\t' :: ':' :: ((grammar.printAlternative { marked := false } first).toList ++
        grammar.furtherText others) := by
  simp [printAlternatives, furtherText, Palette.off, List.flatMap_map]

theorem consistsOf_printAlternatives {alternatives : List Alternative}
    (legible : ∀ alternative ∈ alternatives, ∀ occurrence ∈ alternative,
      occurrence.symbol.IsLegible)
    (consists : ConsistsOf rest found) (ends_all : EndsAll rest) :
    ConsistsOf ((grammar.printAlternatives { marked := false } alternatives).toList ++ rest)
      (alternativesLexemes alternatives ++ found) := by
  cases alternatives with
  | nil => exact consists
  | cons first others =>
      have further := grammar.consistsOf_furtherText
        (fun alternative mem => legible alternative (List.mem_cons_of_mem _ mem)) consists ends_all
      have further_ends := grammar.endsAll_furtherText others ends_all
      have both := grammar.consistsOf_printAlternative (legible first List.mem_cons_self) further
        further_ends
      have led := both.sign .colon rfl (grammar.endsAll_printAlternative first further_ends _)
      rw [toList_printAlternatives_cons, alternativesLexemes]
      simpa using led.blank '\t' rfl

theorem endsAll_printAlternatives (alternatives : List Alternative) (ends_all : EndsAll rest) :
    EndsAll ((grammar.printAlternatives { marked := false } alternatives).toList ++ rest) := by
  cases alternatives with
  | nil => exact ends_all
  | cons first others =>
      rw [toList_printAlternatives_cons]
      exact endsAll_blank _ rfl _

/-- Whether all names are legible that a rule is printed with. -/
def IsLegibleRule (symbol : Symbol) : Prop :=
  symbol.IsLegible ∧ ∀ alternative ∈ grammar.alternatives symbol, ∀ occurrence ∈ alternative,
    occurrence.symbol.IsLegible

theorem toList_printRule (symbol : Symbol) :
    (grammar.printRule { marked := false } symbol).toList =
      symbol.name.toList ++
        ((grammar.printAlternatives { marked := false } (grammar.alternatives symbol)).toList ++
          ['\n', '\t', ';']) := by
  simp [printRule, Palette.off]

theorem consistsOf_printRule {symbol : Symbol} (legible : grammar.IsLegibleRule symbol)
    (consists : ConsistsOf rest found) :
    ConsistsOf ((grammar.printRule { marked := false } symbol).toList ++ rest)
      (grammar.ruleLexemes symbol ++ found) := by
  have ended := consists.sign .semicolon rfl fun _ _ => rfl
  have indented := (ended.blank '\t' rfl).blank '\n' rfl
  have ends := endsAll_blank '\n' rfl ('\t' :: ([';'] ++ rest))
  have body := grammar.consistsOf_printAlternatives legible.2 indented ends
  have named := body.append legible.1.stayApart (grammar.endsAll_printAlternatives _ ends)
  rw [Symbol.joined_lexemes] at named
  rw [toList_printRule, ruleLexemes]
  simpa using named

/-- The tokens of a printed grammar. -/
def lexemes : List Lexeme :=
  grammar.reachable.flatMap grammar.ruleLexemes

theorem consistsOf_printRules {symbols : List Symbol}
    (legible : ∀ symbol ∈ symbols, grammar.IsLegibleRule symbol) :
    ConsistsOf ("\n\n".intercalate (symbols.map (grammar.printRule { marked := false }))).toList
      (symbols.flatMap grammar.ruleLexemes) := by
  induction symbols with
  | nil => exact .nil
  | cons symbol symbols ih =>
      have others := ih fun symbol mem => legible symbol (List.mem_cons_of_mem _ mem)
      have symbol_legible := legible symbol List.mem_cons_self
      cases symbols with
      | nil =>
          simpa using grammar.consistsOf_printRule symbol_legible .nil
      | cons next symbols =>
          have both := grammar.consistsOf_printRule symbol_legible
            ((others.blank '\n' rfl).blank '\n' rfl)
          rw [List.map_cons, List.map_cons, String.intercalate_cons_cons]
          simpa using both

/-- The tokens of a printed grammar are those of its names and signs. -/
theorem map_lexeme_tokens_print
    (legible : ∀ symbol ∈ grammar.reachable, grammar.IsLegibleRule symbol) :
    (tokens (grammar.print { marked := false })).map Token.lexeme = grammar.lexemes :=
  (grammar.consistsOf_printRules legible).tokens

end Printing

end Grammar

end VisiblyPushdown
