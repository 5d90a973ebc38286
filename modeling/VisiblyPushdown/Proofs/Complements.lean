import VisiblyPushdown.Proofs.Spelling
import VisiblyPushdown.Source.Cursor

/-!
# Complements of sets

The complement of a set is a terminal that is named after its tokens, written without anything
between them. There a token may run into the next one: two names become one name, two colons become
a double colon. The name can be read again nevertheless. No such union is a parenthesis, so the set
still ends in the same place.
-/

namespace VisiblyPushdown.Source

/-- The text of some tokens, written without anything between them. -/
def joined (found : List Lexeme) : List Char :=
  found.flatMap Lexeme.text

@[simp]
theorem joined_nil : joined [] = [] :=
  rfl

@[simp]
theorem joined_cons (lexeme : Lexeme) (found : List Lexeme) :
    joined (lexeme :: found) = lexeme.text ++ joined found :=
  rfl

/-- Whether tokens, written without anything between them, stay apart. -/
def StayApart : List Lexeme → Prop
  | [] => True
  | lexeme :: found =>
    Spelled lexeme.kind lexeme.text ∧ lexeme.kind.EndsAt (joined found) ∧ StayApart found

/-- Whether every token ends where a text follows it. -/
def EndsAll (rest : List Char) : Prop :=
  ∀ kind : TokenKind, kind.EndsAt rest

theorem TokenKind.EndsAt.append {kind : TokenKind} {text rest : List Char}
    (ends : kind.EndsAt text) (ends_all : EndsAll rest) : kind.EndsAt (text ++ rest) := by
  cases text with
  | nil => exact ends_all kind
  | cons char text => exact ends

theorem TokenKind.goesOn_of_not_endsAt {kind : TokenKind} {char : Char} {rest : List Char}
    (unended : ¬ kind.EndsAt (char :: rest)) : kind.goesOn char := by
  by_contra stops
  apply unended
  rintro _ ⟨⟩
  exact Bool.eq_false_iff.2 stops

/-- Tokens that stay apart are cut off one by one. -/
theorem lexemes_joined_append {found : List Lexeme} {rest : List Char} (apart : StayApart found)
    (ends_all : EndsAll rest) : lexemes (joined found ++ rest) = found ++ lexemes rest := by
  induction found with
  | nil => rfl
  | cons lexeme found ih =>
      rcases apart with ⟨spelled, ends, apart⟩
      rw [joined_cons, List.append_assoc, lexemes_append spelled (ends.append ends_all), ih apart]
      rfl

/-- Whether tokens of the kind open or close a group. -/
def TokenKind.isParen : TokenKind → Bool
  | .leftParen | .rightParen => true
  | _ => false

/--
Whether tokens, one after the other, end with the parenthesis that closes a group. `depth` counts
the groups inside it that are open.
-/
inductive Closes : (depth : Nat) → List Lexeme → Prop
  | last : Closes 0 [⟨.rightParen, [')']⟩]
  | close {depth : Nat} {found : List Lexeme} : Closes depth found →
      Closes (depth + 1) (⟨.rightParen, [')']⟩ :: found)
  | opening {depth : Nat} {found : List Lexeme} : Closes (depth + 1) found →
      Closes depth (⟨.leftParen, ['(']⟩ :: found)
  | other {lexeme : Lexeme} {depth : Nat} {found : List Lexeme} :
      lexeme.kind.isParen = false → Spelled lexeme.kind lexeme.text → Closes depth found →
      Closes depth (lexeme :: found)

section Unions

variable {kind : TokenKind} {text : List Char}

theorem Spelled.eq_sign {sign : List Char} (spelled : Spelled kind text)
    (known : kind.sign? = some sign) : text = sign := by
  cases spelled with
  | sign found => exact Option.some.inj (found.symm.trans known)
  | _ => cases known

theorem Spelled.eq_identifier {first : Char} (spelled : Spelled kind (first :: text))
    (continues : continuesIdentifier first) : kind = .identifier := by
  cases spelled with
  | sign found => cases kind <;> cases found <;> cases continues
  | identifier _ _ => rfl
  | _ => cases continues

theorem Spelled.eq_assign (spelled : Spelled kind ('=' :: text)) : kind = .assign ∧ text = [] := by
  cases spelled with
  | sign found => cases kind <;> cases found; exact ⟨rfl, rfl⟩
  | identifier starts _ => cases starts

theorem Spelled.eq_colon (spelled : Spelled kind (':' :: text)) :
    (⟨kind, ':' :: text⟩ : Lexeme) = ⟨.colon, [':']⟩ ∨
      (⟨kind, ':' :: text⟩ : Lexeme) = ⟨.doubleColon, [':', ':']⟩ := by
  cases spelled with
  | sign found => cases kind <;> cases found <;> simp
  | identifier starts _ => cases starts

theorem Spelled.eq_dot (spelled : Spelled kind ('.' :: text)) :
    (⟨kind, '.' :: text⟩ : Lexeme) = ⟨.dot, ['.']⟩ ∨
      (⟨kind, '.' :: text⟩ : Lexeme) = ⟨.range, ['.', '.']⟩ := by
  cases spelled with
  | sign found => cases kind <;> cases found <;> simp
  | identifier starts _ => cases starts

theorem continuesIdentifier_of_startsIdentifier {char : Char} (starts : startsIdentifier char) :
    continuesIdentifier char := by
  simp only [startsIdentifier, continuesIdentifier, Char.isAlphanum, Bool.or_eq_true] at starts ⊢
  exact starts.imp_left .inl

theorem Spelled.append_identifier {more : List Char} (spelled : Spelled .identifier text)
    (more_spelled : Spelled .identifier more) : Spelled .identifier (text ++ more) := by
  cases spelled with
  | sign found => cases found
  | @identifier first rest starts continues =>
      cases more_spelled with
      | sign found => cases found
      | @identifier next others next_starts next_continues =>
          refine .identifier starts ?_
          intro char mem
          rcases List.mem_append.1 mem with mem | mem
          · exact continues char mem
          · rcases List.mem_cons.1 mem with rfl | mem
            · exact continuesIdentifier_of_startsIdentifier next_starts
            · exact next_continues char mem

end Unions

section Closes

variable {kind : TokenKind} {text : List Char} {lexeme : Lexeme} {found : List Lexeme} {depth : Nat}

theorem Closes.tail (closes : Closes depth (lexeme :: found))
    (not_paren : lexeme.kind.isParen = false) : Closes depth found := by
  cases closes with
  | other _ _ closes => exact closes
  | _ => cases not_paren

/-- Whether tokens close a group, stay apart and make up a text. -/
structure Groups (depth : Nat) (found : List Lexeme) (text : List Char) : Prop where
  closes : Closes depth found
  apart : StayApart found
  joined_eq : joined found = text

namespace Groups

variable {rest : List Char}

theorem tail (groups : Groups depth (lexeme :: found) rest)
    (not_paren : lexeme.kind.isParen = false) : Groups depth found (joined found) :=
  ⟨groups.closes.tail not_paren, groups.apart.2.2, rfl⟩

/-- A token that cannot go on stays apart from everything. -/
theorem cons (groups : Groups depth found rest) {outer : Nat} (spelled : Spelled kind text)
    (whole : ∀ char, kind.goesOn char = false) (closes : Closes outer (⟨kind, text⟩ :: found)) :
    Groups outer (⟨kind, text⟩ :: found) (text ++ rest) :=
  ⟨closes, ⟨spelled, fun char _ => whole char, groups.apart⟩,
    by rw [joined_cons, groups.joined_eq]⟩

/--
Two single signs make a double one, and a single sign moves behind the double one it meets.
-/
theorem exists_double {single double : TokenKind} {char : Char}
    (groups : Groups depth (lexeme :: found) rest)
    (twin : lexeme = ⟨single, [char]⟩ ∨ lexeme = ⟨double, [char, char]⟩)
    (double_spelled : Spelled double [char, char]) (not_single : single.isParen = false)
    (not_double : double.isParen = false) (whole : ∀ char, double.goesOn char = false)
    (behind : Groups depth found (joined found) →
      ∃ united, Groups depth united ([char] ++ joined found)) :
    ∃ united, Groups depth united ([char] ++ rest) := by
  obtain rfl := groups.joined_eq
  have double_cons {united : List Lexeme} {text : List Char} (others : Groups depth united text) :
      Groups depth (⟨double, [char, char]⟩ :: united) ([char, char] ++ text) :=
    others.cons double_spelled whole (.other not_double double_spelled others.closes)
  rcases twin with rfl | rfl
  · exact ⟨_, double_cons (groups.tail not_single)⟩
  · rcases behind (groups.tail not_double) with ⟨united, others⟩
    exact ⟨_, double_cons others⟩

/-- A token that is put in front of others unites with what it goes on with. -/
theorem exists_cons (groups : Groups depth found rest) (not_paren : kind.isParen = false)
    (spelled : Spelled kind text) : ∃ united, Groups depth united (text ++ rest) := by
  induction found generalizing kind text rest with
  | nil => cases groups.closes
  | cons next found ih =>
      obtain rfl := groups.joined_eq
      by_cases ends : kind.EndsAt (joined (next :: found))
      · exact ⟨⟨kind, text⟩ :: next :: found, .other not_paren spelled groups.closes,
          ⟨spelled, ends, groups.apart⟩, rfl⟩
      rcases next with ⟨next_kind, next_text⟩
      have next_spelled := groups.apart.1
      rcases next_text with _ | ⟨char, next_text⟩
      · exact absurd rfl next_spelled.ne_nil
      have goes_on : kind.goesOn char := TokenKind.goesOn_of_not_endsAt ends
      -- Only a name and three of the signs go on with something.
      cases kind with
      | identifier =>
          obtain rfl := next_spelled.eq_identifier goes_on
          have both := spelled.append_identifier next_spelled
          have next_ends := groups.apart.2.1
          refine ⟨⟨.identifier, text ++ char :: next_text⟩ :: found, ?_, ?_, ?_⟩
          · exact .other rfl both (groups.closes.tail rfl)
          · exact ⟨both, next_ends, groups.apart.2.2⟩
          · simp
      | plus =>
          obtain rfl := of_decide_eq_true goes_on
          rcases next_spelled.eq_assign with ⟨rfl, rfl⟩
          obtain rfl := spelled.eq_sign rfl
          have both : Spelled .plusAssign ['+', '='] := .sign rfl
          have others := groups.tail rfl
          exact ⟨_, others.cons both (fun _ => rfl) (.other rfl both others.closes)⟩
      | colon =>
          obtain rfl := of_decide_eq_true goes_on
          obtain rfl := spelled.eq_sign rfl
          exact groups.exists_double next_spelled.eq_colon (.sign rfl) rfl rfl (fun _ => rfl)
            fun others => ih others rfl spelled
      | dot =>
          obtain rfl := of_decide_eq_true goes_on
          obtain rfl := spelled.eq_sign rfl
          exact groups.exists_double next_spelled.eq_dot (.sign rfl) rfl rfl (fun _ => rfl)
            fun others => ih others rfl spelled
      | _ => cases goes_on

end Groups

/-- The tokens of a group are read again from their joined text, some of them united. -/
theorem Closes.exists_groups (closes : Closes depth found) :
    ∃ united, Groups depth united (joined found) := by
  induction closes with
  | last => exact ⟨_, .last, ⟨.sign rfl, fun _ _ => rfl, trivial⟩, rfl⟩
  | close _ ih =>
      rcases ih with ⟨united, groups⟩
      exact ⟨_, groups.cons (.sign rfl) (fun _ => rfl) (.close groups.closes)⟩
  | opening _ ih =>
      rcases ih with ⟨united, groups⟩
      exact ⟨_, groups.cons (.sign rfl) (fun _ => rfl) (.opening groups.closes)⟩
  | other not_paren spelled _ ih =>
      rcases ih with ⟨united, groups⟩
      exact groups.exists_cons not_paren spelled

section ClosingParen

variable {token : Token} {tokens : List Token}

theorem closingParen?_cons (depth : Nat) (tokens : List Token)
    (not_paren : token.kind.isParen = false) :
    closingParen? depth (token :: tokens) = (closingParen? depth tokens).map (· + 1) := by
  rw [closingParen?]
  split
  · next kind_eq =>
      rw [kind_eq] at not_paren
      cases not_paren
  · next kind_eq =>
      rw [kind_eq] at not_paren
      cases not_paren
  · rfl

theorem closingParen?_cons_opening (depth : Nat) (tokens : List Token)
    (opens : token.kind = .leftParen) :
    closingParen? depth (token :: tokens) = (closingParen? (depth + 1) tokens).map (· + 1) := by
  rw [closingParen?, opens]

theorem closingParen?_cons_last (tokens : List Token) (closes : token.kind = .rightParen) :
    closingParen? 1 (token :: tokens) = some 0 := by
  simp [closingParen?, closes]

theorem closingParen?_cons_close (depth : Nat) (tokens : List Token)
    (closes : token.kind = .rightParen) :
    closingParen? (depth + 2) (token :: tokens) =
      (closingParen? (depth + 1) tokens).map (· + 1) := by
  simp [closingParen?, closes]

end ClosingParen

/-- The parser finds the parenthesis that closes a group. -/
theorem Closes.closingParen?_eq (closes : Closes depth found) {rest : List Lexeme}
    {tokens : List Token} (same : tokens.map Token.lexeme = found ++ rest) :
    ∃ inner, closingParen? (depth + 1) tokens = some inner ∧ found.length = inner + 1 := by
  induction closes generalizing tokens with
  | last =>
      rcases List.map_eq_cons_iff.1 same with ⟨token, others, rfl, token_eq, _⟩
      exact ⟨0, closingParen?_cons_last others (congrArg Lexeme.kind token_eq), rfl⟩
  | close _ ih =>
      rcases List.map_eq_cons_iff.1 same with ⟨token, others, rfl, token_eq, others_eq⟩
      rcases ih others_eq with ⟨inner, inner_eq, length_eq⟩
      refine ⟨inner + 1, ?_, congrArg (· + 1) length_eq⟩
      rw [closingParen?_cons_close _ _ (congrArg Lexeme.kind token_eq), inner_eq]
      rfl
  | opening _ ih =>
      rcases List.map_eq_cons_iff.1 same with ⟨token, others, rfl, token_eq, others_eq⟩
      rcases ih others_eq with ⟨inner, inner_eq, length_eq⟩
      refine ⟨inner + 1, ?_, congrArg (· + 1) length_eq⟩
      rw [closingParen?_cons_opening _ _ (congrArg Lexeme.kind token_eq), inner_eq]
      rfl
  | other not_paren _ _ ih =>
      rcases List.map_eq_cons_iff.1 same with ⟨token, others, rfl, rfl, others_eq⟩
      rcases ih others_eq with ⟨inner, inner_eq, length_eq⟩
      refine ⟨inner + 1, ?_, congrArg (· + 1) length_eq⟩
      rw [closingParen?_cons _ _ not_paren, inner_eq]
      rfl

/-- What the parser takes for a group is one. -/
theorem closes_of_closingParen? {tokens : List Token} {inner : Nat}
    (spelled : ∀ token ∈ tokens, Spelled token.kind token.text.toList)
    (found : closingParen? (depth + 1) tokens = some inner) :
    Closes depth ((tokens.take (inner + 1)).map Token.lexeme) := by
  induction tokens generalizing depth inner with
  | nil => cases found
  | cons token tokens ih =>
      have token_spelled := spelled token List.mem_cons_self
      have others_spelled (token : Token) (mem : token ∈ tokens) :=
        spelled token (List.mem_cons_of_mem _ mem)
      have sign_eq {kind : TokenKind} {sign : List Char} (kind_eq : token.kind = kind)
          (known : kind.sign? = some sign) : token.lexeme = ⟨kind, sign⟩ := by
        subst kind_eq
        rw [Token.lexeme, token_spelled.eq_sign known]
      rw [List.take_succ_cons, List.map_cons]
      cases kind_eq : token.kind with
      | leftParen =>
          rw [closingParen?_cons_opening _ _ kind_eq, Option.map_eq_some_iff] at found
          rcases found with ⟨inner, inner_found, rfl⟩
          rw [sign_eq kind_eq rfl]
          exact .opening (ih others_spelled inner_found)
      | rightParen =>
          rw [sign_eq kind_eq rfl]
          cases depth with
          | zero =>
              rw [closingParen?_cons_last _ kind_eq] at found
              cases found
              exact .last
          | succ depth =>
              rw [closingParen?_cons_close _ _ kind_eq, Option.map_eq_some_iff] at found
              rcases found with ⟨inner, inner_found, rfl⟩
              exact .close (ih others_spelled inner_found)
      | _ =>
          have not_paren : token.kind.isParen = false := by rw [kind_eq]; rfl
          rw [closingParen?_cons _ _ not_paren, Option.map_eq_some_iff] at found
          rcases found with ⟨inner, inner_found, rfl⟩
          exact .other not_paren token_spelled (ih others_spelled inner_found)

end Closes

end VisiblyPushdown.Source
