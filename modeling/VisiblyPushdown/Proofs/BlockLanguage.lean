import VisiblyPushdown.Proofs.CommentEnds

/-!
# The language of blocks

A block is an opening delimiter, any number of items and a closing delimiter. Items are characters
hidden by a backslash, blocks of the same delimiters, quoted runs where quotes have a meaning, and
single characters without a meaning. The scan for the end of a block, which counts open delimiters
and remembers the quote that it is in, finds exactly the blocks of this language, and a text begins
with at most one of them.
-/

namespace VisiblyPushdown.Source

/-- Text that may stand between two quotes. -/
inductive Quoted (quote : Char) : List Char → Prop
  | nil : Quoted quote []
  | char {char : Char} {rest : List Char} : char ≠ quote → char ≠ '\\' → Quoted quote rest →
      Quoted quote (char :: rest)
  | pair {hidden : Char} {rest : List Char} : Quoted quote rest →
      Quoted quote ('\\' :: hidden :: rest)

namespace Delimiters

/-- Whether a character begins a quoted run in a block. -/
def IsQuote (delimiters : Delimiters) (char : Char) : Prop :=
  delimiters.quotes ∧ (char = '"' ∨ char = '\'')

/-- Whether no character of a block has two meanings. -/
structure AreApart (delimiters : Delimiters) : Prop where
  opening_ne_closing : delimiters.opening ≠ delimiters.closing
  opening_ne_backslash : delimiters.opening ≠ '\\'
  closing_ne_backslash : delimiters.closing ≠ '\\'
  opening_not_quote : ¬ delimiters.IsQuote delimiters.opening
  closing_not_quote : ¬ delimiters.IsQuote delimiters.closing

theorem areApart_braces : braces.AreApart := by
  constructor <;> simp [braces, IsQuote]

theorem areApart_brackets : brackets.AreApart := by
  constructor <;> simp [brackets, IsQuote]

end Delimiters

/-- A piece of what stands between the delimiters of a block. -/
inductive IsItem (delimiters : Delimiters) : List Char → Prop
  | pair (hidden : Char) : IsItem delimiters ['\\', hidden]
  | block {items : List (List Char)} : (∀ item ∈ items, IsItem delimiters item) →
      IsItem delimiters (delimiters.opening :: (items.flatten ++ [delimiters.closing]))
  | quoted {quote : Char} {inside : List Char} : delimiters.IsQuote quote → Quoted quote inside →
      IsItem delimiters (quote :: (inside ++ [quote]))
  | char {char : Char} : char ≠ delimiters.opening → char ≠ delimiters.closing → char ≠ '\\' →
      ¬ delimiters.IsQuote char → IsItem delimiters [char]

/-- Items between an opening and a closing delimiter. -/
def IsBlock (delimiters : Delimiters) (text : List Char) : Prop :=
  ∃ items : List (List Char), (∀ item ∈ items, IsItem delimiters item) ∧
    text = delimiters.opening :: (items.flatten ++ [delimiters.closing])

/-- The end of a block in which more blocks are open, with the items that stand in it. -/
inductive ClosesBlocks (delimiters : Delimiters) : (depth : Nat) → List Char → Prop
  | last : ClosesBlocks delimiters 0 [delimiters.closing]
  | close {depth : Nat} {rest : List Char} : ClosesBlocks delimiters depth rest →
      ClosesBlocks delimiters (depth + 1) (delimiters.closing :: rest)
  | item {depth : Nat} {item rest : List Char} : IsItem delimiters item →
      ClosesBlocks delimiters depth rest → ClosesBlocks delimiters depth (item ++ rest)

section Scan

variable {delimiters : Delimiters} {depth length : Nat} {quote : Option Char}
  {item rest text other : List Char}

theorem IsBlock.isItem (block : IsBlock delimiters text) : IsItem delimiters text := by
  rcases block with ⟨items, are_items, rfl⟩
  exact .block are_items

namespace ClosesBlocks

/-- What stands in the innermost block is in front of the delimiter that closes it. -/
theorem exists_items (closes : ClosesBlocks delimiters depth text) :
    ∃ items : List (List Char), (∀ item ∈ items, IsItem delimiters item) ∧
      ∃ rest, text = items.flatten ++ delimiters.closing :: rest ∧
        (depth = 0 → rest = []) ∧
        ∀ outer, depth = outer + 1 → ClosesBlocks delimiters outer rest := by
  induction closes with
  | last => exact ⟨[], by simp, [], rfl, fun _ => rfl, by simp⟩
  | close closes => exact ⟨[], by simp, _, rfl, by simp, fun _ same => Nat.succ.inj same ▸ closes⟩
  | @item depth item rest is_item _ ih =>
      rcases ih with ⟨items, are_items, behind, rfl, last, outer⟩
      refine ⟨item :: items, ?_, behind, by simp, last, outer⟩
      exact List.forall_mem_cons.2 ⟨is_item, are_items⟩

/-- An opening delimiter makes a block of what stands in front of the delimiter that closes it. -/
theorem opening (closes : ClosesBlocks delimiters (depth + 1) text) :
    ClosesBlocks delimiters depth (delimiters.opening :: text) := by
  rcases closes.exists_items with ⟨items, are_items, rest, rfl, _, outer⟩
  have block : IsBlock delimiters (delimiters.opening :: (items.flatten ++ [delimiters.closing])) :=
    ⟨items, are_items, rfl⟩
  simpa using ClosesBlocks.item block.isItem (outer depth rfl)

theorem isBlock (closes : ClosesBlocks delimiters 0 text) :
    IsBlock delimiters (delimiters.opening :: text) := by
  rcases closes.exists_items with ⟨items, are_items, rest, rfl, last, _⟩
  exact ⟨items, are_items, by rw [last rfl]⟩

end ClosesBlocks

/-- How a text goes on that ends the blocks that are open, and the quoted run before them. -/
def Finishes (delimiters : Delimiters) (depth : Nat) : Option Char → List Char → Prop
  | none, text => ClosesBlocks delimiters depth text
  | some quote, text => ∃ inside rest, Quoted quote inside ∧ text = inside ++ quote :: rest ∧
      ClosesBlocks delimiters depth rest

/-- A backslash in front of the end of a block hides a character. -/
theorem ne_backslash_of_blockLength? {char : Char}
    (not_hiding : ∀ hidden behind, char = '\\' → rest = hidden :: behind → False)
    (found : blockLength? delimiters depth quote rest = some length) : char ≠ '\\' := by
  rintro rfl
  rcases rest with _ | ⟨hidden, behind⟩
  · rw [blockLength?] at found
    cases found
  · exact not_hiding hidden behind rfl rfl

/-- What the scan has passed when it finds the end of a block. -/
theorem finishes_of_blockLength?
    (found : blockLength? delimiters depth quote rest = some length) :
    Finishes delimiters depth quote (rest.take length) := by
  fun_induction blockLength? delimiters depth quote rest generalizing length with
  | case1 => cases found
  | case2 depth quote hidden rest ih =>
      rcases Option.map_eq_some_iff.1 found with ⟨inner, inner_found, rfl⟩
      have finishes := ih inner_found
      cases quote with
      | none => exact .item (.pair hidden) finishes
      | some quote =>
          rcases finishes with ⟨inside, behind, quoted, taken, closes⟩
          exact ⟨'\\' :: hidden :: inside, behind, .pair quoted, by simp [taken], closes⟩
  | case3 depth quote char rest not_hiding ih =>
      rcases Option.map_eq_some_iff.1 found with ⟨inner, inner_found, rfl⟩
      have finishes := ih inner_found
      by_cases ends : char = quote
      · rw [if_pos ends] at finishes
        exact ⟨[], rest.take inner, .nil, by simp [ends], finishes⟩
      · rw [if_neg ends] at finishes
        rcases finishes with ⟨inside, behind, quoted, taken, closes⟩
        have char_visible := ne_backslash_of_blockLength? not_hiding inner_found
        exact ⟨char :: inside, behind, .char ends char_visible quoted, by simp [taken], closes⟩
  | case4 depth char rest not_hiding is_quote ih =>
      rcases Option.map_eq_some_iff.1 found with ⟨inner, inner_found, rfl⟩
      rcases ih inner_found with ⟨inside, behind, quoted, taken, closes⟩
      have run := ClosesBlocks.item (.quoted is_quote quoted) closes
      simpa [Finishes, taken] using run
  | case5 depth rest not_hiding not_quote ih =>
      rcases Option.map_eq_some_iff.1 found with ⟨inner, inner_found, rfl⟩
      exact ClosesBlocks.opening (ih inner_found)
  | case6 rest not_hiding not_quote different =>
      cases found
      exact ClosesBlocks.last
  | case7 rest depth not_hiding not_quote different ih =>
      rcases Option.map_eq_some_iff.1 found with ⟨inner, inner_found, rfl⟩
      exact ClosesBlocks.close (ih inner_found)
  | case8 depth char rest not_hiding not_quote not_opening not_closing ih =>
      rcases Option.map_eq_some_iff.1 found with ⟨inner, inner_found, rfl⟩
      have char_visible := ne_backslash_of_blockLength? not_hiding inner_found
      have is_item := IsItem.char not_opening not_closing char_visible not_quote
      exact ClosesBlocks.item is_item (ih inner_found)

/-- Whether the scan comes out of a text, outside quotes, in the state in which it went in. -/
def IsPassed (delimiters : Delimiters) (text : List Char) : Prop :=
  ∀ depth rest, blockLength? delimiters depth none (text ++ rest) =
    (blockLength? delimiters depth none rest).map (· + text.length)

theorem isPassed_flatten {items : List (List Char)}
    (passed : ∀ item ∈ items, IsPassed delimiters item) : IsPassed delimiters items.flatten := by
  intro depth rest
  induction items with
  | nil => simp
  | cons first items ih =>
      rw [List.forall_mem_cons] at passed
      rw [List.flatten_cons, List.append_assoc, passed.1, ih passed.2, Option.map_map,
        List.length_append]
      congr 1
      funext inner
      simp only [Function.comp_apply]
      omega

theorem Delimiters.IsQuote.ne_backslash {quote : Char} (is_quote : delimiters.IsQuote quote) :
    quote ≠ '\\' := by
  rcases is_quote with ⟨_, rfl | rfl⟩ <;> decide

theorem Quoted.blockLength?_append {quote : Char} {inside : List Char}
    (quoted : Quoted quote inside) (visible : quote ≠ '\\') (delimiters : Delimiters) (depth : Nat)
    (rest : List Char) :
    blockLength? delimiters depth (some quote) (inside ++ quote :: rest) =
      (blockLength? delimiters depth none rest).map (· + (inside.length + 1)) := by
  induction quoted with
  | nil => simp [blockLength?, visible]
  | char not_quote char_visible _ ih =>
      simp [blockLength?, char_visible, not_quote, ih, Function.comp_def, Nat.add_assoc]
  | pair _ ih => simp [blockLength?, ih, Function.comp_def, Nat.add_assoc, Nat.add_comm,
      Nat.add_left_comm]

theorem isPassed_quoted {quote : Char} {inside : List Char} (is_quote : delimiters.IsQuote quote)
    (quoted : Quoted quote inside) : IsPassed delimiters (quote :: (inside ++ [quote])) := by
  intro depth rest
  have visible := is_quote.ne_backslash
  have run := quoted.blockLength?_append visible delimiters depth rest
  rw [Delimiters.IsQuote] at is_quote
  cases depth <;> simp [blockLength?, visible, is_quote, run, Function.comp_def, Nat.add_assoc]

theorem isPassed_char {char : Char} (not_opening : char ≠ delimiters.opening)
    (not_closing : char ≠ delimiters.closing) (visible : char ≠ '\\')
    (not_quote : ¬ delimiters.IsQuote char) : IsPassed delimiters [char] := by
  intro depth rest
  rw [Delimiters.IsQuote] at not_quote
  cases depth <;> simp [blockLength?, visible, not_quote, not_opening, not_closing]

section Steps

variable (apart : delimiters.AreApart)

include apart

theorem blockLength?_opening (depth : Nat) (rest : List Char) :
    blockLength? delimiters depth none (delimiters.opening :: rest) =
      (blockLength? delimiters (depth + 1) none rest).map (· + 1) := by
  have not_quote := apart.opening_not_quote
  rw [Delimiters.IsQuote] at not_quote
  cases depth <;> simp [blockLength?, apart.opening_ne_backslash, not_quote]

theorem blockLength?_closing (depth : Nat) (rest : List Char) :
    blockLength? delimiters 0 none (delimiters.closing :: rest) = some 1 ∧
      blockLength? delimiters (depth + 1) none (delimiters.closing :: rest) =
        (blockLength? delimiters depth none rest).map (· + 1) := by
  have not_quote := apart.closing_not_quote
  rw [Delimiters.IsQuote] at not_quote
  simp [blockLength?, apart.closing_ne_backslash, apart.opening_ne_closing.symm, not_quote]

theorem IsItem.isPassed (is_item : IsItem delimiters item) : IsPassed delimiters item := by
  induction is_item with
  | pair hidden =>
      intro depth rest
      simp [blockLength?]
  | @block items _ ih =>
      intro depth rest
      have opened := blockLength?_opening apart depth
      have passed := isPassed_flatten ih (depth + 1)
      have closed := blockLength?_closing apart depth rest
      simp [opened, passed, closed.2, Function.comp_def, Nat.add_comm, Nat.add_left_comm]
  | quoted is_quote quoted => exact isPassed_quoted is_quote quoted
  | char not_opening not_closing visible not_quote =>
      exact isPassed_char not_opening not_closing visible not_quote

/-- What the scan finds is the end of a block that the text begins with. -/
theorem blockLength?_eq_some_iff :
    blockLength? delimiters 0 none rest = some length ↔
      ∃ text, IsBlock delimiters text ∧ text <+: delimiters.opening :: rest ∧
        text.length = length + 1 := by
  constructor
  · intro found
    have closes : ClosesBlocks delimiters 0 (rest.take length) := finishes_of_blockLength? found
    have length_le := (blockLength?_take apart.closing_ne_backslash found).1
    refine ⟨delimiters.opening :: rest.take length, closes.isBlock, ?_, ?_⟩
    · rw [List.prefix_cons_inj]
      exact List.take_prefix length rest
    · rw [List.length_cons, List.length_take_of_le length_le]
  · rintro ⟨_, ⟨items, are_items, rfl⟩, ⟨behind, whole⟩, length_eq⟩
    obtain rfl : items.flatten ++ delimiters.closing :: behind = rest := by simpa using whole
    have passed := isPassed_flatten fun item mem => (are_items item mem).isPassed apart
    rw [passed, (blockLength?_closing apart 0 behind).1]
    simp only [List.length_cons, List.length_append, List.length_nil] at length_eq
    rw [Option.map_some]
    congr 1
    omega

/-- A text begins with one block at most. -/
theorem IsBlock.unique (block : IsBlock delimiters text) (block_other : IsBlock delimiters other)
    (starts : text <+: delimiters.opening :: rest)
    (starts_other : other <+: delimiters.opening :: rest) : text = other := by
  have found {text : List Char} (block : IsBlock delimiters text)
      (starts : text <+: delimiters.opening :: rest) :
      blockLength? delimiters 0 none rest = some (text.length - 1) := by
    have nonempty : text.length = text.length - 1 + 1 := by
      rcases block with ⟨items, _, rfl⟩
      rfl
    exact (blockLength?_eq_some_iff apart).2 ⟨text, block, starts, nonempty⟩
  have same_length := (found block starts).symm.trans (found block_other starts_other)
  have length_eq : text.length = other.length := by
    rcases block with ⟨items, _, rfl⟩
    rcases block_other with ⟨others, _, rfl⟩
    simpa using same_length
  exact (List.prefix_of_prefix_length_le starts starts_other length_eq.le).eq_of_length length_eq

end Steps

end Scan

/-- The delimiters of the tokens that are blocks. -/
def TokenKind.delimiters? : TokenKind → Option Delimiters
  | actionBlock => some .braces
  | bracketBlock => some .brackets
  | _ => none

section Lexer

variable {kind : TokenKind} {delimiters : Delimiters} {rest text : List Char}

theorem TokenKind.areApart (delimited : kind.delimiters? = some delimiters) :
    delimiters.AreApart := by
  cases kind <;> cases delimited
  · exact Delimiters.areApart_braces
  · exact Delimiters.areApart_brackets

theorem firstLexeme_opening (delimited : kind.delimiters? = some delimiters) (rest : List Char) :
    firstLexeme (delimiters.opening :: rest) = blockOrGarbage kind delimiters rest := by
  cases kind <;> cases delimited <;> rfl

theorem lexemes_of_isBlock (delimited : kind.delimiters? = some delimiters)
    (block : IsBlock delimiters text) (starts : text <+: delimiters.opening :: rest) :
    lexemes (delimiters.opening :: rest) =
      ⟨kind, text⟩ :: lexemes ((delimiters.opening :: rest).drop text.length) := by
  have text_eq := List.prefix_iff_eq_take.1 starts
  obtain ⟨length, length_eq⟩ : ∃ length, text.length = length + 1 := by
    rcases block with ⟨items, _, rfl⟩
    exact ⟨_, rfl⟩
  have found := (blockLength?_eq_some_iff (TokenKind.areApart delimited)).2
    ⟨text, block, starts, length_eq⟩
  have first : firstLexeme (delimiters.opening :: rest) = (kind, text.length) := by
    rw [firstLexeme_opening delimited, blockOrGarbage, found, length_eq]
  rw [lexemes_of_ne_nil (List.cons_ne_nil _ _), first, ← text_eq]

theorem lexemes_of_no_block (delimited : kind.delimiters? = some delimiters)
    (unclosed : ∀ text, IsBlock delimiters text → ¬ text <+: delimiters.opening :: rest) :
    lexemes (delimiters.opening :: rest) = ⟨.garbage, [delimiters.opening]⟩ :: lexemes rest := by
  have open_end : blockLength? delimiters 0 none rest = none := by
    rw [Option.eq_none_iff_forall_ne_some]
    intro length found
    rcases (blockLength?_eq_some_iff (TokenKind.areApart delimited)).1 found with
      ⟨text, block, starts, _⟩
    exact unclosed text block starts
  have first : firstLexeme (delimiters.opening :: rest) = (.garbage, 1) := by
    rw [firstLexeme_opening delimited, blockOrGarbage, open_end]
  rw [lexemes_of_ne_nil (List.cons_ne_nil _ _), first]
  rfl

/-- Every lexeme is placed behind the bytes of those in front of it. -/
theorem exists_mem_placed (start line : Nat) (front back : List Lexeme) (lexeme : Lexeme) :
    ∃ token ∈ placed start line (front ++ lexeme :: back), token.lexeme = lexeme ∧
      token.start = start + byteLength (joined front) ∧
      token.stop = token.start + byteLength lexeme.text := by
  induction front generalizing start line with
  | nil => exact ⟨_, List.mem_cons_self, by simp [Token.lexeme], rfl, rfl⟩
  | cons first front ih =>
      rcases ih (start + byteLength first.text) (line + first.text.count '\n') with
        ⟨token, mem, same, start_eq, stop_eq⟩
      refine ⟨token, List.mem_cons_of_mem _ mem, same, ?_, stop_eq⟩
      rw [joined_cons, byteLength_append, start_eq, Nat.add_assoc]

end Lexer

/--
Wherever the lexer comes to an opening brace or bracket, it cuts the block that the rest of the text
begins with, and there is one such block at most. The token covers the bytes of the block. When
there is none, the opening delimiter alone is a failed match, and the lexer goes on behind it.
-/
theorem block_extent {source : String} {front back : List Lexeme} {lexeme : Lexeme}
    {kind : TokenKind} {delimiters : Delimiters} {rest : List Char}
    (delimited : kind.delimiters? = some delimiters)
    (cut : lexemes source.toList = front ++ lexeme :: back)
    (opens : lexeme.text ++ joined back = delimiters.opening :: rest) :
    (∀ text, lexeme = ⟨kind, text⟩ ↔
      IsBlock delimiters text ∧ text <+: delimiters.opening :: rest) ∧
    (∀ text other, IsBlock delimiters text → text <+: delimiters.opening :: rest →
      IsBlock delimiters other → other <+: delimiters.opening :: rest → text = other) ∧
    (∀ text, lexeme = ⟨kind, text⟩ → ∃ token ∈ tokens source, token.lexeme = lexeme ∧
      token.start = byteLength (joined front) ∧ token.stop = token.start + byteLength text) ∧
    ((∀ text, IsBlock delimiters text → ¬ text <+: delimiters.opening :: rest) →
      lexeme = ⟨.garbage, [delimiters.opening]⟩ ∧ back = lexemes rest) := by
  have whole := lexemes_joined_of_eq_append cut
  rw [joined_cons, opens] at whole
  have cut_block {text : List Char} (block : IsBlock delimiters text)
      (starts : text <+: delimiters.opening :: rest) : lexeme = ⟨kind, text⟩ := by
    rw [lexemes_of_isBlock delimited block starts] at whole
    exact (List.cons.inj whole).1.symm
  have unclosed (no_block : ∀ text, IsBlock delimiters text →
      ¬ text <+: delimiters.opening :: rest) :
      lexeme = ⟨.garbage, [delimiters.opening]⟩ ∧ back = lexemes rest := by
    rw [lexemes_of_no_block delimited no_block] at whole
    rcases List.cons.inj whole with ⟨lexeme_eq, back_eq⟩
    exact ⟨lexeme_eq.symm, back_eq.symm⟩
  refine ⟨fun text => ⟨?_, fun ⟨block, starts⟩ => cut_block block starts⟩, ?_, ?_, unclosed⟩
  · intro lexeme_eq
    by_contra not_block
    by_cases found : ∃ other, IsBlock delimiters other ∧ other <+: delimiters.opening :: rest
    · rcases found with ⟨other, block, starts⟩
      have same : text = other := by simpa [lexeme_eq] using cut_block block starts
      exact not_block (same ▸ ⟨block, starts⟩)
    · have garbage := (unclosed fun other block starts => found ⟨other, block, starts⟩).1
      rw [lexeme_eq, Lexeme.mk.injEq] at garbage
      rw [garbage.1] at delimited
      cases delimited
  · exact fun text other block starts block_other starts_other =>
      block.unique (TokenKind.areApart delimited) block_other starts starts_other
  · rintro text rfl
    rcases exists_mem_placed 0 1 front back ⟨kind, text⟩ with
      ⟨token, mem, same, start_eq, stop_eq⟩
    rw [Nat.zero_add] at start_eq
    have kind_eq : token.kind = kind := congrArg Lexeme.kind same
    rw [← cut] at mem
    refine ⟨token, mem_tokens.2 ⟨(mem_matched_iff ?_).1 mem, ?_⟩, same, start_eq, stop_eq⟩
    · rintro garbage
      rw [← kind_eq, garbage] at delimited
      cases delimited
    · rw [kind_eq]
      cases kind <;> cases delimited <;> rfl

/-- A brace that a quote hides, and one that a backslash hides, do not close an action. -/
theorem block_extent_hiddenBraces :
    let source := "é \x7ba '\x7d' \\\x7d \x7bb\x7d\x7d c"
    let block := "\x7ba '\x7d' \\\x7d \x7bb\x7d\x7d".toList
    lexemes source.toList = [⟨.garbage, ['é']⟩, ⟨.blank, [' ']⟩] ++ ⟨.actionBlock, block⟩ ::
        [⟨.blank, [' ']⟩, ⟨.identifier, ['c']⟩] ∧
      IsBlock .braces block ∧
      ∃ token ∈ tokens source, token.text.toList = block ∧ token.start = 3 ∧ token.stop = 17 := by
  intro source block
  have cut : lexemes source.toList = [⟨.garbage, ['é']⟩, ⟨.blank, [' ']⟩] ++
      ⟨.actionBlock, block⟩ :: [⟨.blank, [' ']⟩, ⟨.identifier, ['c']⟩] := by decide
  have opens : block ++ joined [⟨.blank, [' ']⟩, ⟨.identifier, ['c']⟩] =
      Delimiters.braces.opening :: "a '\x7d' \\\x7d \x7bb\x7d\x7d c".toList := by decide
  have delimited : TokenKind.actionBlock.delimiters? = some .braces := rfl
  rcases block_extent delimited cut opens with ⟨cut_iff, _, placed, _⟩
  rcases placed block rfl with ⟨token, mem, same, start_eq, stop_eq⟩
  refine ⟨cut, ((cut_iff block).1 rfl).1, token, mem, congrArg Lexeme.text same, start_eq, ?_⟩
  rw [stop_eq, start_eq]
  decide

end VisiblyPushdown.Source
