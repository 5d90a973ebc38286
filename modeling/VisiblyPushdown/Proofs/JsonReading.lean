import Mathlib.Data.List.Forall2
import VisiblyPushdown.Json.Reader
import VisiblyPushdown.Json.Writer

/-!
# Reading what was written

Any text can be written as a JSON string and is read back, whatever its characters are
(`readString_quote`). For values, `IsReadAs` says that the compact spelling of a value is read as a
given document wherever it stands; arrays and objects inherit this from their parts. Numbers are
left out, since nothing that is written here holds any.
-/

namespace VisiblyPushdown.Json

section Strings

variable {char : Char} {piece : Piece} {chars rest : List Char} {pieces : List Piece}

/-- Whether a piece of a string literal is one that a character is written as. -/
inductive Piece.Spells : Piece → Char → Prop
  | itself (char : Char) : Piece.Spells (.char char) char
  | escaped {char : Char} : char.toNat < 0x20 → Piece.Spells (.codeUnit char.toNat) char

theorem hexValue?_hexDigit : ∀ value < 16, hexValue? (hexDigit value) = some value := by
  decide

theorem codeUnit?_hexDigit {value : Nat} (small : value < 0x20) :
    codeUnit? '0' '0' (hexDigit (value / 16)) (hexDigit (value % 16)) = some value := by
  have high := hexValue?_hexDigit (value / 16) (by omega)
  have low := hexValue?_hexDigit (value % 16) (by omega)
  have zero : hexValue? '0' = some 0 := by decide
  simp only [codeUnit?, high, low, zero, Option.bind_eq_bind, Option.bind_some, Option.pure_def,
    Option.some.injEq]
  omega

theorem readPieces_shortEscape {escape : Char} (named : shortEscape? escape = some char)
    (not_u : escape ≠ 'u') (rest : List Char) :
    readPieces ('\\' :: escape :: rest) =
      (readPieces rest).map fun (pieces, rest) => (.char char :: pieces, rest) := by
  rw [readPieces]
  · rw [named]
    cases readPieces rest <;> rfl
  · simp [not_u]

/-- Each character is read as one piece. -/
theorem exists_readPieces_escapeChar (char : Char) :
    ∃ piece : Piece, piece.Spells char ∧ ∀ rest, readPieces (escapeChar char ++ rest) =
      (readPieces rest).map fun (pieces, rest) => (piece :: pieces, rest) := by
  by_cases short : char ∈ ['"', '\\', '\x08', '\x0c', '\n', '\r', '\t']
  · simp only [List.mem_cons, List.not_mem_nil, or_false] at short
    rcases short with rfl | rfl | rfl | rfl | rfl | rfl | rfl <;>
      exact ⟨_, .itself _, readPieces_shortEscape rfl (by decide)⟩
  simp only [List.mem_cons, List.not_mem_nil, or_false, not_or] at short
  rcases short with ⟨quote, backslash, backspace, feed, line, carriage, tab⟩
  by_cases control : char.toNat < 0x20
  · refine ⟨_, .escaped control, fun rest => ?_⟩
    have unit := codeUnit?_hexDigit control
    simp only [escapeChar, quote, backslash, backspace, feed, line, carriage, tab, control, if_true,
      if_false, List.cons_append, List.nil_append, readPieces, unit]
    cases readPieces rest <;> rfl
  · refine ⟨_, .itself char, fun rest => ?_⟩
    simp only [escapeChar, quote, backslash, backspace, feed, line, carriage, tab, control,
      if_false, List.cons_append, List.nil_append]
    rw [readPieces]
    · simp only [control, backslash, or_self, if_false]
      cases readPieces rest <;> rfl
    all_goals simp_all

theorem exists_readPieces (chars rest : List Char) :
    ∃ pieces, List.Forall₂ Piece.Spells pieces chars ∧
      readPieces (chars.flatMap escapeChar ++ '"' :: rest) = some (pieces, rest) := by
  induction chars with
  | nil => exact ⟨[], .nil, by simp [readPieces]⟩
  | cons char chars ih =>
      rcases ih with ⟨pieces, spell, read⟩
      rcases exists_readPieces_escapeChar char with ⟨piece, spells, step⟩
      refine ⟨piece :: pieces, .cons spells spell, ?_⟩
      rw [List.flatMap_cons, List.append_assoc, step, read]
      rfl

/-- A character that was escaped by its number is no half of a pair. -/
theorem joinPieces_cons (spells : piece.Spells char) (pieces : List Piece) :
    joinPieces (piece :: pieces) = (joinPieces pieces).map (char :: ·) := by
  cases spells with
  | itself char => rw [joinPieces]
  | escaped control =>
      have leading : isLeadingHalf char.toNat = false := by
        simp only [isLeadingHalf, Bool.and_eq_false_iff, decide_eq_false_iff_not]
        omega
      have trailing : isTrailingHalf char.toNat = false := by
        simp only [isTrailingHalf, Bool.and_eq_false_iff, decide_eq_false_iff_not]
        omega
      rcases pieces with _ | ⟨_ | _, pieces⟩ <;>
        simp [joinPieces, leading, trailing]

theorem joinPieces_eq (spell : List.Forall₂ Piece.Spells pieces chars) :
    joinPieces pieces = some chars := by
  induction spell with
  | nil => rfl
  | cons spells _ ih => rw [joinPieces_cons spells, ih, Option.map_some]

/-- Every text is read back from its literal. -/
theorem readString_quote (text : String) (rest : List Char) :
    readString (text.toList.flatMap escapeChar ++ '"' :: rest) = some (some text, rest) := by
  rcases exists_readPieces text.toList rest with ⟨pieces, spell, read⟩
  simp [readString, read, joinPieces_eq spell]

end Strings

theorem skipBlanks_cons {char : Char} (visible : isBlank char = false) (rest : List Char) :
    skipBlanks (char :: rest) = char :: rest :=
  List.dropWhile_cons_of_neg (by simp [visible])

theorem toList_quote (text : String) :
    (quote text).toList = '"' :: (text.toList.flatMap escapeChar ++ ['"']) := by
  simp [quote]

namespace Value

/--
Whether the compact spelling of a value is read as a document, whatever follows it. Two steps for
each character are enough, less one, so that the bracket of an array pays for its first item.
-/
structure IsReadAs (value : Value String) (document : Value (Option String)) : Prop where
  starts : ∃ first others, value.compact.toList = first :: others ∧ isBlank first = false ∧
    first ≠ ']'
  reads : ∀ steps rest, 2 * value.compact.toList.length ≤ steps + 1 →
    readValue steps (value.compact.toList ++ rest) = some (document, rest)

theorem isReadAs_null : IsReadAs .null .null where
  starts := ⟨'n', ['u', 'l', 'l'], by simp [compact], rfl, by decide⟩
  reads steps rest enough := by
    cases steps with
    | zero => simp [compact] at enough
    | succ steps => simp [compact, readValue, skipBlanks_cons, isBlank]

theorem isReadAs_string (text : String) : IsReadAs (.string text) (.string (some text)) where
  starts := ⟨'"', text.toList.flatMap escapeChar ++ ['"'], toList_quote text, rfl, by decide⟩
  reads steps rest enough := by
    cases steps with
    | zero =>
        simp [compact, toList_quote] at enough
        omega
    | succ steps =>
        simp [compact, toList_quote, readValue, skipBlanks_cons, isBlank, readString_quote]

theorem IsReadAs.length_pos {value : Value String} {document : Value (Option String)}
    (read : value.IsReadAs document) : 0 < value.compact.toList.length := by
  rcases read.starts with ⟨first, others, spelled, _, _⟩
  simp [spelled]

section Arrays

variable {items : List (Value String)} {documents : List (Value (Option String))}

/-- The spelling of the items of an array, with commas between them. -/
def spellItems (items : List (Value String)) : List Char :=
  (",".intercalate (compactItems items)).toList

theorem spellItems_singleton (item : Value String) : spellItems [item] = item.compact.toList := by
  simp [spellItems, compactItems]

theorem spellItems_cons_cons (item next : Value String) (others : List (Value String)) :
    spellItems (item :: next :: others) =
      item.compact.toList ++ ',' :: spellItems (next :: others) := by
  simp [spellItems, compactItems, String.toList_intercalate]

theorem exists_spellItems_cons (item : Value String) (items : List (Value String)) :
    ∃ more, spellItems (item :: items) = item.compact.toList ++ more := by
  cases items with
  | nil => exact ⟨[], by rw [spellItems_singleton, List.append_nil]⟩
  | cons next others => exact ⟨_, spellItems_cons_cons item next others⟩

theorem toList_compact_array (items : List (Value String)) :
    (array items).compact.toList = '[' :: (spellItems items ++ [']']) := by
  simp [compact, spellItems]

theorem readItems_spellItems (read : List.Forall₂ IsReadAs items documents) (more : items ≠ [])
    {steps : Nat} (enough : 2 * (spellItems items).length ≤ steps) (rest : List Char) :
    readItems steps (spellItems items ++ ']' :: rest) = some (documents, rest) := by
  induction read generalizing steps with
  | nil => exact absurd rfl more
  | @cons item document items documents first others ih =>
      have length_pos := first.length_pos
      cases others with
      | nil =>
          rw [spellItems_singleton] at enough ⊢
          cases steps with
          | zero => omega
          | succ steps =>
              rw [readItems, first.reads steps _ (by omega)]
              simp [skipBlanks_cons, isBlank]
      | @cons next nextDocument items documents second others =>
          rw [spellItems_cons_cons] at enough ⊢
          simp only [List.length_append, List.length_cons] at enough
          cases steps with
          | zero => omega
          | succ steps =>
              have behind := @ih (List.cons_ne_nil _ _) steps (by omega)
              rw [readItems, List.append_assoc, first.reads steps _ (by omega)]
              simp [skipBlanks_cons, isBlank, behind]

theorem isReadAs_array (read : List.Forall₂ IsReadAs items documents) :
    IsReadAs (.array items) (.array documents) where
  starts := ⟨'[', _, toList_compact_array items, rfl, by decide⟩
  reads steps rest enough := by
    rw [toList_compact_array] at enough ⊢
    simp only [List.length_cons, List.length_append, List.length_nil] at enough
    cases steps with
    | zero => omega
    | succ steps =>
        cases read with
        | nil => simp [readValue, skipBlanks_cons, isBlank, spellItems, compactItems]
        | @cons item document items documents first others =>
            have enough : 2 * (spellItems (item :: items)).length ≤ steps := by omega
            have inside := readItems_spellItems (.cons first others) (List.cons_ne_nil _ _) enough
              rest
            -- The first item does not begin with the bracket that closes an empty array.
            rcases first.starts with ⟨head, tail, spelled, visible, not_closing⟩
            rcases exists_spellItems_cons item items with ⟨more, whole⟩
            rw [whole, spelled, List.cons_append, List.cons_append] at inside
            rw [whole, spelled]
            have opens : isBlank '[' = false := rfl
            simp only [List.cons_append, List.append_assoc, List.nil_append, readValue,
              skipBlanks_cons visible, skipBlanks_cons opens]
            rw [List.append_assoc] at inside
            split
            · next closing =>
                exact absurd (List.cons.inj closing).1 not_closing
            · rw [inside]
              rfl

end Arrays

section Objects

variable {fields : List (String × Value String)}
  {records : List (Option String × Value (Option String))}

/-- Whether a field is read as a field of a document. -/
inductive IsFieldReadAs : String × Value String → Option String × Value (Option String) → Prop
  | field (name : String) {value : Value String} {document : Value (Option String)} :
      value.IsReadAs document → IsFieldReadAs (name, value) (some name, document)

/-- The spelling of the fields of an object, with commas between them. -/
def spellFields (fields : List (String × Value String)) : List Char :=
  (",".intercalate (compactFields fields)).toList

theorem spellFields_singleton (name : String) (value : Value String) :
    spellFields [(name, value)] =
      '"' :: (name.toList.flatMap escapeChar ++ '"' :: ':' :: value.compact.toList) := by
  simp [spellFields, compactFields, toList_quote]

theorem spellFields_cons_cons (name : String) (value : Value String)
    (next : String × Value String) (others : List (String × Value String)) :
    spellFields ((name, value) :: next :: others) =
      '"' :: (name.toList.flatMap escapeChar ++ '"' :: ':' ::
        (value.compact.toList ++ ',' :: spellFields (next :: others))) := by
  simp [spellFields, compactFields, toList_quote, String.toList_intercalate]

theorem exists_spellFields_cons (field : String × Value String)
    (fields : List (String × Value String)) :
    ∃ more, spellFields (field :: fields) = '"' :: more := by
  cases fields with
  | nil => exact ⟨_, spellFields_singleton field.1 field.2⟩
  | cons next others => exact ⟨_, spellFields_cons_cons field.1 field.2 next others⟩

theorem toList_compact_object (fields : List (String × Value String)) :
    (object fields).compact.toList = '\x7b' :: (spellFields fields ++ ['\x7d']) := by
  simp [compact, spellFields]

theorem readFields_spellFields (read : List.Forall₂ IsFieldReadAs fields records)
    (more : fields ≠ []) {steps : Nat} (enough : 2 * (spellFields fields).length ≤ steps)
    (rest : List Char) :
    readFields steps (spellFields fields ++ '\x7d' :: rest) = some (records, rest) := by
  induction read generalizing steps with
  | nil => exact absurd rfl more
  | @cons field record fields records first others ih =>
      rcases first with ⟨name, first⟩
      cases others with
      | nil =>
          rw [spellFields_singleton] at enough ⊢
          simp only [List.length_append, List.length_cons] at enough
          cases steps with
          | zero => omega
          | succ steps =>
              simp [readFields, skipBlanks_cons, isBlank, readString_quote,
                first.reads steps _ (by omega)]
      | @cons next nextRecord fields records second others =>
          rw [spellFields_cons_cons] at enough ⊢
          simp only [List.length_append, List.length_cons] at enough
          cases steps with
          | zero => omega
          | succ steps =>
              have behind := @ih (List.cons_ne_nil _ _) steps (by omega)
              simp [readFields, skipBlanks_cons, isBlank, readString_quote,
                first.reads steps _ (by omega), behind]

theorem isReadAs_object (read : List.Forall₂ IsFieldReadAs fields records) :
    IsReadAs (.object fields) (.object records) where
  starts := ⟨'\x7b', _, toList_compact_object fields, rfl, by decide⟩
  reads steps rest enough := by
    rw [toList_compact_object] at enough ⊢
    simp only [List.length_cons, List.length_append, List.length_nil] at enough
    cases steps with
    | zero => omega
    | succ steps =>
        cases read with
        | nil => simp [readValue, skipBlanks_cons, isBlank, spellFields, compactFields]
        | @cons field record fields records first others =>
            have enough : 2 * (spellFields (field :: fields)).length ≤ steps := by omega
            have inside := readFields_spellFields (.cons first others) (List.cons_ne_nil _ _)
              enough rest
            rcases exists_spellFields_cons field fields with ⟨more, whole⟩
            rw [whole, List.cons_append] at inside
            rw [whole]
            simp [readValue, skipBlanks_cons, isBlank, inside]

end Objects

/-- A text that spells a value and nothing else is read as the document. -/
theorem IsReadAs.read? {value : Value String} {document : Value (Option String)}
    (read : value.IsReadAs document) : Json.read? value.compact = some document := by
  have whole := read.reads (2 * value.compact.toList.length + 2) [] (by omega)
  rw [List.append_nil] at whole
  rw [Json.read?, whole]
  rfl

end Value

end VisiblyPushdown.Json
