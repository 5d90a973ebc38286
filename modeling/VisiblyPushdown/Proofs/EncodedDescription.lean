import VisiblyPushdown.Json.Description
import VisiblyPushdown.Proofs.JsonReading

/-!
# Descriptions written as JSON

A description that is written as JSON is read back as it was: with the same names, in the same
order, and with the same occurrences, whatever characters its names are made of. Declared names and
the names of rules must not repeat, since readers take them as sets.

Each part is written as a value that carries it: the value is read as a document, and the reader of
that part gets the part from the document.
-/

namespace VisiblyPushdown

namespace Json.Value

variable {α : Type}

/-- Whether a written value gives a reader of documents a certain result. -/
def Carries (value : Value String) (read : Document → Option α) (result : α) : Prop :=
  ∃ document, value.IsReadAs document ∧ read document = some result

theorem carries_text (text : String) : (string text).Carries text? text :=
  ⟨_, isReadAs_string text, rfl⟩

theorem carries_optionalText (text : Option String) :
    ((text.map string).getD null).Carries optionalText? text := by
  cases text with
  | none => exact ⟨_, isReadAs_null, rfl⟩
  | some text => exact ⟨_, isReadAs_string text, rfl⟩

/-- What holds of all items holds of the array. -/
theorem carries_array {write : α → Value String} {read : Document → Option α} {items : List α}
    (carried : ∀ item ∈ items, (write item).Carries read item) :
    (array (items.map write)).Carries (fun value => do (← items? value).mapM read) items := by
  have parts : ∃ documents, List.Forall₂ IsReadAs (items.map write) documents ∧
      documents.mapM read = some items := by
    induction items with
    | nil => exact ⟨[], .nil, rfl⟩
    | cons item items ih =>
        rcases carried item List.mem_cons_self with ⟨document, first, first_read⟩
        rcases ih fun item mem => carried item (List.mem_cons_of_mem _ mem) with
          ⟨documents, others, others_read⟩
        exact ⟨document :: documents, .cons first others, by simp [first_read, others_read]⟩
  rcases parts with ⟨documents, read_as, read_eq⟩
  exact ⟨_, isReadAs_array read_as, read_eq⟩

theorem carries_names {names : List String} (nodup : names.Nodup) :
    (array (names.map string)).Carries names? names := by
  rcases carries_array (fun name (_ : name ∈ names) => carries_text name) with
    ⟨document, read_as, read_eq⟩
  refine ⟨document, read_as, ?_⟩
  simp only [Option.bind_eq_bind, Option.bind_eq_some_iff] at read_eq
  rcases read_eq with ⟨items, items_eq, texts_eq⟩
  simp [names?, items_eq, texts_eq, InsertionOrder.distinct_of_nodup nodup]

end Json.Value

open Json.Value

theorem Occurrence.carries_toJson (occurrence : Occurrence) :
    occurrence.toJson.Carries Occurrence.ofJson? occurrence := by
  refine ⟨_, isReadAs_object (.cons (.field _ (isReadAs_string _))
    (.cons (.field _ (isReadAs_string _)) (.cons (.field _ (isReadAs_string _)) .nil))), ?_⟩
  simp [ofJson?, Json.recordFields, Json.required, Json.fieldOr, Json.field?, Json.text?,
    Json.choice?]

namespace Description

variable {description : Description}

theorem carries_alternativesToJson (alternatives : List Alternative) :
    (alternativesToJson alternatives).Carries alternativesOfJson? alternatives :=
  carries_array fun _ _ => carries_array fun occurrence _ => occurrence.carries_toJson

/-- The rules are read one by one, and each one comes behind those that were read before. -/
theorem carries_rules {rules : List (String × List Alternative)}
    (unique : (rules.map Prod.fst).Nodup) :
    (Json.Value.object (rules.map fun rule => (rule.1, alternativesToJson rule.2))).Carries
      rulesOfJson? rules := by
  have parts : ∃ records, List.Forall₂ IsFieldReadAs
      (rules.map fun rule => (rule.1, alternativesToJson rule.2)) records ∧
      ∀ earlier : List (String × List Alternative), ((earlier ++ rules).map Prod.fst).Nodup →
        records.foldlM (fun rules field => do
          return InsertionOrder.put rules (← field.1) (← alternativesOfJson? field.2)) earlier =
            some (earlier ++ rules) := by
    clear unique
    induction rules with
    | nil => exact ⟨[], .nil, by simp⟩
    | cons rule rules ih =>
        rcases carries_alternativesToJson rule.2 with ⟨document, first, first_read⟩
        rcases ih with ⟨records, others, others_read⟩
        refine ⟨_, .cons (.field rule.1 first) others, ?_⟩
        intro earlier unique
        have absent : rule.1 ∉ earlier.map Prod.fst := by
          intro known
          rw [List.map_append, List.nodup_append] at unique
          exact unique.2.2 _ known _ List.mem_cons_self rfl
        have behind := others_read (earlier ++ [rule]) (by simpa using unique)
        simpa [first_read, InsertionOrder.put_of_absent absent] using behind
  rcases parts with ⟨records, read_as, read_eq⟩
  exact ⟨_, isReadAs_object read_as, read_eq [] unique⟩

/-- A description is carried by the JSON value that it is written as. -/
theorem carries_toJson (terminals_nodup : description.terminals.Nodup)
    (nonterminals_nodup : description.nonterminals.Nodup)
    (unique : (description.rules.map Prod.fst).Nodup) :
    description.toJson.Carries ofJson? description := by
  rcases carries_optionalText description.name with ⟨_, name_as, name_read⟩
  rcases carries_optionalText description.start with ⟨_, start_as, start_read⟩
  rcases carries_names terminals_nodup with ⟨_, terminals_as, terminals_read⟩
  rcases carries_names nonterminals_nodup with ⟨_, nonterminals_as, nonterminals_read⟩
  rcases carries_rules unique with ⟨_, rules_as, rules_read⟩
  refine ⟨_, isReadAs_object (.cons (.field _ name_as) (.cons (.field _ start_as)
    (.cons (.field _ terminals_as) (.cons (.field _ nonterminals_as)
      (.cons (.field _ rules_as) .nil))))), ?_⟩
  simp [ofJson?, Json.recordFields, Json.fieldOr, Json.field?, name_read, start_read,
    terminals_read, nonterminals_read, rules_read]

/--
Every description is read back from its compact JSON text, with all names and in the same order, if
no terminal, no nonterminal and no name of a rule is listed twice.
-/
theorem decode_encode (description : Description) (terminals_nodup : description.terminals.Nodup)
    (nonterminals_nodup : description.nonterminals.Nodup)
    (unique : (description.rules.map Prod.fst).Nodup) :
    decode? description.encode = some description := by
  rcases carries_toJson terminals_nodup nonterminals_nodup unique with ⟨document, read_as, read_eq⟩
  rw [decode?, encode, read_as.read?]
  exact read_eq

/-- Names with quotes, backslashes, control characters and characters beyond the first plane. -/
def awkward : Description :=
  { name := some "\"null\"\\u0041"
    start := some ""
    terminals := ["\t\r\n", "\x00\x1f\x7f", "𝄞 é/", "'\\''"]
    nonterminals := ["", "𝄞 é/"]
    rules :=
      [("", [[⟨⟨"\x00\x1f\x7f", .terminal⟩, .star⟩, ⟨⟨"𝄞 é/", .nonterminal⟩, .plus⟩], []]),
        ("]\x7d", []),
        ("𝄞 é/", [[⟨⟨"'\\''", .terminal⟩, .optional⟩, .bare ⟨"\t\r\n", .terminal⟩]])] }

theorem decode_encode_awkward :
    awkward.terminals.Nodup ∧ awkward.nonterminals.Nodup ∧ (awkward.rules.map Prod.fst).Nodup ∧
      decode? awkward.encode = some awkward := by
  have terminals_nodup : awkward.terminals.Nodup := by decide
  have nonterminals_nodup : awkward.nonterminals.Nodup := by decide
  have unique : (awkward.rules.map Prod.fst).Nodup := by decide
  exact ⟨terminals_nodup, nonterminals_nodup, unique,
    decode_encode awkward terminals_nodup nonterminals_nodup unique⟩

end Description

end VisiblyPushdown
