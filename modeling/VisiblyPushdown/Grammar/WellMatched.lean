import VisiblyPushdown.Grammar.Tagging

/-!
# Well-matched taggings

A tagging is well matched when every reachable alternative, taken by itself, closes each call with a
return and each return closes a call; tagged terminals carry no repetition mark. The exhaustive
search goes through all ordered pairs of terminals and keeps a pair whenever the grammar stays well
matched; `searchTagging_eq` says so.
-/

namespace VisiblyPushdown

universe u v

/--
Whether calls and returns balance in a sequence that is entered with `depth` open calls, for items
that have a role and a repetition. Calls and returns may not be repeated.
-/
def balances {α : Type u} (role : α → Role) (repetition : α → Repetition) :
    (depth : Nat) → List α → Bool
  | depth, [] => depth = 0
  | depth, item :: rest =>
    match role item, depth with
    | .plain, depth => balances role repetition depth rest
    | .call, depth => repetition item = .once && balances role repetition (depth + 1) rest
    | .return, 0 => false
    | .return, depth + 1 => repetition item = .once && balances role repetition depth rest

theorem balances_map {α : Type u} {β : Type v} (role : β → Role) (repetition : β → Repetition)
    (view : α → β) (depth : Nat) (items : List α) :
    balances role repetition depth (items.map view) =
      balances (fun item => role (view item)) (fun item => repetition (view item)) depth items := by
  induction items generalizing depth with
  | nil => rfl
  | cons item rest ih => cases depth <;> simp only [List.map_cons, balances, ih]

/-- A choice of call and return terminals, in the order in which they were chosen. -/
structure TaggingChoice where
  calls : List Symbol := []
  returns : List Symbol := []
deriving DecidableEq, Repr

namespace TaggingChoice

/-- The role of a symbol under the choice. -/
def role (choice : TaggingChoice) (symbol : Symbol) : Role :=
  if symbol ∈ choice.calls then .call
  else if symbol ∈ choice.returns then .return
  else .plain

/-- Whether calls and returns balance in each of the alternatives. -/
def matchesAll (choice : TaggingChoice) (alternatives : List Alternative) : Bool :=
  alternatives.all
    (balances (fun occurrence => choice.role occurrence.symbol) Occurrence.repetition 0)

/-- Whether the sides of a pair differ and neither has the opposite role. -/
def admits (choice : TaggingChoice) (pair : TerminalPair) : Bool :=
  pair.1 ≠ pair.2 && pair.1 ∉ choice.returns && pair.2 ∉ choice.calls

/-- The choice with the sides of a pair as further call and return. -/
def extend (choice : TaggingChoice) (pair : TerminalPair) : TaggingChoice where
  calls := InsertionOrder.insert choice.calls pair.1
  returns := InsertionOrder.insert choice.returns pair.2

/-- Takes an admitted pair into the choice if the alternatives stay balanced. -/
def tryPair (alternatives : List Alternative) (choice : TaggingChoice) (pair : TerminalPair) :
    TaggingChoice :=
  if choice.admits pair && (choice.extend pair).matchesAll alternatives then choice.extend pair
  else choice

/-- Whether the choice has the same call and return terminals as the tagging of the grammar. -/
def agreesWith (choice : TaggingChoice) (grammar : Grammar) : Bool :=
  sameMembers choice.calls grammar.calls && sameMembers choice.returns grammar.returns
where
  /-- Whether two lists have the same members. -/
  sameMembers (left right : List Symbol) : Bool :=
    left.all (· ∈ right) && right.all (· ∈ left)

end TaggingChoice

/--
The search for a tagging on its way: the choice so far, and the alternatives with the role that it
gives to each occurrence. The roles are kept because most pairs fail, and only a pair that succeeds
changes them.
-/
structure TaggingSearch where
  choice : TaggingChoice := {}
  alternatives : List (List (Occurrence × Role))

namespace TaggingSearch

/-- The alternatives with the roles of their occurrences under a choice. -/
def withRoles (choice : TaggingChoice) (alternatives : List Alternative) :
    List (List (Occurrence × Role)) :=
  alternatives.map (·.map fun occurrence => (occurrence, choice.role occurrence.symbol))

/-- The role of an occurrence when the sides of a pair become call and return. -/
def roleWith (pair : TerminalPair) (marked : Occurrence × Role) : Role :=
  if marked.1.symbol = pair.1 then .call
  else if marked.1.symbol = pair.2 then .return
  else marked.2

/-- Takes an admitted pair into the choice if the alternatives stay balanced. -/
def tryPair (search : TaggingSearch) (pair : TerminalPair) : TaggingSearch :=
  if search.choice.admits pair &&
      search.alternatives.all (balances (roleWith pair) (·.1.repetition) 0) then
    { choice := search.choice.extend pair
      alternatives :=
        search.alternatives.map (·.map fun marked => (marked.1, roleWith pair marked)) }
  else search

theorem roleWith_eq {choice : TaggingChoice} {pair : TerminalPair} (admitted : choice.admits pair)
    (occurrence : Occurrence) :
    roleWith pair (occurrence, choice.role occurrence.symbol) =
      (choice.extend pair).role occurrence.symbol := by
  simp only [TaggingChoice.admits, Bool.and_eq_true, decide_eq_true_eq] at admitted
  simp only [roleWith, TaggingChoice.role, TaggingChoice.extend, InsertionOrder.mem_insert]
  grind

/-- A search whose roles are those of its choice stays so and makes the plain choice. -/
theorem tryPair_eq (alternatives : List Alternative) (choice : TaggingChoice)
    (pair : TerminalPair) :
    tryPair ⟨choice, withRoles choice alternatives⟩ pair =
      ⟨choice.tryPair alternatives pair,
        withRoles (choice.tryPair alternatives pair) alternatives⟩ := by
  unfold tryPair TaggingChoice.tryPair
  cases admitted : choice.admits pair with
  | false => simp
  | true =>
    have same : (withRoles choice alternatives).all (balances (roleWith pair) (·.1.repetition) 0) =
        (choice.extend pair).matchesAll alternatives := by
      simp only [withRoles, TaggingChoice.matchesAll, List.all_map]
      congr 1
      funext alternative
      simp only [Function.comp_apply, balances_map, roleWith_eq admitted]
    simp only [same, Bool.true_and]
    split
    · simp [withRoles, Function.comp_def, roleWith_eq admitted]
    · rfl

theorem foldl_tryPair_eq (alternatives : List Alternative) (choice : TaggingChoice)
    (pairs : List TerminalPair) :
    (pairs.foldl tryPair ⟨choice, withRoles choice alternatives⟩).choice =
      pairs.foldl (TaggingChoice.tryPair alternatives) choice := by
  induction pairs generalizing choice with
  | nil => rfl
  | cons pair pairs ih => rw [List.foldl_cons, tryPair_eq, ih, List.foldl_cons]

end TaggingSearch

namespace Grammar

/-- Whether every reachable alternative is balanced under the choice. -/
def isWellMatched (grammar : Grammar) (choice : TaggingChoice) : Bool :=
  choice.matchesAll grammar.reachableAlternatives

/-- All ordered pairs of the stored terminals. -/
def terminalPairs (grammar : Grammar) : List TerminalPair :=
  grammar.terminals.flatMap fun call => grammar.terminals.map (call, ·)

/-- The tagging found by trying every ordered pair of the stored terminals in turn. -/
def searchTagging (grammar : Grammar) : TaggingChoice :=
  let start : TaggingSearch :=
    { alternatives := TaggingSearch.withRoles {} grammar.reachableAlternatives }
  (grammar.terminalPairs.foldl TaggingSearch.tryPair start).choice

theorem searchTagging_eq (grammar : Grammar) :
    grammar.searchTagging =
      grammar.terminalPairs.foldl (TaggingChoice.tryPair grammar.reachableAlternatives) {} :=
  TaggingSearch.foldl_tryPair_eq _ _ _

end Grammar

end VisiblyPushdown
