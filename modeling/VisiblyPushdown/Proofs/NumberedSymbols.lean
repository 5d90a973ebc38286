import Mathlib.Data.List.Basic
import VisiblyPushdown.Grammar.Basic
import VisiblyPushdown.NameTable

/-!
# Numbered symbols

The table of a grammar lists symbols, and a symbol is looked up by its name and its kind. Two tables
that agree with each other do the same with numbers for names: a name table gives every name its
number, and a table of nodes has the number of the name and the kind of each symbol, with the
position under which such a pair was entered. Entering a symbol numbers its name first and makes a
new node only for a pair that is not there.

`Represents` says which list of symbols two tables stand for. It is kept when a symbol is entered on
both sides, so the two tables give a symbol the position that it has in the list.
-/

namespace VisiblyPushdown

namespace InsertionOrder

theorem idxOf_insert {α : Type} [DecidableEq α] {members : List α} {member : α}
    (mem : member ∈ members) (added : α) :
    (insert members added).idxOf member = members.idxOf member := by
  unfold insert
  split
  · rfl
  · exact List.idxOf_append_of_mem mem

end InsertionOrder

section Lists

variable {α β : Type} [BEq α] [LawfulBEq α] [BEq β] [LawfulBEq β]

theorem idxOf?_map (assign : α → β) {items : List α} {item : α}
    (apart : ∀ other ∈ items, assign other = assign item → other = item) :
    (items.map assign).idxOf? (assign item) = items.idxOf? item := by
  induction items with
  | nil => rfl
  | cons first items ih =>
      rw [List.forall_mem_cons] at apart
      rw [List.map_cons, List.idxOf?_cons, List.idxOf?_cons, ih apart.2]
      by_cases same : first = item
      · simp [same]
      · simp [same, mt apart.1 same]

theorem idxOf?_concat [DecidableEq α] (items : List α) (last item : α) :
    (items ++ [last]).idxOf? item =
      (items.idxOf? item).or (if item = last then some items.length else none) := by
  rw [List.idxOf?, List.findIdx?_append]
  by_cases same : item = last
  · simp [same]
  · simp [same, Ne.symm same]

theorem idxOf?_of_mem {items : List α} {item : α} (mem : item ∈ items) :
    items.idxOf? item = some (items.idxOf item) := by
  rcases Option.isSome_iff_exists.1 (List.isSome_idxOf?.2 mem) with ⟨position, found⟩
  rw [List.idxOf_eq_getD_idxOf?, found, Option.getD_some]

end Lists

/-- A table of names, and the symbols as numbers of names with kinds, in the order of entry. -/
structure NumberedSymbols where
  names : NameTable := {}
  nodes : List (Nat × Kind) := []
  positions : List ((Nat × Kind) × Nat) := []
deriving Repr

namespace NumberedSymbols

/-- The position of a symbol, and the tables that know it. -/
def intern (tables : NumberedSymbols) (symbol : Symbol) : Nat × NumberedSymbols :=
  let (number, names) := tables.names.intern symbol.name
  match tables.positions.lookup (number, symbol.kind) with
  | some position => (position, { tables with names })
  | none =>
    (tables.nodes.length,
      { names
        nodes := tables.nodes ++ [(number, symbol.kind)]
        positions := tables.positions ++ [((number, symbol.kind), tables.nodes.length)] })

/-- The position of a symbol that was entered before. -/
def find? (tables : NumberedSymbols) (symbol : Symbol) : Option Nat := do
  let number ← tables.names.number? symbol.name
  tables.positions.lookup (number, symbol.kind)

/-- The symbol at a position. -/
def symbol? (tables : NumberedSymbols) (position : Nat) : Option Symbol := do
  let (number, kind) ← tables.nodes[position]?
  let name ← tables.names.name? number
  return ⟨name, kind⟩

/-- The tables into which the given symbols were entered, one after the other. -/
def ofSymbols (symbols : List Symbol) : NumberedSymbols :=
  symbols.foldl (fun tables symbol => (tables.intern symbol).2) {}

/-- The number of the name of a symbol, with the kind. -/
def node (names : List String) (symbol : Symbol) : Nat × Kind :=
  (names.idxOf symbol.name, symbol.kind)

theorem idxOf?_map_node {names : List String} {symbols : List Symbol}
    (named : ∀ symbol ∈ symbols, symbol.name ∈ names) (symbol : Symbol) :
    (symbols.map (node names)).idxOf? (node names symbol) = symbols.idxOf? symbol := by
  apply idxOf?_map
  intro other mem same
  rw [node, node, Prod.mk.injEq, List.idxOf_inj (named other mem)] at same
  rcases other with ⟨name, kind⟩
  rw [Symbol.mk.injEq]
  exact same

/-- Whether two tables agree with each other and stand for a list of symbols. -/
structure Represents (tables : NumberedSymbols) (symbols : List Symbol) : Prop where
  names_eq : tables.names.names = InsertionOrder.distinct (symbols.map Symbol.name)
  nodes_eq : tables.nodes = symbols.map (node tables.names.names)
  lookup_eq : ∀ node, tables.positions.lookup node = tables.nodes.idxOf? node

theorem represents_nil : Represents {} [] :=
  ⟨rfl, rfl, fun _ => rfl⟩

namespace Represents

variable {tables : NumberedSymbols} {symbols : List Symbol} (represents : tables.Represents symbols)

include represents

theorem name_mem {symbol : Symbol} (mem : symbol ∈ symbols) :
    symbol.name ∈ tables.names.names := by
  rw [represents.names_eq, InsertionOrder.mem_distinct]
  exact List.mem_map_of_mem mem

/-- A pair of number and kind was entered for one symbol only. -/
theorem lookup_node (symbol : Symbol) :
    tables.positions.lookup (node tables.names.names symbol) = symbols.idxOf? symbol := by
  rw [represents.lookup_eq, represents.nodes_eq]
  exact idxOf?_map_node (fun _ => represents.name_mem) symbol

/-- A symbol is found in the two tables where the list has it. -/
theorem find?_eq (symbol : Symbol) : tables.find? symbol = symbols.idxOf? symbol := by
  rw [find?, NameTable.number?]
  by_cases named : symbol.name ∈ tables.names.names
  · rw [idxOf?_of_mem named]
    exact represents.lookup_node symbol
  · have absent : symbol ∉ symbols := mt represents.name_mem named
    rw [List.idxOf?_eq_none_iff.2 named, List.idxOf?_eq_none_iff.2 absent]
    rfl

/-- At each position the two tables have the symbol of the list. -/
theorem symbol?_eq (position : Nat) : tables.symbol? position = symbols[position]? := by
  rw [symbol?, represents.nodes_eq, List.getElem?_map]
  cases found : symbols[position]? with
  | none => rfl
  | some symbol =>
      have named := represents.name_mem (List.mem_of_getElem? found)
      simp [node, NameTable.name?, List.getElem?_idxOf named]

/-- A symbol that was entered before changes nothing. -/
theorem intern_of_mem {symbol : Symbol} (known : symbol ∈ symbols) :
    tables.intern symbol = (symbols.idxOf symbol, tables) := by
  have names_eq : InsertionOrder.insert tables.names.names symbol.name = tables.names.names :=
    if_pos (represents.name_mem known)
  have found := (represents.lookup_node symbol).trans (idxOf?_of_mem known)
  rw [node] at found
  simp only [NumberedSymbols.intern, NameTable.intern, names_eq, found]

/-- A new symbol is entered behind the others, on both sides. -/
theorem intern_of_not_mem {symbol : Symbol} (new : symbol ∉ symbols) :
    (tables.intern symbol).1 = symbols.length ∧
      (tables.intern symbol).2.Represents (symbols ++ [symbol]) := by
  obtain ⟨names, names_eq⟩ :
      ∃ names, InsertionOrder.insert tables.names.names symbol.name = names := ⟨_, rfl⟩
  have named (other : Symbol) (mem : other ∈ symbols) : other.name ∈ names :=
    names_eq ▸ InsertionOrder.mem_insert.2 (.inl (represents.name_mem mem))
  have nodes_eq : tables.nodes = symbols.map (node names) := by
    rw [represents.nodes_eq]
    apply List.map_congr_left
    intro other mem
    rw [node, node, ← names_eq, InsertionOrder.idxOf_insert (represents.name_mem mem)]
  have absent : tables.nodes.idxOf? (node names symbol) = none := by
    rw [nodes_eq, idxOf?_map_node named, List.idxOf?_eq_none_iff]
    exact new
  have unknown : tables.positions.lookup (names.idxOf symbol.name, symbol.kind) = none :=
    (represents.lookup_eq _).trans absent
  have interned : tables.intern symbol = (tables.nodes.length,
      { names := ⟨names⟩
        nodes := tables.nodes ++ [node names symbol]
        positions := tables.positions ++ [(node names symbol, tables.nodes.length)] }) := by
    simp only [NumberedSymbols.intern, NameTable.intern, names_eq, unknown, node]
  rw [interned]
  refine ⟨by rw [nodes_eq, List.length_map], ?_, ?_, ?_⟩
  · rw [List.map_append, List.map_singleton, InsertionOrder.distinct_append_singleton,
      ← represents.names_eq, names_eq]
  · rw [nodes_eq, List.map_append]
    rfl
  · intro other
    rw [idxOf?_concat, List.lookup_append, represents.lookup_eq, List.lookup_cons]
    by_cases same : other = node names symbol
    · simp [same]
    · simp [same, beq_false_of_ne same]

/-- Entering a symbol on both sides keeps them in step, and it gets the same position. -/
theorem intern (symbol : Symbol) :
    (tables.intern symbol).2.Represents (InsertionOrder.insert symbols symbol) ∧
      (InsertionOrder.insert symbols symbol).idxOf? symbol = some (tables.intern symbol).1 := by
  by_cases known : symbol ∈ symbols
  · rw [represents.intern_of_mem known, InsertionOrder.insert, if_pos known]
    exact ⟨represents, idxOf?_of_mem known⟩
  · rcases represents.intern_of_not_mem known with ⟨position_eq, next⟩
    rw [InsertionOrder.insert, if_neg known, position_eq]
    refine ⟨next, ?_⟩
    rw [idxOf?_concat, List.idxOf?_eq_none_iff.2 known, if_pos rfl, Option.none_or]

end Represents

/-- Entering distinct symbols one after the other gives tables that represent them. -/
theorem represents_ofSymbols {symbols : List Symbol} (nodup : symbols.Nodup) :
    (ofSymbols symbols).Represents symbols := by
  have entered (entered further : List Symbol) (tables : NumberedSymbols)
      (represents : tables.Represents entered) : (further.foldl (fun tables symbol =>
        (tables.intern symbol).2) tables).Represents
          (InsertionOrder.insertAll entered further) := by
    induction further generalizing entered tables with
    | nil => exact represents
    | cons symbol further ih => exact ih _ _ (represents.intern symbol).1
  have all := entered [] symbols {} represents_nil
  rwa [InsertionOrder.insertAll_of_nodup (by simpa using nodup), List.nil_append] at all

/-- Entering a symbol into the tables of distinct symbols gives those of the longer list. -/
theorem intern_ofSymbols {symbols : List Symbol} (nodup : symbols.Nodup) (symbol : Symbol) :
    ((ofSymbols symbols).intern symbol).2 = ofSymbols (InsertionOrder.insert symbols symbol) := by
  unfold InsertionOrder.insert
  split
  · next known => rw [(represents_ofSymbols nodup).intern_of_mem known]
  · rw [ofSymbols, ofSymbols, List.foldl_append]
    rfl

end NumberedSymbols

end VisiblyPushdown
