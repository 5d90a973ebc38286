import VisiblyPushdown.InsertionOrder

/-!
# Name tables

A name table numbers distinct names from zero, in the order in which they are first seen. A number
stays with its name for the life of the table.
-/

namespace VisiblyPushdown

/-- The distinct names seen so far; a name's number is its position. -/
structure NameTable where
  names : List String := []
deriving Repr

namespace NameTable

/-- The number of a name that was seen before. -/
def number? (table : NameTable) (name : String) : Option Nat :=
  table.names.idxOf? name

/-- The name behind a number. -/
def name? (table : NameTable) (number : Nat) : Option String :=
  table.names[number]?

/-- The number of a name and the table that knows it: a new name takes the next free number. -/
def intern (table : NameTable) (name : String) : Nat × NameTable :=
  let names := InsertionOrder.insert table.names name
  (names.idxOf name, ⟨names⟩)

end NameTable

end VisiblyPushdown
