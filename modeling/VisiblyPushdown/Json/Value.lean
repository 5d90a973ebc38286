/-!
# JSON values

JSON values over a type of strings. Numbers are kept as they are spelled, and objects keep their
fields in order and with repetition, for what a repeated field means is up to the reader of the
value.
-/

namespace VisiblyPushdown.Json

/-- A JSON value whose strings and field names are of type `τ`. -/
inductive Value (τ : Type) where
  | null
  | boolean (value : Bool)
  | number (digits : String)
  | string (text : τ)
  | array (items : List (Value τ))
  | object (fields : List (τ × Value τ))
deriving Repr

end VisiblyPushdown.Json
