/-!
# Column values

A `Value` is what one column holds in one row. Values of one type are ordered; values of different
types are not comparable at all (`Value.compare?`).
-/

namespace ApnRegistry

/-- A scalar held by a column. -/
inductive Value where
  | null
  | integer (n : Int64)
  | text (s : String)
  | boolean (b : Bool)
  deriving DecidableEq, Inhabited

namespace Value

/-- The order of two values of the same type, `false` before `true` and texts by code point. -/
def compare? : Value → Value → Option Ordering
  | null, null => some .eq
  | integer a, integer b => some (compare a b)
  | text a, text b => some (compare a b)
  | boolean a, boolean b => some (compare a b)
  | _, _ => none

/-- Nothing is there: no value, or the empty text. -/
def isEmpty : Value → Bool
  | null => true
  | text s => s.isEmpty
  | _ => false

end Value

end ApnRegistry
