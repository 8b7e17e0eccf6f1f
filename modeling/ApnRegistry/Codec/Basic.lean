import ApnRegistry.Error
import ApnRegistry.Json.Reader

/-!
# Codecs

A `Codec` writes the values of a type as JSON documents and reads them back. Reading is strict: a
number must be an integer literal within the bounds of its type, a missing value is `null` only where
one is allowed, and a *variant* is written as its name, or as an object with its name as the single
member and its payload as the value of that.
-/

namespace ApnRegistry

/-- How the values of a type are written as documents and read. -/
structure Codec (α : Type) where
  write : α → Json
  read : Json → Option α

namespace Json

/-- The name of the variant that a document stands for, and its payload. -/
def variant? : Json → Option (String × Option Json)
  | str s => s.text?.map (·, none)
  | obj [(name, payload)] => name.text?.map (·, some payload)
  | _ => none

/-- The payload of a variant that has none. -/
def isUnit : Option Json → Bool
  | none | some null => true
  | _ => false

/-- A variant with a payload. -/
def ofVariant (name : String) (payload : Json) : Json := .ofMembers [(name, payload)]

end Json

namespace Codec

variable {α : Type}

/-- Texts. -/
def text : Codec String := ⟨Json.ofText, Json.text?⟩

/-- Truth values. -/
def boolean : Codec Bool where
  write := .bool
  read
    | .bool b => some b
    | _ => none

/-- Integers between two bounds. -/
def integer (lo hi : Int) (toInt : α → Int) (ofInt : Int → α) : Codec α where
  write a := .ofInt (toInt a)
  read
    | .num (.int n) => if lo ≤ n ∧ n ≤ hi then some (ofInt n) else none
    | _ => none

/-- Unsigned integers of 16 bits. -/
def uint16 : Codec UInt16 := integer 0 (UInt16.size - 1) (·.toNat) (fun n => .ofNat n.toNat)

/-- Unsigned integers of 32 bits. -/
def uint32 : Codec UInt32 := integer 0 (UInt32.size - 1) (·.toNat) (fun n => .ofNat n.toNat)

/-- Numbers below 2 ^ 64. -/
def natural : Codec Nat := integer 0 (UInt64.size - 1) (·) (·.toNat)

/-- Signed integers of 32 bits. -/
def int32 : Codec Int32 := integer Int32.minValue.toInt Int32.maxValue.toInt (·.toInt) .ofInt

/-- Signed integers of 64 bits. -/
def int64 : Codec Int64 := integer Int64.minValue.toInt Int64.maxValue.toInt (·.toInt) .ofInt

/-- Values that may be missing. -/
def nullable (c : Codec α) : Codec (Option α) where
  write
    | none => .null
    | some a => c.write a
  read
    | .null => some none
    | j => (c.read j).map some

/-- Lists. -/
def list (c : Codec α) : Codec (List α) where
  write as := .arr (as.map c.write)
  read
    | .arr items => items.mapM c.read
    | _ => none

/-- Variants without payload, each with its name. -/
def symbol (all : List α) (name : α → String) : Codec α where
  write a := .ofText (name a)
  read j :=
    match j.variant? with
    | some (tag, payload) => if Json.isUnit payload then all.find? (name · == tag) else none
    | none => none

/-- The same documents for the values of another type. -/
def wrapped {β : Type} (c : Codec α) (inner : β → α) (outer : α → β) : Codec β where
  write b := c.write (inner b)
  read j := (c.read j).map outer

/-- The value that a text is the document of. -/
def parse (c : Codec α) (s : String) : Except Error α :=
  match (Json.parse? s).bind c.read with
  | some a => .ok a
  | none => .error .malformedDocument

end Codec

end ApnRegistry
