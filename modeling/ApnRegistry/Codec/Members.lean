import ApnRegistry.Codec.Basic

/-!
# Structures by their members

A structure with defaults is written as an object with a member for each field. It is read from an
object in which any of the members may be missing, may stand in any order and may have others beside
them, as long as no known one occurs twice; or from an array that holds the first few fields in order.
-/

namespace ApnRegistry

/-- A field of a structure: its name, and how it is written and read. -/
structure Member (S : Type) where
  name : String
  write : S → Json
  read : Json → S → Option S

/-- The field that `get` looks at and `set` replaces. -/
def Member.of {S α : Type} (name : String) (c : Codec α) (get : S → α) (set : α → S → S) :
    Member S where
  name := name
  write s := c.write (get s)
  read j s := (c.read j).map (set · s)

namespace Codec

variable {S : Type}

/-- Reads one field from the members of an object: a missing one is left as it is. -/
def readMember (members : List (Json.Quoted × Json)) (s : S) (m : Member S) : Option S :=
  match Json.valuesOf m.name members with
  | [] => some s
  | [j] => m.read j s
  | _ => none

/-- Reads fields one after the other from the items of an array. -/
def readItems : List (Member S) → List Json → S → Option S
  | _, [], s => some s
  | [], _ :: _, _ => none
  | m :: ms, j :: js, s => (m.read j s).bind (readItems ms js)

/-- A structure with the given fields; what is missing is taken from `default`. -/
def structured (fields : List (Member S)) (default : S) : Codec S where
  write s := .ofMembers (fields.map fun m => (m.name, m.write s))
  read
    | .obj members =>
      if Json.haveNames members then fields.foldlM (readMember members) default else none
    | .arr items => readItems fields items default
    | _ => none

/-- The value of a member that must occur, once. -/
def required {α : Type} (members : List (Json.Quoted × Json)) (name : String) (c : Codec α) :
    Option α :=
  match Json.valuesOf name members with
  | [j] => c.read j
  | _ => none

/-- The value of a member that may occur, once. -/
def optional {α : Type} (members : List (Json.Quoted × Json)) (name : String) (c : Codec α) :
    Option (Option α) :=
  match Json.valuesOf name members with
  | [] => some none
  | [j] => c.nullable.read j
  | _ => none

end Codec

end ApnRegistry
