import ApnRegistry.Json.Number
import ApnRegistry.Json.Quoted

/-!
# JSON documents

A document as a tree. Strings and numbers are kept as they were written, members keep their order,
and a name may occur twice: what to make of that is up to who reads the document.
-/

namespace ApnRegistry

/-- A JSON document. -/
inductive Json where
  | null
  | bool (b : Bool)
  | num (n : Json.Number)
  | str (s : Json.Quoted)
  | arr (items : List Json)
  | obj (members : List (Json.Quoted × Json))
  deriving Inhabited

namespace Json

/-- The text, as a document. -/
def ofText (s : String) : Json := .str (.ofText s)

/-- The integer, as a document. -/
def ofInt (n : Int) : Json := .num (.int n)

/-- The members, under their names. -/
def ofMembers (members : List (String × Json)) : Json :=
  .obj (members.map fun (name, value) => (.ofText name, value))

/-- The text that the document is. -/
def text? : Json → Option String
  | str s => s.text?
  | _ => none

/-- The values of all members with the given name. -/
def valuesOf (name : String) (members : List (Quoted × Json)) : List Json :=
  members.filterMap fun (q, value) => if q.text? = some name then some value else none

/-- The names of all members are texts. -/
def haveNames (members : List (Quoted × Json)) : Bool := members.all (·.1.text?.isSome)

mutual

/-- How deep arrays and objects are nested. -/
def depth : Json → Nat
  | null | bool _ | num _ | str _ => 0
  | arr items => depthOfItems items + 1
  | obj members => depthOfMembers members + 1

/-- The depth of the deepest item. -/
def depthOfItems : List Json → Nat
  | [] => 0
  | item :: items => max (depth item) (depthOfItems items)

/-- The depth of the deepest member. -/
def depthOfMembers : List (Quoted × Json) → Nat
  | [] => 0
  | (_, value) :: members => max (depth value) (depthOfMembers members)

end

mutual

/-- Every string of the document is a text, and a double stands for every number. -/
def isReadable : Json → Bool
  | null | bool _ => true
  | num n => n.isFinite
  | str s => s.text?.isSome
  | arr items => areItemsReadable items
  | obj members => areMembersReadable members

/-- Every item is readable. -/
def areItemsReadable : List Json → Bool
  | [] => true
  | item :: items => isReadable item && areItemsReadable items

/-- Every name is a text and every value readable. -/
def areMembersReadable : List (Quoted × Json) → Bool
  | [] => true
  | (name, value) :: members =>
    name.text?.isSome && isReadable value && areMembersReadable members

end

end Json

end ApnRegistry
