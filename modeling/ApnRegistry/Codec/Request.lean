import ApnRegistry.Access
import ApnRegistry.Codec.Members
import ApnRegistry.Codec.Predicate
import ApnRegistry.Codec.Profile
import ApnRegistry.Target

/-!
# Documents of scopes, targets and callers

A target is an object whose member `target` tells its form, wherever it stands among the others. The
whole object is read before its form is known, so all of it must be readable, members of other names
included.
-/

namespace ApnRegistry

namespace Codec

/-- Scopes. -/
def scope : Codec Scope := symbol Scope.all Scope.name

/-- Verbs. -/
def verb : Codec Verb := symbol Verb.all Verb.name

/-- Permissions. -/
def permission : Codec Permission := symbol Permission.all Permission.name

/-- The scope of a target; an empty object is as good a payload there as none. -/
def targetScope : Codec Scope where
  write := scope.write
  read
    | .obj [(name, .obj [])] => scope.read (.str name)
    | j => scope.read j

/-- A target from the members of an object. -/
def readTargetMembers (members : List (Json.Quoted × Json)) : Option Target := do
  match ← required members "target" text with
  | "table" =>
    return .table (← required members "scope" targetScope)
      (← optional members "subscription" subscription)
  | "row" =>
    return .row (← required members "scope" targetScope) (← required members "id" rowId)
  | _ => none

/-- A target from the items of an array. -/
def readTargetItems : List Json → Option Target
  | [form, s, detail] => do
    match ← text.read form with
    | "table" => return .table (← targetScope.read s) (← subscription.nullable.read detail)
    | "row" => return .row (← targetScope.read s) (← rowId.read detail)
    | _ => none
  | _ => none

/-- Targets. -/
def target : Codec Target where
  write
    | .table s sub => .ofMembers [("target", .ofText "table"), ("scope", scope.write s),
        ("subscription", subscription.nullable.write sub)]
    | .row s id => .ofMembers [("target", .ofText "row"), ("scope", scope.write s),
        ("id", rowId.write id)]
  read j :=
    if j.isReadable && decide (j.depth ≤ Json.maxDepth) then
      match j with
      | .obj members => readTargetMembers members
      | .arr items => readTargetItems items
      | _ => none
    else none

/-- Callers. -/
def caller : Codec Caller where
  write c := .ofMembers [("uid", uint32.write c.uid),
    ("permissions", permission.list.write c.permissions)]
  read
    | .obj members =>
      if Json.haveNames members then do
        return { uid := ← required members "uid" uint32
                 permissions := ← required members "permissions" permission.list }
      else none
    | .arr [uid, permissions] => do
      return { uid := ← uint32.read uid, permissions := ← permission.list.read permissions }
    | _ => none

end Codec

end ApnRegistry
