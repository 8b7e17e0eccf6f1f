/-!
# Scopes and verbs

A request addresses the table through a scope and asks for one verb. `general` is the ordinary
table, `dpc` the rows of the device policy controller, `filtered` one of the two depending on the
enforcement flag, and `enforceManaged` the flag itself.
-/

namespace ApnRegistry

/-- The surface of the table that a request is addressed to. -/
inductive Scope where
  | general
  | dpc
  | filtered
  | enforceManaged
  deriving DecidableEq, Repr, Inhabited

namespace Scope

/-- Every scope, in order. -/
def all : List Scope := [.general, .dpc, .filtered, .enforceManaged]

/-- The scope's name in requests and messages. -/
def name : Scope → String
  | general => "general"
  | dpc => "dpc"
  | filtered => "filtered"
  | enforceManaged => "enforce_managed"

/-- Only listed callers may use the scope. -/
def isPrivileged : Scope → Bool
  | general => false
  | _ => true

end Scope

/-- What a request wants to do. -/
inductive Verb where
  | query
  | insert
  | update
  | delete
  deriving DecidableEq, Repr, Inhabited

namespace Verb

/-- Every verb, in order. -/
def all : List Verb := [.query, .insert, .update, .delete]

/-- The verb's name in requests and messages. -/
def name : Verb → String
  | query => "Query"
  | insert => "Insert"
  | update => "Update"
  | delete => "Delete"

/-- The verb changes the table. -/
def isWrite : Verb → Bool
  | query => false
  | _ => true

end Verb

end ApnRegistry
