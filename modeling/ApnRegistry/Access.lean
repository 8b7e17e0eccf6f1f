import ApnRegistry.Predicate

/-!
# Access

A `Caller` asks for a verb on a scope, and a `Policy` decides which partition of the table the call
may touch, if any.

* All scopes but the general one are for the privileged callers of the policy.
* Writing the general table needs a permission instead.
* The general scope gives the rows of `others`, the scopes of the policy controller give its rows,
  and the filtered scope gives either, as the enforcement flag says.
-/

namespace ApnRegistry

/-- What a calling process may be allowed to do. -/
inductive Permission where
  /-- Write the general table. -/
  | writeApnSettings
  /-- Act for the carrier of the active SIM. -/
  | carrierPrivileges
  deriving DecidableEq, Repr, Inhabited

namespace Permission

/-- Every permission, in order. -/
def all : List Permission := [.writeApnSettings, .carrierPrivileges]

/-- The permission's name. -/
def name : Permission → String
  | writeApnSettings => "write_apn_settings"
  | carrierPrivileges => "carrier_privileges"

end Permission

/-- The process behind a request. -/
structure Caller where
  uid : UInt32
  permissions : List Permission := []
  deriving DecidableEq, Repr, Inhabited

namespace Caller

/-- The caller holds the permission. -/
def has (c : Caller) (permission : Permission) : Bool := c.permissions.contains permission

/-- The caller with the permission, which is not listed twice. -/
def granted (c : Caller) (permission : Permission) : Caller :=
  if c.has permission then c else { c with permissions := c.permissions ++ [permission] }

/-- The caller may write the general table. -/
def canWrite (c : Caller) : Bool := c.has .writeApnSettings

/-- The caller acts for a carrier. -/
def isCarrier (c : Caller) : Bool := c.has .carrierPrivileges

/-- The system process. -/
def system : Caller := { uid := 1000, permissions := [.writeApnSettings] }

/-- The telephony process. -/
def phone : Caller := { uid := 1001, permissions := [.writeApnSettings] }

end Caller

/-- The part of the table that an authorized call may touch. -/
structure Partition where
  owner : Owner
  /-- The owner that new rows are given, whatever the caller wrote. -/
  forcedOwner : Option Owner
  deriving DecidableEq, Repr, Inhabited

namespace Partition

/-- The partition of one owner; inserts are forced into it. -/
def ofOwner (owner : Owner) (verb : Verb) : Partition :=
  ⟨owner, if verb = .insert then some owner else none⟩

/-- The rows of the partition. -/
def predicate (p : Partition) : Predicate := .equals .ownedBy (.integer p.owner.code)

end Partition

/-- The callers that may use the privileged scopes. -/
structure Policy where
  privileged : List UInt32 := [Caller.system.uid, Caller.phone.uid]
  deriving DecidableEq, Repr, Inhabited

namespace Policy

/-- The caller may use the privileged scopes. -/
def isPrivileged (policy : Policy) (caller : Caller) : Bool := policy.privileged.contains caller.uid

/-- The owner whose rows a scope shows; the enforcement flag decides for the filtered one. -/
def ownerOf (scope : Scope) (enforced : Bool) : Owner :=
  match scope with
  | .general => .others
  | .dpc | .enforceManaged => .dpc
  | .filtered => if enforced then .dpc else .others

/-- The partition that the caller gets for a verb on a scope. -/
def authorize (policy : Policy) (caller : Caller) (scope : Scope) (verb : Verb) (enforced : Bool) :
    Except Error Partition :=
  if scope.isPrivileged && !policy.isPrivileged caller then
    .error (.scopeForbidden caller.uid verb scope)
  else if scope = .general && verb.isWrite && !caller.canWrite then
    .error (.writeForbidden caller.uid)
  else .ok (Partition.ofOwner (ownerOf scope enforced) verb)

end Policy

end ApnRegistry
