import ApnRegistry.Error

/-!
# Configuration

The settings of a registry. A restore needs at least one attempt, and the notice board room for at
least one notice (`Config.validate`).
-/

namespace ApnRegistry

/-- The settings of a registry. -/
structure Config where
  /-- The callers that may use the privileged scopes. -/
  privilegedUids : List UInt32 := [1000, 1001]
  /-- The enforcement flag at the start. -/
  enforceManagedDefault : Bool := false
  /-- How often one restore is tried. -/
  restoreMaxAttempts : UInt32 := 3
  /-- How many notices a subscriber may be behind. -/
  notificationCapacity : Nat := 64
  /-- Rows with integer codes are put into modern form when they are read. -/
  lazyMccMncMigration : Bool := true
  deriving DecidableEq, Repr, Inhabited

namespace Config

/-- The settings, if they are usable. -/
def validate (c : Config) : Except Error Config :=
  if c.restoreMaxAttempts = 0 then .error .noRestoreAttempts
  else if c.notificationCapacity = 0 then .error .noNoticeCapacity
  else .ok c

end Config

end ApnRegistry
