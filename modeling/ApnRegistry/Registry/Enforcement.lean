import ApnRegistry.Registry.State

/-!
# The enforcement flag

While the flag is set, the filtered scope shows the rows of the policy controller.
-/

namespace ApnRegistry.Registry

variable {σ : Type}

/-- The enforcement flag. -/
def enforced (setup : Setup) (caller : Caller) : Action σ Bool := do
  let _ ← authorize setup caller .enforceManaged .query
  return (← get).enforced

/-- Sets the enforcement flag; only a change is announced. -/
def setEnforced (setup : Setup) (caller : Caller) (value : Bool) : Action σ Unit := do
  let _ ← authorize setup caller .enforceManaged .update
  let before := (← get).enforced
  modify fun st => { st with enforced := value }
  if before ≠ value then publish (.enforcedChanged value)

end ApnRegistry.Registry
