import ApnRegistry.Registry.State
import ApnRegistry.Restore

/-!
# Restoring to the factory list

On a device with several SIMs a restore covers the rows of one subscription, otherwise all ordinary
rows. It is planned from a fresh reading and sent as one batch; when the store says that trying again
may help, it is planned anew, as often as the settings allow.
-/

namespace ApnRegistry.Registry

/-- What a restore for the subscription covers. -/
def extentOf (device : Device) (s : Subscription) : Restore.Extent :=
  { subscription := if 1 < device.slots then some s else none, sim := device.sim s }

variable {σ : Type} [RowStore σ]

/-- Plans a restore from the rows as they are and tries to carry it out. -/
def restoreOnce (setup : Setup) (e : Restore.Extent) : Action σ (Except Error Restore.Report) := do
  let found ← rows .always .idAscending
  let plan ← decided (Restore.prepare setup.engine found setup.defaults e)
  return (← outcomeOf (write plan.batch)).map fun _ => plan.report

/-- Restores, and tries up to `retries` times again while the store says that this may help. -/
def restoreRows (setup : Setup) (e : Restore.Extent) : Nat → Action σ Restore.Report
  | 0 => do decided (← restoreOnce setup e)
  | retries + 1 => do
    match ← restoreOnce setup e with
    | .ok report => return report
    | .error err => if err.isRetryable then restoreRows setup e retries else throw err

/-- Restores the subscription, or the whole device if it has one SIM only, to the factory list. The
preferences that the restore covers are forgotten. -/
def restoreToDefault (setup : Setup) (caller : Caller) (s : Subscription) :
    Action σ Restore.Report := do
  let _ ← authorize setup caller .general .update
  let e := extentOf setup.device s
  let report ← restoreRows setup e (setup.config.restoreMaxAttempts.toNat - 1)
  modify fun st => { st with
    preferences := if e.subscription.isSome then st.preferences.clear s else [] }
  publish (.restore (some s))
  publish (.apnTable (some s))
  return report

end ApnRegistry.Registry
