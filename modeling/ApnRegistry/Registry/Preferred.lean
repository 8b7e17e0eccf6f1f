import ApnRegistry.Registry.Query

/-!
# Preferred rows and the views that depend on the SIM

A subscription may prefer one visible row of the ordinary table. The pointer is followed when it is
asked for: if the row is gone or hidden by then, nothing is preferred.
-/

namespace ApnRegistry.Registry

variable {σ : Type} [RowStore σ]

/-- The row that the subscription prefers, if it still can be preferred. -/
def preferred (setup : Setup) (caller : Caller) (s : Subscription) : Action σ (Option Profile) := do
  let _ ← authorize setup caller .general .query
  match (← get).preferences.get? s with
  | none => return none
  | some id => return (← fetch id).filter Selection.isPreferable

/-- Makes the subscription prefer the row. -/
def setPreferred (setup : Setup) (caller : Caller) (s : Subscription) (id : RowId) :
    Action σ Unit := do
  let _ ← authorize setup caller .general .update
  if !(← fetch id).any Selection.isPreferable then throw (.notPreferable id)
  modify fun st => { st with preferences := st.preferences.set s id }
  publish (.apnTable (some s))

/-- Makes the subscription prefer nothing, and tells whether it preferred anything. -/
def clearPreferred (setup : Setup) (caller : Caller) (s : Subscription) : Action σ Bool := do
  let _ ← authorize setup caller .general .update
  let had := ((← get).preferences.get? s).isSome
  modify fun st => { st with preferences := st.preferences.clear s }
  if had then publish (.apnTable (some s))
  return had

/-- The rows of the subscription. -/
def subscriptionRows (setup : Setup) (caller : Caller) (s : Subscription) :
    Action σ (List Profile) :=
  query setup caller (.table .general (some s)) .always .idAscending

/-- The rows of the subscription that are in the set of its preferred row. -/
def apnSet (setup : Setup) (caller : Caller) (s : Subscription) : Action σ (List Profile) := do
  let found ← subscriptionRows setup caller s
  return Selection.apnSet found (← preferred setup caller s)

/-- The candidates for the SIM of the subscription. -/
def simApnList (setup : Setup) (caller : Caller) (s : Subscription) : Action σ (List Profile) := do
  let found ← subscriptionRows setup caller s
  match Selection.refusal setup.engine found (setup.device.sim s) with
  | some e => throw e
  | none => return Selection.forSim found (setup.device.sim s)

end ApnRegistry.Registry
