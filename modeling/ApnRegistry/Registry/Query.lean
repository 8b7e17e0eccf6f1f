import ApnRegistry.Registry.Modernize

/-!
# Queries

A query lists the visible rows of the caller's partition that the target addresses and a condition
selects. If the registry is set up to, it first puts the rows of the partition that still have
integer codes into modern form, and reads them again if that changed any.
-/

namespace ApnRegistry.Registry

variable {σ : Type} [RowStore σ]

/-- The rows of the partition, put into modern form if the registry is set up so. -/
def currentRows (setup : Setup) (partition : Partition) (order : Order) :
    Action σ (List Profile) := do
  let found ← rows partition.predicate order
  if setup.config.lazyMccMncMigration then
    if 0 < (← modernizeRows setup.device.known found) then
      return ← rows partition.predicate order
  return found

/-- The row as a query shows it. -/
def shown (setup : Setup) (p : Profile) : Profile :=
  if setup.config.lazyMccMncMigration then LegacyCodes.modernized setup.device.known p else p

/-- The visible rows that the target addresses and the condition selects. -/
def query (setup : Setup) (caller : Caller) (target : Target) (q : Predicate) (order : Order) :
    Action σ (List Profile) := do
  let partition ← authorizeRows setup caller target .query
  let found ← currentRows setup partition order
  let filter := (targetPredicate setup target).and q
  return ((found.filter Profile.isVisible).map (shown setup)).filter filter.holds

end ApnRegistry.Registry
