import ApnRegistry.Collision
import ApnRegistry.LegacyCodes
import ApnRegistry.Registry.State

/-!
# Modern form for rows with integer codes

A row that still has integer codes only is put into modern form, one row at a time. Its new codes
may give it the key of another row of its shard. An ordinary row is then merged onto that one, and
goes; a policy row just goes. A row that changed since it was read is left alone.
-/

namespace ApnRegistry.Registry

variable {σ : Type} [RowStore σ]

/-- The changes that put the row `old`, stored under `id`, into its modern form, given the rows
of its shard. -/
def modernizing (id : RowId) (old modern : Profile) (shard : List Profile) :
    Except Error Batch :=
  match old.owner with
  | .dpc =>
    match Collision.resolveDpc modern shard with
    | .ok r => .ok [.replace r.stored]
    | .error _ => .ok [.delete id]
  | .others => do
    let r ← Collision.resolve modern shard
    return (if r.stored.id = some id then [] else [.delete id]) ++ [.replace r.stored]

/-- Stores the modern form of a row that was read as `old`, and tells whether it did. -/
def writeBack (old modern : Profile) : Action σ Bool := do
  match old.id with
  | none => return false
  | some id =>
    if (← fetch id) ≠ some old then return false
    let batch ← decided (modernizing id old modern (← rows (inShards [old.shard]) .idAscending))
    let _ ← write batch
    return true

/-- Puts those of the rows that need it into modern form, and counts them. -/
def modernizeRows (known : List String) : List Profile → Action σ Nat
  | [] => return 0
  | row :: rest => do
    let done ← match LegacyCodes.pending known row with
      | some modern => writeBack row modern
      | none => pure false
    let others ← modernizeRows known rest
    return (if done then 1 else 0) + others

/-- Puts every row that needs it into modern form, and counts them. -/
def migrateAll (setup : Setup) (caller : Caller) : Action σ Nat := do
  let _ ← authorize setup caller .general .update
  let count ← modernizeRows setup.device.known (← rows .always .idAscending)
  if 0 < count then publish (.apnTable none)
  return count

end ApnRegistry.Registry
