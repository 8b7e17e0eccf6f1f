import ApnRegistry.Ascending
import ApnRegistry.Collision
import ApnRegistry.Registry.State

/-!
# Updates and deletions

Both change the visible rows that a partition, a target and a condition select, read while the shards
of these rows are locked (`lockMatching`).

* An update goes through the rows one by one on a copy of the locked shards (`Revision.step`) and
  sends a single batch. A policy row that would collide stops it, and nothing is changed.
* A deletion removes policy rows and edited rows, and leaves every other row as a tombstone.
-/

namespace ApnRegistry.Registry

/-- How often the rows are read again when they moved to shards that were not locked. -/
def maxReplans : Nat := 8

section

variable {σ : Type} [RowStore σ]

/-- The visible rows that a condition selects, together with their shards, which are locked: the
shards of a first reading and the rows of a second one that lie in them. None if there is no such
row. -/
def lockMatching (q : Predicate) : Nat → Action σ (Option (List Shard × List Profile))
  | 0 => throw .rowsKeptMoving
  | attempts + 1 => do
    let planned ← rows q .idAscending
    let shards := Ascending.ofList ((planned.filter Profile.isVisible).map Profile.shard)
    if shards.isEmpty then return none
    let matched := (← rows q .idAscending).filter Profile.isVisible
    if matched.all (shards.contains ·.shard) then return some (shards, matched)
    lockMatching q attempts

end

/-- An update in the making. -/
structure Revision where
  /-- The rows of the locked shards, as they are by now. -/
  working : Rows
  /-- The rows that were written. -/
  touched : List RowId := []
  /-- The rows that were merged onto others. -/
  removed : List RowId := []
  /-- How many rows were updated. -/
  affected : Nat := 0
  deriving DecidableEq, Inhabited

namespace Revision

/-- Updates one more row, unless it went before. -/
def step (changes : Update) (v : Revision) (id : RowId) : Except Error Revision :=
  match v.working.get? id with
  | none => .ok v
  | some current => do
    let sameShard := v.working.profiles.filter (·.shard == current.shard)
    let r ← Collision.resolveUpdate current changes sameShard
    let working := r.removed.foldl Rows.erase v.working
    let removed := v.removed ++ r.removed
    match r.stored.id with
    | some stored => return {
        working := working.put stored r.stored
        touched := v.touched ++ [stored]
        removed
        affected := v.affected + 1 }
    | none => return { v with working, removed, affected := v.affected + 1 }

/-- Updates the rows with the given ids in order, `locked` being the rows of the locked shards. -/
def ofRows (changes : Update) (locked : List Profile) (ids : List RowId) : Except Error Revision :=
  ids.foldlM (step changes) { working := Rows.ofProfiles locked }

/-- The changes that carry the update out: first the rows that go, then the rows that changed. -/
def batch (v : Revision) : Batch :=
  (Ascending.ofList v.removed).map .delete ++
    (v.working.filter (v.touched.contains ·.1)).map fun entry => .replace entry.2

end Revision

/-- The changes with the mark of the one who made them: an update of ordinary rows that sets no
status makes them edited. -/
def stamped (caller : Caller) (partition : Partition) (changes : Update) : Update :=
  if partition.owner = .others && changes.status.isNone then
    { changes with status := some (if caller.isCarrier then .carrierEdited else .userEdited) }
  else changes

/-- The mark that a deletion leaves. -/
def tombstone (caller : Caller) : EditStatus :=
  if caller.isCarrier then .carrierDeleted else .userDeleted

/-- What a deletion does to one row. -/
def deletion (mark : EditStatus) (p : Profile) : Option Change :=
  p.id.map fun id =>
    if p.owner == .dpc || p.status.isEdited then .delete id else .replace { p with status := mark }

variable {σ : Type} [RowStore σ]

/-- Updates the selected rows and counts them. A policy row that would collide makes it zero. -/
def update (setup : Setup) (caller : Caller) (target : Target) (q : Predicate)
    (changes : Update) : Action σ Nat := do
  let partition ← authorizeRows setup caller target .update
  if changes.isEmpty then return 0
  let changes := stamped caller partition changes
  match ← lockMatching (selected setup partition target q) maxReplans with
  | none => return 0
  | some (shards, matched) =>
    let locked ← rows (inShards shards) .idAscending
    match Revision.ofRows changes locked (matched.filterMap (·.id)) with
    | .error e => if e.kind = .conflict then return 0 else throw e
    | .ok revision =>
      let _ ← write revision.batch
      if 0 < revision.affected then publish (.apnTable target.subscription?)
      return revision.affected

/-- Deletes the selected rows and counts them. -/
def delete (setup : Setup) (caller : Caller) (target : Target) (q : Predicate) : Action σ Nat := do
  let partition ← authorizeRows setup caller target .delete
  match ← lockMatching (selected setup partition target q) maxReplans with
  | none => return 0
  | some (_, matched) =>
    let batch := matched.filterMap (deletion (tombstone caller))
    let _ ← write batch
    if 0 < batch.length then publish (.apnTable target.subscription?)
    return batch.length

end ApnRegistry.Registry
