import ApnRegistry.Collision
import ApnRegistry.LegacyCodes
import ApnRegistry.Registry.State

/-!
# Inserts

An insert first gives every profile its final form: no id, the owner of the partition, the target's
subscription unless it is pinned already, and text codes. Then it decides for one profile after the
other where it goes (`Draft.add`), on a copy of the rows that could collide, and at the end sends a
single batch.

An ordinary profile lands on an equal one that waits to be inserted, or else on a stored row, or
else waits to be inserted itself. A policy profile that collides with either is turned away.
-/

namespace ApnRegistry.Registry

/-- Where a profile of an insert ended up. -/
inductive Slot where
  | rejected
  | existing (id : RowId)
  /-- The place among the new rows. -/
  | fresh (place : Nat)
  deriving DecidableEq, Repr, Inhabited

/-- An insert in the making. -/
structure Draft where
  /-- The stored rows that could collide, with what landed on them. -/
  working : Rows
  /-- The rows on which something landed. -/
  touched : List RowId := []
  /-- The new rows. -/
  pending : List Profile := []
  /-- Where the profiles so far ended up, in order. -/
  slots : List Slot := []
  deriving DecidableEq, Inhabited

namespace Draft

/-- Decides where one more profile goes. -/
def add (d : Draft) (p : Profile) : Except Error Draft :=
  match p.owner with
  | .dpc =>
    match Collision.resolveDpc p (d.working.profiles ++ d.pending) with
    | .ok r => .ok { d with
        pending := d.pending ++ [r.stored]
        slots := d.slots ++ [.fresh d.pending.length] }
    | .error _ => .ok { d with slots := d.slots ++ [.rejected] }
  | .others =>
    match Collision.placeOf d.pending p with
    | some i => .ok { d with
        pending := Collision.landAt d.pending i p
        slots := d.slots ++ [.fresh i] }
    | none => do
      let r ← Collision.resolve p d.working.profiles
      match r.stored.id with
      | some id => return { d with
          working := d.working.put id r.stored
          touched := d.touched ++ [id]
          slots := d.slots ++ [.existing id] }
      | none => return { d with
          pending := d.pending ++ [r.stored]
          slots := d.slots ++ [.fresh d.pending.length] }

/-- Decides where all the profiles go, `stored` being the rows that could collide. -/
def ofProfiles (stored ps : List Profile) : Except Error Draft :=
  ps.foldlM add { working := Rows.ofProfiles stored }

/-- The changes that carry the draft out. -/
def batch (d : Draft) : Batch :=
  ((d.working.filter (d.touched.contains ·.1)).map fun entry => .replace entry.2) ++
    d.pending.map .insert

/-- The id under which a profile is stored, given the ids of the new rows. -/
def idOf (inserted : List RowId) : Slot → Option RowId
  | .rejected => none
  | .existing id => some id
  | .fresh i => inserted[i]?

end Draft

/-- The final form of a profile that is inserted. -/
def normalized (setup : Setup) (partition : Partition) (subscription : Option Subscription)
    (p : Profile) : Profile :=
  LegacyCodes.modernized setup.device.known { p with
    id := none
    owner := partition.forcedOwner.getD p.owner
    subscription := if p.subscription.isPinned then p.subscription
      else subscription.getD p.subscription }

variable {σ : Type} [RowStore σ]

/-- Inserts the profiles and tells under which ids they are stored. -/
def insertProfiles (setup : Setup) (caller : Caller) (target : Target) (ps : List Profile) :
    Action σ (List (Option RowId)) := do
  let partition ← authorizeRows setup caller target .insert
  match target with
  | .row .. => throw .insertIntoRow
  | .table _ subscription =>
    if ps.isEmpty then return []
    let ps := ps.map (normalized setup partition subscription)
    let stored ← rows (.oneOf .numeric (ps.map (.text ·.numeric))) .idAscending
    let draft ← decided (Draft.ofProfiles stored ps)
    let outcome ← write draft.batch
    return draft.slots.map (Draft.idOf outcome.inserted)

/-- Inserts one profile. A policy profile that collides gets no id. -/
def insert (setup : Setup) (caller : Caller) (target : Target) (p : Profile) :
    Action σ (Option RowId) := do
  let ids ← insertProfiles setup caller target [p]
  let id := ids.head?.join
  if id.isSome then publish (.apnTable target.subscription?)
  return id

/-- Inserts many profiles at once and counts those that are stored. -/
def bulkInsert (setup : Setup) (caller : Caller) (target : Target) (ps : List Profile) :
    Action σ Nat := do
  let ids ← insertProfiles setup caller target ps
  let count := ids.countP (·.isSome)
  if 0 < count then publish (.apnTable target.subscription?)
  return count

end ApnRegistry.Registry
