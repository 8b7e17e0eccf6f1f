import ApnRegistry.Batch
import ApnRegistry.Collision
import ApnRegistry.Selection

/-!
# Restoring the factory list

A restore takes the rows of its extent that carry no lasting intent out of the table and seeds the
factory list again. `plan` decides it all at once, from the rows as they are, as one batch:

1. delete every row of the extent whose status `isDropped`;
2. take the factory profiles that the extent admits, those made for the SIM's virtual operator
   first, and let each land on an equal one that is already waiting, or else on the surviving rows;
3. insert what collided with nothing.

A restore fails before all that if a pattern of a row or of a factory profile has to be run and is
refused (`refusal`).
-/

namespace ApnRegistry

namespace Restore

/-- What a restore may touch: the rows of one subscription, or those of the whole device. -/
structure Extent where
  subscription : Option Subscription
  /-- The SIM of the subscription. -/
  sim : Sim
  deriving DecidableEq, Inhabited

/-- How many rows a restore deleted, left alone within its extent, and seeded. -/
structure Report where
  deleted : Nat := 0
  preserved : Nat := 0
  seeded : Nat := 0
  deriving DecidableEq, Repr, Inhabited

/-- The stored row lies in the extent. -/
def Extent.contains (e : Extent) (p : Profile) : Bool :=
  p.owner == .others &&
    match e.subscription with
    | none => true
    | some s => (Selection.ofSubscription s e.sim.operator).holds p && Mvno.admits p e.sim

/-- The factory profile is seeded within the extent. -/
def Extent.admits (e : Extent) (p : Profile) : Bool :=
  match e.subscription with
  | none => true
  | some _ => e.sim.operator == some p.numeric && Mvno.admits p e.sim

/-- The failure of asking whether the stored row lies in the extent. -/
def Extent.refusalOfRow (engine : Mvno.Engine) (e : Extent) (p : Profile) : Option Error :=
  match e.subscription with
  | none => none
  | some s =>
    if p.owner == .others && (Selection.ofSubscription s e.sim.operator).holds p then
      Mvno.refusal engine p e.sim
    else none

/-- The failure of asking whether, and how early, the factory profile is seeded. -/
def Extent.refusalOfDefault (engine : Mvno.Engine) (e : Extent) (p : Profile) : Option Error :=
  if e.subscription.isNone || e.sim.operator == some p.numeric then Mvno.refusal engine p e.sim
  else none

/-- A row with this status is not worth keeping. -/
def isDropped : EditStatus → Bool
  | .unedited | .userDeleted | .carrierDeleted | .carrierDeletedButPresentInXml => true
  | _ => false

/-- The row is deleted by a restore of the extent. -/
def Extent.drops (e : Extent) (p : Profile) : Bool :=
  e.contains p && p.id.isSome && isDropped p.status

/-- The factory profile as it is seeded. -/
def seed (p : Profile) : Profile :=
  { p with id := none, owner := .others, subscription := .unpinned, status := .unedited }

/-- The admitted factory profiles in seeding order: first those whose constraint the SIM meets. -/
def seeds (e : Extent) (factory : List Profile) : List Profile :=
  let admitted := (factory.filter e.admits).map seed
  admitted.filter (Mvno.isMet · e.sim) ++ admitted.filter (!Mvno.isMet · e.sim)

/-- The seeds placed so far: new rows that wait, and surviving rows that get new content. -/
structure Seeding where
  waiting : List Profile := []
  overwritten : List Profile := []
  deriving DecidableEq, Inhabited

/-- Places one more seed. -/
def Seeding.place (survivors : List Profile) (s : Seeding) (p : Profile) : Except Error Seeding :=
  match Collision.placeOf s.waiting p with
  | some i => .ok { s with waiting := Collision.landAt s.waiting i p }
  | none => do
    let r ← Collision.resolve p survivors
    match r.outcome with
    | .inserted => return { s with waiting := s.waiting ++ [r.stored] }
    | .preservedIntent => return s
    | .merged | .updated => return { s with overwritten := s.overwritten ++ [r.stored] }

/-- The batch of a restore and what it amounts to. -/
structure Plan where
  batch : Batch
  report : Report
  deriving DecidableEq, Inhabited

/-- Plans a restore of the extent, given the stored rows and the factory list. -/
def plan (rows factory : List Profile) (e : Extent) : Except Error Plan := do
  let dropped := rows.filter e.drops
  let survivors := rows.filter (!e.drops ·)
  let seeding ← (seeds e factory).foldlM (Seeding.place survivors) {}
  return {
    batch := dropped.filterMap (·.id.map .delete) ++ seeding.overwritten.map .replace ++
      seeding.waiting.map .insert
    report := {
      deleted := dropped.length
      preserved := (survivors.filter e.contains).length
      seeded := seeding.waiting.length } }

/-- The first refused pattern, the rows being looked at before the factory list. -/
def refusal (engine : Mvno.Engine) (rows factory : List Profile) (e : Extent) : Option Error :=
  (rows.findSome? (e.refusalOfRow engine)).or (factory.findSome? (e.refusalOfDefault engine))

/-- Plans a restore, unless a pattern is refused. -/
def prepare (engine : Mvno.Engine) (rows factory : List Profile) (e : Extent) :
    Except Error Plan :=
  match refusal engine rows factory e with
  | some err => .error err
  | none => plan rows factory e

end Restore

end ApnRegistry
