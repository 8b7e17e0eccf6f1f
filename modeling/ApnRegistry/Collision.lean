import ApnRegistry.ServiceTypes
import ApnRegistry.Update

/-!
# Colliding profiles

No two rows should share a key. This module says what becomes of a profile that has the key of a
stored row.

* `resolve`: a new profile of the ordinary table takes the place of the row it collides with, and
  keeps that row's id. A row with recorded intent is stronger: an unedited profile only renames it
  and widens its service types.
* `resolveDpc`: a new policy row that collides is refused.
* `resolveUpdate`: an update that moves a row onto the key of another is carried out on that other
  row, and the updated one goes. A policy row that would collide is refused.

More than one collision cannot be mended and is an error.
-/

namespace ApnRegistry

/-- What became of a profile. -/
inductive Resolution.Outcome where
  /-- It collided with nothing and becomes a new row. -/
  | inserted
  /-- It collided, and the later write won. -/
  | merged
  /-- It collided with a row whose recorded intent was kept. -/
  | preservedIntent
  /-- An update collided with nothing. -/
  | updated
  deriving DecidableEq, Repr, Inhabited

/-- The row to write, and the rows that must go for it. -/
structure Resolution where
  /-- It carries an id when it takes the place of a stored row. -/
  stored : Profile
  removed : List RowId
  outcome : Resolution.Outcome
  deriving DecidableEq, Inhabited

namespace Collision

/-- The status left when a profile with status `incoming` lands on a row with status `stored`: a
recorded intent is only replaced by another. -/
def precedence (stored incoming : EditStatus) : EditStatus :=
  if incoming.isUnedited then stored else incoming

/-- The other rows with the key of `incoming`. A profile without id has only other rows. -/
def hits (incoming : Profile) (rows : List Profile) : List Profile :=
  rows.filter fun row => (incoming.id.isNone || row.id != incoming.id) && row.key == incoming.key

/-- The row that results when `incoming` lands on `row`. -/
def mergeOnto (row incoming : Profile) : Profile × Resolution.Outcome :=
  let types := ServiceTypes.union row.apnTypes incoming.apnTypes
  if !row.status.isUnedited && incoming.status.isUnedited then
    ({ row with name := incoming.name, apnTypes := types }, .preservedIntent)
  else
    ({ incoming with
        id := row.id
        apnTypes := types
        status := precedence row.status incoming.status }, .merged)

/-- Several rows have the key of the profile. -/
def ambiguous (count : Nat) (p : Profile) : Error := .ambiguousKey count p.apn p.numeric

/-- Where a new profile of the ordinary table goes, `rows` being stored already. -/
def resolve (incoming : Profile) (rows : List Profile) : Except Error Resolution :=
  match hits incoming rows with
  | [] => .ok ⟨incoming, [], .inserted⟩
  | [row] =>
    let (stored, outcome) := mergeOnto row incoming
    .ok ⟨stored, [], outcome⟩
  | many => .error (ambiguous many.length incoming)

/-- Where a new policy row goes, `rows` being stored already. -/
def resolveDpc (incoming : Profile) (rows : List Profile) : Except Error Resolution :=
  match hits incoming rows with
  | [] => .ok ⟨incoming, [], .inserted⟩
  | _ => .error (.dpcInsertCollides incoming.apn)

/-- The place among the waiting profiles of the one with the key of `p`. -/
def placeOf (waiting : List Profile) (p : Profile) : Option Nat :=
  waiting.findIdx? (·.key == p.key)

/-- Lets `p` land on the waiting profile at a place. -/
def landAt (waiting : List Profile) (i : Nat) (p : Profile) : List Profile :=
  waiting.modify i fun w => (mergeOnto w p).1

/-- The row that results when the update moves a row, `moved` once updated, onto `row`. -/
def updateOnto (row moved : Profile) (changes : Update) : Profile × Resolution.Outcome :=
  if !row.status.isUnedited && moved.status.isUnedited then mergeOnto row moved
  else
    ({ changes.applied row with
        apnTypes := ServiceTypes.union row.apnTypes moved.apnTypes
        status := precedence row.status moved.status }, .merged)

/-- Where the row `current` goes when it is updated, `rows` being stored. -/
def resolveUpdate (current : Profile) (changes : Update) (rows : List Profile) :
    Except Error Resolution :=
  let moved := changes.applied current
  match hits moved rows with
  | [] => .ok ⟨moved, [], .updated⟩
  | [row] =>
    if current.owner = .dpc then .error (.dpcUpdateCollides current.id row.id)
    else
      let (stored, outcome) := updateOnto row moved changes
      .ok ⟨stored, current.id.toList, outcome⟩
  | many =>
    if current.owner = .dpc then .error (.dpcUpdateCollidesWithMany current.id many.length)
    else .error (ambiguous many.length moved)

end Collision

end ApnRegistry
