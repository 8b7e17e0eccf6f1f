import ApnRegistry.Profile.Basic

/-!
# Batches

A `Change` is one mutation of one row, and a `Batch` lists changes that are carried out together or
not at all.
-/

namespace ApnRegistry

/-- A mutation of one row. -/
inductive Change where
  /-- A new row, for a profile without id. -/
  | insert (p : Profile)
  /-- A new content for the row that the profile's id names. -/
  | replace (p : Profile)
  /-- The end of a row. -/
  | delete (id : RowId)
  deriving DecidableEq, Inhabited

namespace Change

/-- The stored row that the change is about. -/
def target : Change → Option RowId
  | insert _ => none
  | replace p => p.id
  | delete id => some id

/-- The change removes a row. -/
def isDelete : Change → Bool
  | delete _ => true
  | _ => false

end Change

/-- Changes to carry out together, in order. -/
abbrev Batch := List Change

/-- What a batch did. -/
structure Batch.Outcome where
  /-- The ids of the new rows, in the order of the batch. -/
  inserted : List RowId := []
  replaced : Nat := 0
  deleted : Nat := 0
  deriving DecidableEq, Repr, Inhabited

end ApnRegistry
