/-!
# Row ids and subscriptions

A stored row is named by its row id; ids are handed out from 1 upward. A subscription is one SIM
of the device. A profile is *pinned* when its subscription is 0 or above; -1 stands for the
profiles that follow their operator instead.
-/

namespace ApnRegistry

/-- The name of a stored row. -/
structure RowId where
  val : Nat
  deriving DecidableEq, Ord, Repr, Inhabited

namespace RowId

/-- How an optional row id is written in messages. -/
def describe : Option RowId → String
  | some id => s!"Some(RowId({id.val}))"
  | none => "None"

end RowId

/-- One SIM of the device. -/
structure Subscription where
  val : Int32
  deriving DecidableEq, Ord, Repr, Inhabited

namespace Subscription

/-- Not pinned: the profile belongs to every subscription of its operator. -/
def unpinned : Subscription := ⟨-1⟩

/-- The subscription names a SIM. -/
def isPinned (s : Subscription) : Bool := decide (0 ≤ s.val)

end Subscription

end ApnRegistry
