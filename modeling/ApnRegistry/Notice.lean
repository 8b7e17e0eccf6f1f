import ApnRegistry.Profile.Ids

/-!
# Notices

After a write the registry posts a `Notice` on a board. A subscriber sees what is posted after it
subscribed, in order. The board keeps only the newest notices, `room` of them; a subscriber that
fell further behind is told how many it lost and goes on with the oldest that is kept.
-/

namespace ApnRegistry

/-- An announcement of a change. -/
inductive Notice where
  /-- Rows changed. -/
  | apnTable (subscription : Option Subscription)
  /-- A restore to the factory list was completed. -/
  | restore (subscription : Option Subscription)
  /-- The enforcement flag changed. -/
  | enforcedChanged (enforced : Bool)
  deriving DecidableEq, Repr, Inhabited

/-- The notice announces a restore. -/
def Notice.isRestore : Notice → Bool
  | restore _ => true
  | _ => false

/-- All notices ever posted, oldest first, and how many of them are kept. -/
structure NoticeBoard where
  room : Nat
  posted : List Notice := []
  deriving DecidableEq, Repr, Inhabited

/-- Where a subscriber stands: the number of notices that are behind it. -/
structure NoticeBoard.Reader where
  seen : Nat
  deriving DecidableEq, Repr, Inhabited

/-- What a subscriber receives at once. -/
structure NoticeBoard.Delivery where
  /-- How many notices were lost, if any. -/
  lost : Option Nat
  notices : List Notice
  deriving DecidableEq, Repr, Inhabited

namespace NoticeBoard

/-- An empty board for at least one notice; the room is rounded up to a power of two. -/
def ofCapacity (capacity : Nat) : NoticeBoard := { room := (max capacity 1).nextPowerOfTwo }

/-- Posts a notice. -/
def post (b : NoticeBoard) (n : Notice) : NoticeBoard := { b with posted := b.posted ++ [n] }

/-- A subscriber that sees what is posted from now on. -/
def subscribe (b : NoticeBoard) : Reader := ⟨b.posted.length⟩

/-- All that waits for a subscriber, which has then seen everything. -/
def receive (b : NoticeBoard) (r : Reader) : Delivery × Reader :=
  let kept := b.posted.length - b.room
  let delivery : Delivery :=
    if r.seen < kept then ⟨some (kept - r.seen), b.posted.drop kept⟩
    else ⟨none, b.posted.drop r.seen⟩
  (delivery, b.subscribe)

end NoticeBoard

end ApnRegistry
