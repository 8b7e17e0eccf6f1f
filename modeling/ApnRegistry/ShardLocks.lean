import ApnRegistry.Ascending
import ApnRegistry.Profile.Basic

/-!
# Locks on shards and partitions

Writers of a few shards exclude each other shard by shard; a writer of a whole partition excludes
all of them. `lock` takes every partition it needs in shared mode and then every shard for itself,
in ascending order; `lockPartition` takes one partition for itself. Either gives nothing and leaves
the locks as they were when it would have to wait.
-/

namespace ApnRegistry

/-- A hold on some shards, listed in ascending order. -/
structure ShardGuard where
  shards : List Shard
  deriving DecidableEq, Repr, Inhabited

namespace ShardGuard

/-- The guard holds the shard. The shards are in order, so that it is found by halving. -/
def covers (g : ShardGuard) (s : Shard) : Bool := Ascending.search s g.shards

/-- The partitions that the guard keeps in shared mode, each once. -/
def owners (g : ShardGuard) : List Owner := Ascending.ofList (g.shards.map (·.owner))

end ShardGuard

/-- What is held at the moment. -/
structure ShardLocks where
  /-- The partitions held in shared mode, once for every guard. -/
  shared : List Owner := []
  /-- The partitions held by one writer alone. -/
  exclusive : List Owner := []
  /-- The shards that are held. -/
  held : List Shard := []
  deriving DecidableEq, Repr, Inhabited

namespace ShardLocks

/-- Takes the partition in shared mode. -/
def share (l : ShardLocks) (o : Owner) : Option ShardLocks :=
  if l.exclusive.contains o then none else some { l with shared := o :: l.shared }

/-- Takes the shard. -/
def hold (l : ShardLocks) (s : Shard) : Option ShardLocks :=
  if l.held.contains s then none else some { l with held := s :: l.held }

/-- Takes all of the shards, or nothing if one of them is not free. -/
def lock (l : ShardLocks) (shards : List Shard) : Option (ShardGuard × ShardLocks) := do
  let guard : ShardGuard := ⟨Ascending.ofList shards⟩
  let l ← guard.owners.foldlM share l
  let l ← guard.shards.foldlM hold l
  return (guard, l)

/-- Takes the whole partition, or nothing if somebody writes in it. -/
def lockPartition (l : ShardLocks) (o : Owner) : Option ShardLocks :=
  if l.exclusive.contains o || l.shared.contains o then none
  else some { l with exclusive := o :: l.exclusive }

/-- Gives back what a guard holds. -/
def release (l : ShardLocks) (g : ShardGuard) : ShardLocks :=
  { l with
    shared := g.owners.foldl List.erase l.shared
    held := l.held.filter (!g.shards.contains ·) }

/-- Gives back a partition that was taken as a whole. -/
def releasePartition (l : ShardLocks) (o : Owner) : ShardLocks :=
  { l with exclusive := l.exclusive.erase o }

end ShardLocks

end ApnRegistry
