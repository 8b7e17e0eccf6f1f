import ApnRegistry.Proofs.InMemory
import ApnRegistry.Proofs.Keys
import ApnRegistry.Proofs.ShardLocks

/-!
# Reading the rows of locked shards

A writer locks some shards and then reads their rows, with one condition for all of them. The condition holds
of just these rows, whatever the order of the shards and however often one is named, and of no row if there is
no shard.

Rows with one key live in one shard. So whoever decides about a profile of a locked shard finds all that it
could collide with among the rows read (`CompleteFor`), and decides as with all stored rows before him. A row
that was not read would be stored a second time.

Results:
* `completeFor_filter`, `completeFor_scan`: the rows read from any list of rows, and from a table.
* `holds_inShards_of_lock`: the condition for the shards of a guard.
* `inShards_exact`: all of this together.
-/

namespace ApnRegistry.Registry

open Collision

/-- The rows read are all that matters to the shards among the stored rows. -/
structure CompleteFor (shards : List Shard) (read stored : List Profile) : Prop where
  /-- The rows of the shards are read, and no others. -/
  mem_iff : ∀ row, row ∈ read ↔ row ∈ stored ∧ row.shard ∈ shards
  /-- Of the rows with one key, all are read or none. -/
  together : ∀ a ∈ stored, ∀ b ∈ stored, a.key = b.key → (a ∈ read ↔ b ∈ read)
  /-- What a profile of the shards collides with is read, in the same order. -/
  hits : ∀ p : Profile, p.shard ∈ shards → hits p read = hits p stored
  /-- Decisions about profiles of the shards are those that all rows lead to. -/
  resolve : ∀ p : Profile, p.shard ∈ shards → resolve p read = resolve p stored
  resolveDpc : ∀ p : Profile, p.shard ∈ shards → resolveDpc p read = resolveDpc p stored
  resolveUpdate : ∀ (p : Profile) changes, p.shard ∈ shards →
    resolveUpdate p changes read = resolveUpdate p changes stored

/-- **The rows that meet the condition** are complete for the shards. -/
theorem completeFor_filter (shards : List Shard) (stored : List Profile) :
    CompleteFor shards (stored.filter (inShards shards).holds) stored := by
  have hhits (p : Profile) (hp : p.shard ∈ shards) :
      hits p (stored.filter (inShards shards).holds) = hits p stored :=
    hits_filter fun q _ hk => (holds_inShards shards q).mpr (Profile.shard_eq_of_key_eq hk ▸ hp)
  exact {
    mem_iff := fun row => by rw [List.mem_filter, holds_inShards]
    together := fun a ha b hb hk => by
      rw [List.mem_filter, List.mem_filter, and_iff_right ha, and_iff_right hb, holds_inShards_congr hk]
    hits := hhits
    resolve := fun p hp => resolve_congr (hhits p hp)
    resolveDpc := fun p hp => resolveDpc_congr (hhits p hp)
    resolveUpdate := fun p changes hp =>
      resolveUpdate_congr (hhits (changes.applied p) (changes.shard_applied p ▸ hp)) }

/-- A scan for the shards is complete for them. -/
theorem completeFor_scan (shards : List Shard) (t : Table) (order : Order) :
    CompleteFor shards (t.scan (inShards shards) order) (t.scan .always order) := by
  rw [t.scan_eq_filter (inShards shards)]
  exact completeFor_filter shards _

/-- A guard has the shards that were asked for, so that the condition holds of their rows. -/
theorem holds_inShards_of_lock {l l' : ShardLocks} {shards : List Shard} {g : ShardGuard}
    (h : l.lock shards = some (g, l')) (p : Profile) :
    (inShards g.shards).holds p = true ↔ p.shard ∈ shards := by
  obtain ⟨-, -, rfl, -⟩ := ShardLocks.lock_eq_some.mp h
  rw [holds_inShards, Ascending.mem_ofList]

/-- **The condition for locked shards is exact**: it holds of the rows of the listed shards and of no others,
and of none if no shard is listed. A guard that was granted for the list has the same rows. What a table shows
for the condition, in either order, is complete for the shards among all rows that it shows, as it is among
any stored rows at all. -/
theorem inShards_exact (shards : List Shard) :
    (∀ p, (inShards shards).holds p = true ↔ p.shard ∈ shards) ∧
    (∀ p, (inShards []).holds p = false) ∧
    (∀ (l l' : ShardLocks) g, l.lock shards = some (g, l') →
      ∀ p, (inShards g.shards).holds p = true ↔ p.shard ∈ shards) ∧
    (∀ stored : List Profile, CompleteFor shards (stored.filter (inShards shards).holds) stored) ∧
    ∀ (s : State Table) (order : Order), ∃ read stored,
      (rows (inShards shards) order).perform s = (.ok read, s) ∧
      (rows .always order).perform s = (.ok stored, s) ∧ CompleteFor shards read stored := by
  refine ⟨holds_inShards shards, fun p => ?_, fun l l' g => holds_inShards_of_lock,
    completeFor_filter shards, fun s order => ⟨_, _, perform_rows s _ order, perform_rows s _ order, ?_⟩⟩
  · rw [← Bool.not_eq_true, holds_inShards]
    exact List.not_mem_nil
  · exact completeFor_scan shards s.store order

/-- A guard for two shards, of which one is named twice. A profile of that one collides with two of the four
rows of the table, which are read, and is refused as it would be if all rows were read. -/
theorem inShards_exact_two_shards :
    let shards : List Shard := [⟨.others, ⟨0⟩⟩, ⟨.dpc, .unpinned⟩, ⟨.others, ⟨0⟩⟩]
    let pinned : Profile := { apn := "web", subscription := ⟨0⟩ }
    let t := Table.ofProfiles
      [pinned, { apn := "web" }, { apn := "web", owner := .dpc }, { pinned with name := "Twin" }]
    (∃ g l', ({} : ShardLocks).lock shards = some (g, l') ∧ (inShards g.shards).holds pinned = true ∧
      ¬(inShards g.shards).holds { apn := "web" } = true) ∧
      (∀ p, (inShards []).holds p = false) ∧
      (t.scan (inShards shards) .idDescending).map (·.id) = [some ⟨4⟩, some ⟨3⟩, some ⟨1⟩] ∧
      resolve pinned (t.scan (inShards shards) .idDescending) = .error (ambiguous 2 pinned) := by
  intro shards pinned t
  obtain ⟨-, hnone, hguard, -, hread⟩ := inShards_exact shards
  obtain ⟨read, stored, hr, hs, hcomplete⟩ := hread (.initial {} t) .idDescending
  cases hr
  cases hs
  have hmem : pinned.shard ∈ shards := List.mem_cons_self
  have hlock : ({} : ShardLocks).lock shards = some (⟨[⟨.others, ⟨0⟩⟩, ⟨.dpc, .unpinned⟩]⟩,
      { shared := [.dpc, .others], held := [⟨.dpc, .unpinned⟩, ⟨.others, ⟨0⟩⟩] }) := by decide
  refine ⟨⟨_, _, hlock, (hguard _ _ _ hlock pinned).mpr hmem, fun h => ?_⟩, hnone, by decide,
    (hcomplete.resolve pinned hmem).trans (by decide)⟩
  exact absurd ((hguard _ _ _ hlock _).mp h) (by decide)

end ApnRegistry.Registry
