import ApnRegistry.ShardLocks
import ApnRegistry.Proofs.Ascending
import Mathlib.Data.List.Perm.Basic

/-!
# Who excludes whom

A request for shards that would have to wait may have taken some partitions and some shards by then,
and gives them back (`ShardLocks.attempt`). `Holders` are the locks together with the guards that are
live, and an `Event` is a request or the end of a guard, in any order.

What is locked is always what the live guards hold (`Holders.Kept`), so that the answer to a request can
be told from the guards alone.

Results:
* `ShardLocks.lock_eq_some`, `ShardLocks.lockPartition_eq_some`: when a request is granted, and what is
  locked then.
* `ShardLocks.attempt_eq`: a request that is not granted leaves the locks as they were.
* `Holders.lifetimes_step`: which guards an event leaves alive.
* `Holders.Kept.step`, `Holders.kept_after`: the invariant, event by event and for every history.
* `Holders.granted_iff_free`: who excludes whom after every history.
-/

namespace ApnRegistry

namespace ShardGuard

variable {g : ShardGuard} {s : Shard} {o : Owner}

theorem mem_owners : o ∈ g.owners ↔ ∃ s ∈ g.shards, s.owner = o := by
  rw [owners, Ascending.mem_ofList, List.mem_map]

/-- A guard for some shards holds those, whatever their order and however often they are named. -/
theorem covers_ofList (shards : List Shard) :
    (⟨Ascending.ofList shards⟩ : ShardGuard).covers s = true ↔ s ∈ shards := by
  rw [covers, (Ascending.sorted_ofList shards).search_iff, Ascending.mem_ofList]

end ShardGuard

namespace ShardLocks

variable {l l' : ShardLocks} {shards : List Shard} {g : ShardGuard} {o : Owner}

/-! ## Lists -/

/-- Taking out what stands in front leaves the rest. -/
theorem foldl_erase_append {α : Type} [BEq α] [LawfulBEq α] : ∀ xs ys : List α,
    xs.foldl List.erase (xs ++ ys) = ys
  | [], _ => rfl
  | x :: xs, ys => by
    rw [List.cons_append, List.foldl_cons, List.erase_cons_head]
    exact foldl_erase_append xs ys

/-! ## Granted requests -/

theorem foldlM_share {owners : List Owner} : owners.foldlM share l = some l' ↔
    (∀ o ∈ owners, o ∉ l.exclusive) ∧ l' = { l with shared := owners.reverse ++ l.shared } := by
  induction owners generalizing l with
  | nil => simp [eq_comm]
  | cons o owners ih =>
    rw [List.foldlM_cons, share]
    by_cases h : o ∈ l.exclusive
    · simp [h]
    · simp [h, ih]

theorem foldlM_hold {shards : List Shard} (hn : shards.Nodup) : shards.foldlM hold l = some l' ↔
    (∀ s ∈ shards, s ∉ l.held) ∧ l' = { l with held := shards.reverse ++ l.held } := by
  induction shards generalizing l with
  | nil => simp [eq_comm]
  | cons s shards ih =>
    obtain ⟨hs, hn⟩ := List.nodup_cons.mp hn
    rw [List.foldlM_cons, hold]
    by_cases h : s ∈ l.held
    · simp [h]
    · have hne : ∀ s' ∈ shards, s' ≠ s := fun s' hs' heq => hs (heq ▸ hs')
      simp only [List.contains_eq_mem, h, decide_false, Bool.false_eq_true, if_false, Option.bind_eq_bind,
        Option.bind_some, ih hn, List.mem_cons, not_or, forall_eq_or_imp, not_false_eq_true, true_and,
        List.reverse_cons, List.append_assoc, List.singleton_append]
      exact and_congr_left fun _ => forall₂_congr fun s' hs' => and_iff_right (hne s' hs')

/-- **When shards are granted**: none of them is held, and none of their partitions as a whole. -/
theorem lock_eq_some : l.lock shards = some (g, l') ↔
    (∀ s ∈ shards, s.owner ∉ l.exclusive) ∧ (∀ s ∈ shards, s ∉ l.held) ∧
      g = ⟨Ascending.ofList shards⟩ ∧
      l' = { l with
        shared := g.owners.reverse ++ l.shared
        held := g.shards.reverse ++ l.held } := by
  rw [lock]
  simp only [Option.bind_eq_bind, Option.bind_eq_some_iff, foldlM_share,
    foldlM_hold (Ascending.nodup_ofList shards), pure, Option.some.injEq, Prod.mk.injEq]
  constructor
  · rintro ⟨_, ⟨hfree, rfl⟩, _, ⟨hheld, rfl⟩, rfl, rfl⟩
    refine ⟨fun s hs => hfree s.owner (ShardGuard.mem_owners.mpr ⟨s, ?_, rfl⟩), fun s hs => hheld s ?_,
      rfl, rfl⟩
    · exact Ascending.mem_ofList.mpr hs
    · exact Ascending.mem_ofList.mpr hs
  · rintro ⟨hfree, hheld, rfl, rfl⟩
    refine ⟨_, ⟨fun o ho => ?_, rfl⟩, _, ⟨fun s hs => hheld s (Ascending.mem_ofList.mp hs), rfl⟩, rfl, rfl⟩
    obtain ⟨s, hs, rfl⟩ := ShardGuard.mem_owners.mp ho
    exact hfree s (Ascending.mem_ofList.mp hs)

theorem isSome_lock : (l.lock shards).isSome = true ↔
    (∀ s ∈ shards, s.owner ∉ l.exclusive) ∧ ∀ s ∈ shards, s ∉ l.held := by
  rw [Option.isSome_iff_exists]
  constructor
  · rintro ⟨⟨g, l'⟩, h⟩
    obtain ⟨hfree, hheld, -⟩ := lock_eq_some.mp h
    exact ⟨hfree, hheld⟩
  · rintro ⟨hfree, hheld⟩
    exact ⟨(_, _), lock_eq_some.mpr ⟨hfree, hheld, rfl, rfl⟩⟩

/-- **When a partition is granted**: nobody holds it, neither as a whole nor some shards of it. -/
theorem lockPartition_eq_some : l.lockPartition o = some l' ↔
    o ∉ l.exclusive ∧ o ∉ l.shared ∧ l' = { l with exclusive := o :: l.exclusive } := by
  rw [lockPartition]
  by_cases he : o ∈ l.exclusive
  · simp [he]
  · by_cases hs : o ∈ l.shared
    · simp [hs]
    · simp [he, hs, eq_comm]

/-! ## Requests that would have to wait -/

/-- Takes things one after the other until one is not free: the locks then, what was taken, and whether
that is all. -/
def takeFree {α : Type} (take : ShardLocks → α → Option ShardLocks) :
    ShardLocks → List α → ShardLocks × List α × Bool
  | l, [] => (l, [], true)
  | l, x :: xs =>
    match take l x with
    | none => (l, [], false)
    | some l =>
      let (l, taken, all) := takeFree take l xs
      (l, x :: taken, all)

/-- Gives back partitions that were taken in shared mode, and shards. -/
def giveBack (l : ShardLocks) (owners : List Owner) (shards : List Shard) : ShardLocks :=
  { l with
    shared := owners.foldl List.erase l.shared
    held := l.held.filter (!shards.contains ·) }

/-- A request for shards, step by step. It takes its partitions and then its shards, and as soon as it
would have to wait it gives back what it has taken, the latest partition first. -/
def attempt (l : ShardLocks) (shards : List Shard) : Option ShardGuard × ShardLocks :=
  let guard : ShardGuard := ⟨Ascending.ofList shards⟩
  match takeFree share l guard.owners with
  | (l, owners, false) => (none, l.giveBack owners.reverse [])
  | (l, owners, true) =>
    match takeFree hold l guard.shards with
    | (l, taken, false) => (none, l.giveBack owners.reverse taken)
    | (l, _, true) => (some guard, l)

/-- All is taken, or something in the list is not free and what stands before it is taken. -/
theorem takeFree_cases {α : Type} (take : ShardLocks → α → Option ShardLocks) :
    ∀ (xs : List α) (l : ShardLocks),
      (∃ l', xs.foldlM take l = some l' ∧ takeFree take l xs = (l', xs, true)) ∨
        xs.foldlM take l = none ∧ ∃ l' taken, takeFree take l xs = (l', taken, false) ∧
          taken.foldlM take l = some l' ∧ taken.Sublist xs
  | [], l => Or.inl ⟨l, rfl, rfl⟩
  | x :: xs, l => by
    rw [List.foldlM_cons, takeFree]
    cases hx : take l x with
    | none => exact Or.inr ⟨rfl, l, [], rfl, rfl, List.nil_sublist _⟩
    | some l₁ =>
      rcases takeFree_cases take xs l₁ with ⟨l', hall, htake⟩ | ⟨hnone, l', taken, htake, htaken, hsub⟩
      · exact Or.inl ⟨l', hall, by simp only [htake]⟩
      · refine Or.inr ⟨hnone, l', x :: taken, by simp only [htake], ?_, hsub.cons_cons x⟩
        rw [List.foldlM_cons, hx]
        exact htaken

/-- What was taken is given back. -/
theorem giveBack_taken (owners : List Owner) (hheld : ∀ s ∈ shards, s ∉ l.held) :
    giveBack { l with shared := owners.reverse ++ l.shared, held := shards.reverse ++ l.held }
      owners.reverse shards = l := by
  have hfilter : (shards.reverse ++ l.held).filter (!shards.contains ·) = l.held := by
    rw [List.filter_append, List.filter_eq_nil_iff.mpr, List.nil_append, List.filter_eq_self.mpr]
    · intro s hs
      simpa using fun hm => hheld s hm hs
    · intro s hs
      simpa using hs
  rw [giveBack, hfilter, foldl_erase_append]

/-- **A request that is not granted leaves the locks as they were**, and any other one is granted. -/
theorem attempt_eq (l : ShardLocks) (shards : List Shard) : l.attempt shards =
    match l.lock shards with
    | some (g, l') => (some g, l')
    | none => (none, l) := by
  have hn := Ascending.nodup_ofList shards
  rw [attempt, lock]
  rcases takeFree_cases share (ShardGuard.owners ⟨Ascending.ofList shards⟩) l with
    ⟨l₁, hall, htake⟩ | ⟨hnone, l₁, owners, htake, htaken, -⟩
  · obtain ⟨-, hl₁⟩ := foldlM_share.mp hall
    simp only [htake, hall, Option.bind_eq_bind, Option.bind_some]
    rcases takeFree_cases hold (Ascending.ofList shards) l₁ with
      ⟨l₂, hall₂, htake₂⟩ | ⟨hnone₂, l₂, taken, htake₂, htaken₂, hsub⟩
    · simp only [htake₂, hall₂, Option.bind_some, pure]
    · obtain ⟨hheld, rfl⟩ := (foldlM_hold (hn.sublist hsub)).mp htaken₂
      subst hl₁
      simp only [htake₂, hnone₂, Option.bind_none]
      exact congrArg (Prod.mk none) (giveBack_taken _ hheld)
  · obtain ⟨-, rfl⟩ := foldlM_share.mp htaken
    simp only [htake, hnone, Option.bind_eq_bind, Option.bind_none]
    exact congrArg (Prod.mk none) (giveBack_taken owners nofun)

end ShardLocks

/-! ## Histories -/

/-- The locks, and who holds them: the live guards, and the partitions that are held as a whole. -/
structure Holders where
  locks : ShardLocks := {}
  guards : List ShardGuard := []
  partitions : List Owner := []

/-- A request, or the end of the guard at a place among the live ones. -/
inductive Event where
  | lock (shards : List Shard)
  | lockPartition (o : Owner)
  | drop (place : Nat)
  | dropPartition (place : Nat)

namespace Holders

/-- What an event leads to. A request that would have to wait is abandoned. -/
def step (w : Holders) : Event → Holders
  | .lock shards =>
    let (guard, locks) := w.locks.attempt shards
    { w with locks, guards := w.guards ++ guard.toList }
  | .lockPartition o =>
    match w.locks.lockPartition o with
    | none => w
    | some locks => { w with locks, partitions := w.partitions ++ [o] }
  | .drop place =>
    match w.guards[place]? with
    | none => w
    | some g => { w with locks := w.locks.release g, guards := w.guards.eraseIdx place }
  | .dropPartition place =>
    match w.partitions[place]? with
    | none => w
    | some o =>
      { w with locks := w.locks.releasePartition o, partitions := w.partitions.eraseIdx place }

/-- Where a history leads that starts with nothing locked. -/
def after (history : List Event) : Holders := history.foldl step {}

theorem after_snoc (history : List Event) (e : Event) :
    after (history ++ [e]) = (after history).step e := by
  rw [after, List.foldl_append]
  rfl

/-! ### Who is live -/

section Live

variable {w : Holders} {l : ShardLocks} {g : ShardGuard} {o : Owner} {shards : List Shard} {place : Nat}

theorem step_lock_of_some (h : w.locks.lock shards = some (g, l)) :
    w.step (.lock shards) = { w with locks := l, guards := w.guards ++ [g] } := by
  simp only [step, ShardLocks.attempt_eq, h, Option.toList_some]

theorem step_lock_of_none (h : w.locks.lock shards = none) : w.step (.lock shards) = w := by
  simp only [step, ShardLocks.attempt_eq, h, Option.toList_none, List.append_nil]

theorem step_lockPartition_of_some (h : w.locks.lockPartition o = some l) :
    w.step (.lockPartition o) = { w with locks := l, partitions := w.partitions ++ [o] } := by
  simp only [step, h]

theorem step_lockPartition_of_none (h : w.locks.lockPartition o = none) :
    w.step (.lockPartition o) = w := by
  simp only [step, h]

theorem step_drop_of_some (h : w.guards[place]? = some g) : w.step (.drop place) =
    { w with locks := w.locks.release g, guards := w.guards.eraseIdx place } := by
  simp only [step, h]

theorem step_drop_of_none (h : w.guards[place]? = none) : w.step (.drop place) = w := by
  simp only [step, h]

theorem step_dropPartition_of_some (h : w.partitions[place]? = some o) : w.step (.dropPartition place) =
    { w with locks := w.locks.releasePartition o, partitions := w.partitions.eraseIdx place } := by
  simp only [step, h]

theorem step_dropPartition_of_none (h : w.partitions[place]? = none) :
    w.step (.dropPartition place) = w := by
  simp only [step, h]

/-- The live guards and the partitions that are held as a whole are these. -/
def Live (w : Holders) (guards : List ShardGuard) (partitions : List Owner) : Prop :=
  w.guards = guards ∧ w.partitions = partitions

/-- **How long a hold lasts**, `next` being what each event leads to from `w`. -/
structure Lifetimes (w : Holders) (next : Event → Holders) : Prop where
  /-- A request that is granted adds its guard to the live ones. -/
  granted : ∀ shards g l, w.locks.lock shards = some (g, l) →
    (next (.lock shards)).Live (w.guards ++ [g]) w.partitions
  /-- One that is abandoned adds none, and leaves everything as it was. -/
  abandoned : ∀ shards, w.locks.lock shards = none → next (.lock shards) = w
  /-- The guard that ends is live no more, and all others still are. -/
  ended : ∀ place g, w.guards[place]? = some g →
    (next (.drop place)).Live (w.guards.eraseIdx place) w.partitions
  /-- A guard that is not live cannot end. -/
  gone : ∀ place, w.guards[place]? = none → next (.drop place) = w
  partitionGranted : ∀ o l, w.locks.lockPartition o = some l →
    (next (.lockPartition o)).Live w.guards (w.partitions ++ [o])
  partitionAbandoned : ∀ o, w.locks.lockPartition o = none → next (.lockPartition o) = w
  partitionEnded : ∀ place o, w.partitions[place]? = some o →
    (next (.dropPartition place)).Live w.guards (w.partitions.eraseIdx place)
  partitionGone : ∀ place, w.partitions[place]? = none → next (.dropPartition place) = w

theorem lifetimes_step (w : Holders) : Lifetimes w w.step where
  granted _ _ _ h := by
    rw [step_lock_of_some h]
    exact ⟨rfl, rfl⟩
  abandoned _ := step_lock_of_none
  ended _ _ h := by
    rw [step_drop_of_some h]
    exact ⟨rfl, rfl⟩
  gone _ := step_drop_of_none
  partitionGranted _ _ h := by
    rw [step_lockPartition_of_some h]
    exact ⟨rfl, rfl⟩
  partitionAbandoned _ := step_lockPartition_of_none
  partitionEnded _ _ h := by
    rw [step_dropPartition_of_some h]
    exact ⟨rfl, rfl⟩
  partitionGone _ := step_dropPartition_of_none

end Live

/-- **What is locked is what is held.** Live guards share no shard, and none has a shard of a partition
that is held as a whole. -/
structure Kept (w : Holders) : Prop where
  shared : w.locks.shared.Perm (w.guards.flatMap ShardGuard.owners)
  exclusive : w.locks.exclusive.Perm w.partitions
  held : ∀ s, s ∈ w.locks.held ↔ ∃ g ∈ w.guards, s ∈ g.shards
  sorted : ∀ g ∈ w.guards, Ascending.Sorted g.shards
  disjoint : w.guards.Pairwise fun g g' => ∀ s ∈ g.shards, s ∉ g'.shards
  different : w.partitions.Nodup
  apart : ∀ g ∈ w.guards, ∀ s ∈ g.shards, s.owner ∉ w.partitions

namespace Kept

variable {w : Holders} {l : ShardLocks} {g : ShardGuard} {s : Shard} {o : Owner} {shards : List Shard}
  {before behind : List ShardGuard} {guards : List ShardGuard} {partitions : List Owner}

theorem start : Kept {} where
  shared := .refl []
  exclusive := .refl []
  held _ := ⟨nofun, nofun⟩
  sorted := nofun
  disjoint := .nil
  different := .nil
  apart := nofun

/-- A partition is held in shared mode while a guard has a shard of it. -/
theorem mem_shared (h : w.Kept) : o ∈ w.locks.shared ↔ ∃ g ∈ w.guards, ∃ s ∈ g.shards, s.owner = o := by
  rw [h.shared.mem_iff, List.mem_flatMap]
  simp only [ShardGuard.mem_owners]

theorem covers_iff (h : w.Kept) (hg : g ∈ w.guards) : g.covers s = true ↔ s ∈ g.shards :=
  (h.sorted g hg).search_iff

/-! ### Event by event -/

theorem lock (h : w.Kept) (hl : w.locks.lock shards = some (g, l)) :
    Kept { w with locks := l, guards := w.guards ++ [g] } := by
  obtain ⟨hfree, hheld, rfl, rfl⟩ := ShardLocks.lock_eq_some.mp hl
  constructor
  · rw [List.flatMap_append, List.flatMap_singleton]
    exact ((List.reverse_perm _).append h.shared).trans List.perm_append_comm
  · exact h.exclusive
  · intro s
    simp only [List.mem_append, List.mem_reverse, h.held, List.mem_singleton]
    constructor
    · rintro (hs | ⟨g, hg, hs⟩)
      · exact ⟨_, Or.inr rfl, hs⟩
      · exact ⟨g, Or.inl hg, hs⟩
    · rintro ⟨g, hg | rfl, hs⟩
      · exact Or.inr ⟨g, hg, hs⟩
      · exact Or.inl hs
  · intro g hg
    rcases List.mem_append.mp hg with hg | hg
    · exact h.sorted g hg
    · rw [List.mem_singleton.mp hg]
      exact Ascending.sorted_ofList shards
  · refine List.pairwise_append.mpr ⟨h.disjoint, List.pairwise_singleton _ _, ?_⟩
    intro g hg g' hg' s hs hs'
    rw [List.mem_singleton.mp hg'] at hs'
    exact hheld s (Ascending.mem_ofList.mp hs') ((h.held s).mpr ⟨g, hg, hs⟩)
  · exact h.different
  · intro g hg s hs
    rcases List.mem_append.mp hg with hg | hg
    · exact h.apart g hg s hs
    · rw [List.mem_singleton.mp hg] at hs
      exact fun ho => hfree s (Ascending.mem_ofList.mp hs) (h.exclusive.mem_iff.mpr ho)

theorem lockPartition (h : w.Kept) (hl : w.locks.lockPartition o = some l) :
    Kept { w with locks := l, partitions := w.partitions ++ [o] } := by
  obtain ⟨hfree, hshared, rfl⟩ := ShardLocks.lockPartition_eq_some.mp hl
  have hnew : o ∉ w.partitions := fun ho => hfree (h.exclusive.mem_iff.mpr ho)
  constructor
  · exact h.shared
  · exact (h.exclusive.cons o).trans (List.perm_append_singleton o _).symm
  · exact h.held
  · exact h.sorted
  · exact h.disjoint
  · exact List.nodup_append.mpr ⟨h.different, List.pairwise_singleton _ _, fun x hx y hy heq =>
      hnew (List.mem_singleton.mp hy ▸ heq ▸ hx)⟩
  · intro g hg s hs ho
    rcases List.mem_append.mp ho with ho | ho
    · exact h.apart g hg s hs ho
    · exact hshared (h.mem_shared.mpr ⟨g, hg, s, hs, List.mem_singleton.mp ho⟩)

/-- It does not matter in which order the guards are listed. -/
theorem perm {guards' : List ShardGuard} {partitions' : List Owner} (h : Kept ⟨l, guards, partitions⟩)
    (hg : guards.Perm guards') (hp : partitions.Perm partitions') : Kept ⟨l, guards', partitions'⟩ where
  shared := h.shared.trans (hg.flatMap_right _)
  exclusive := h.exclusive.trans hp
  held s := (h.held s).trans (exists_congr fun _ => and_congr_left' hg.mem_iff)
  sorted g hm := h.sorted g (hg.mem_iff.mpr hm)
  disjoint := (hg.pairwise_iff fun hd s hs hs' => hd s hs' hs).mp h.disjoint
  different := hp.nodup_iff.mp h.different
  apart g hm s hs ho := h.apart g (hg.mem_iff.mpr hm) s hs (hp.mem_iff.mpr ho)

theorem release (h : Kept ⟨l, g :: guards, partitions⟩) :
    Kept ⟨l.release g, guards, partitions⟩ := by
  obtain ⟨hg, hrest⟩ := List.pairwise_cons.mp h.disjoint
  constructor
  · show (g.owners.foldl List.erase l.shared).Perm _
    rw [← List.diff_eq_foldl]
    refine (h.shared.diff_right g.owners).trans ?_
    rw [List.flatMap_cons, List.diff_eq_foldl, ShardLocks.foldl_erase_append]
  · exact h.exclusive
  · intro s
    show s ∈ l.held.filter (!g.shards.contains ·) ↔ _
    rw [List.mem_filter, h.held, Bool.not_eq_true', List.contains_eq_mem, decide_eq_false_iff_not]
    constructor
    · rintro ⟨⟨g', hg', hs⟩, hnot⟩
      rcases List.mem_cons.mp hg' with rfl | hg'
      · exact absurd hs hnot
      · exact ⟨g', hg', hs⟩
    · rintro ⟨g', hg', hs⟩
      exact ⟨⟨g', List.mem_cons_of_mem g hg', hs⟩, fun hs' => hg g' hg' s hs' hs⟩
  · exact fun g' hg' => h.sorted g' (List.mem_cons_of_mem g hg')
  · exact hrest
  · exact h.different
  · exact fun g' hg' => h.apart g' (List.mem_cons_of_mem g hg')

theorem releasePartition (h : Kept ⟨l, guards, o :: partitions⟩) :
    Kept ⟨l.releasePartition o, guards, partitions⟩ where
  shared := h.shared
  exclusive := by
    have := h.exclusive.erase o
    rwa [List.erase_cons_head] at this
  held := h.held
  sorted := h.sorted
  disjoint := h.disjoint
  different := (List.nodup_cons.mp h.different).2
  apart g hg s hs ho := h.apart g hg s hs (List.mem_cons_of_mem o ho)

/-- **Every event keeps it so**: what is locked is what is held. -/
theorem step (h : w.Kept) (e : Event) : (w.step e).Kept := by
  cases e with
  | lock shards =>
    cases hl : w.locks.lock shards with
    | none => rwa [step_lock_of_none hl]
    | some r =>
      rw [step_lock_of_some hl]
      exact h.lock hl
  | lockPartition o =>
    cases hl : w.locks.lockPartition o with
    | none => rwa [step_lockPartition_of_none hl]
    | some l =>
      rw [step_lockPartition_of_some hl]
      exact h.lockPartition hl
  | drop place =>
    cases hg : w.guards[place]? with
    | none => rwa [step_drop_of_none hg]
    | some g =>
      rw [step_drop_of_some hg]
      obtain ⟨hplace, rfl⟩ := List.getElem?_eq_some_iff.mp hg
      exact (h.perm (List.getElem_cons_eraseIdx_perm hplace).symm (.refl _)).release
  | dropPartition place =>
    cases hp : w.partitions[place]? with
    | none => rwa [step_dropPartition_of_none hp]
    | some o =>
      rw [step_dropPartition_of_some hp]
      obtain ⟨hplace, rfl⟩ := List.getElem?_eq_some_iff.mp hp
      exact (h.perm (.refl _) (List.getElem_cons_eraseIdx_perm hplace).symm).releasePartition

/-! ### Answers -/

/-- Shards are granted if no guard has one of them, and their partitions are not held as a whole. -/
theorem isSome_lock (h : w.Kept) : (w.locks.lock shards).isSome = true ↔
    (∀ g ∈ w.guards, ∀ s ∈ shards, ¬g.covers s = true) ∧ ∀ s ∈ shards, s.owner ∉ w.partitions := by
  rw [ShardLocks.isSome_lock, and_comm]
  refine and_congr ⟨fun hs g hg s hm hc => ?_, fun hs s hm hheld => ?_⟩
    (forall₂_congr fun s _ => not_congr h.exclusive.mem_iff)
  · exact hs s hm ((h.held s).mpr ⟨g, hg, (h.covers_iff hg).mp hc⟩)
  · obtain ⟨g, hg, hshard⟩ := (h.held s).mp hheld
    exact hs g hg s hm ((h.covers_iff hg).mpr hshard)

/-- A partition is granted if nobody holds it, neither as a whole nor a shard of it. -/
theorem isSome_lockPartition (h : w.Kept) : (w.locks.lockPartition o).isSome = true ↔
    o ∉ w.partitions ∧ ∀ g ∈ w.guards, ∀ s, g.covers s = true → s.owner ≠ o := by
  rw [Option.isSome_iff_exists]
  simp only [ShardLocks.lockPartition_eq_some, exists_and_left, exists_eq, and_true]
  refine and_congr (not_congr h.exclusive.mem_iff) ?_
  rw [h.mem_shared]
  constructor
  · exact fun hnone g hg s hc ho => hnone ⟨g, hg, s, (h.covers_iff hg).mp hc, ho⟩
  · rintro hall ⟨g, hg, s, hs, ho⟩
    exact hall g hg s ((h.covers_iff hg).mpr hs) ho

/-- A granted guard holds the shards that were asked for. -/
theorem covers_of_lock (hl : w.locks.lock shards = some (g, l)) : g.covers s = true ↔ s ∈ shards := by
  obtain ⟨-, -, rfl, -⟩ := ShardLocks.lock_eq_some.mp hl
  exact ShardGuard.covers_ofList shards

/-- A request, granted or not, does not keep one for other shards waiting. -/
theorem isSome_lock_step {shards' : List Shard} (h : w.Kept) (hd : ∀ s ∈ shards, s ∉ shards') :
    ((w.step (.lock shards)).locks.lock shards').isSome = true ↔
      (w.locks.lock shards').isSome = true := by
  cases hl : w.locks.lock shards with
  | none => rw [step_lock_of_none hl]
  | some r =>
    obtain ⟨g, l⟩ := r
    rw [(h.step (.lock shards)).isSome_lock, h.isSome_lock, step_lock_of_some hl]
    refine and_congr_left fun _ => ⟨fun hs g' hg' => hs g' (List.mem_append_left _ hg'), ?_⟩
    intro hs g' hg' s hm hc
    rcases List.mem_append.mp hg' with hg' | hg'
    · exact hs g' hg' s hm hc
    · rw [List.mem_singleton.mp hg'] at hc
      exact hd s ((covers_of_lock hl).mp hc) hm

end Kept

/-- **After every history, what is locked is what is held.** -/
theorem kept_after (history : List Event) : (after history).Kept := by
  suffices ∀ w : Holders, w.Kept → (history.foldl step w).Kept from this {} .start
  induction history with
  | nil => exact fun _ h => h
  | cons e history ih => exact fun _ h => ih _ (h.step e)

/-- **Who excludes whom.** After every history of requests and ends of guards, in which requests that
would have to wait are abandoned:
* Shards are granted iff no live guard has one of them, and none of their partitions is held as a whole.
  The guard has exactly these shards, whatever their order and however often they were named.
* Taking the locks one by one comes to the same: it gets all of them, or gives back what it took.
* A partition is granted iff it is not held as a whole and no live guard has a shard of it.
* No shard has two live guards, none is in a partition that is held as a whole, and no partition is
  held twice.
* A request does not keep one for other shards waiting.
* Nothing is live at the start. A request that is granted adds its guard to the live ones, one that is
  abandoned adds none, and the end of a guard takes just that one out. -/
theorem granted_iff_free (history : List Event) :
    let w := after history
    (∀ shards, (w.locks.lock shards).isSome = true ↔
      (∀ g ∈ w.guards, ∀ s ∈ shards, ¬g.covers s = true) ∧ ∀ s ∈ shards, s.owner ∉ w.partitions) ∧
    (∀ shards g l, w.locks.lock shards = some (g, l) → ∀ s, g.covers s = true ↔ s ∈ shards) ∧
    (∀ shards, w.locks.attempt shards =
      match w.locks.lock shards with
      | some (g, l) => (some g, l)
      | none => (none, w.locks)) ∧
    (∀ o, (w.locks.lockPartition o).isSome = true ↔
      o ∉ w.partitions ∧ ∀ g ∈ w.guards, ∀ s, g.covers s = true → s.owner ≠ o) ∧
    (w.guards.Pairwise fun g g' => ∀ s, ¬(g.covers s = true ∧ g'.covers s = true)) ∧
    (∀ g ∈ w.guards, ∀ s, g.covers s = true → s.owner ∉ w.partitions) ∧
    w.partitions.Nodup ∧
    (∀ shards shards', (∀ s ∈ shards, s ∉ shards') →
      ((w.step (.lock shards)).locks.lock shards').isSome = (w.locks.lock shards').isSome) ∧
    (after []).Live [] [] ∧
    Lifetimes w fun e => after (history ++ [e]) := by
  intro w
  have h : w.Kept := kept_after history
  have hnext : (fun e => after (history ++ [e])) = w.step := funext (after_snoc history)
  refine ⟨fun _ => h.isSome_lock, fun _ _ _ hl _ => Kept.covers_of_lock hl,
    ShardLocks.attempt_eq w.locks, fun _ => h.isSome_lockPartition, ?_, fun g hg s hc => ?_,
    h.different, fun _ _ hd => Bool.eq_iff_iff.mpr (h.isSome_lock_step hd), ⟨rfl, rfl⟩,
    hnext ▸ w.lifetimes_step⟩
  · refine h.disjoint.imp_of_mem fun hg hg' hd s hc => ?_
    exact hd s ((h.covers_iff hg).mp hc.1) ((h.covers_iff hg').mp hc.2)
  · exact h.apart g hg s ((h.covers_iff hg).mp hc)

/-- The second request names a shard of the first, and the third one a partition of it. Both have to
wait, and once the guard is gone neither would. -/
example :
    let s : Shard := ⟨.others, ⟨0⟩⟩
    let other : Shard := ⟨.others, ⟨1⟩⟩
    let w := after [.lock [other, s, other], .lock [s], .lockPartition .others]
    w.guards = [⟨[s, other]⟩] ∧ w.locks.lock [s] = none ∧
      (w.step (.drop 0)).locks.lockPartition .others = some { exclusive := [.others] } := by
  decide

end Holders

end ApnRegistry
