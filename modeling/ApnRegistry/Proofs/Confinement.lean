import ApnRegistry.Proofs.Deletion
import ApnRegistry.Proofs.Insertion
import ApnRegistry.Proofs.Modernize
import ApnRegistry.Proofs.Preferred
import ApnRegistry.Proofs.Restore
import ApnRegistry.Proofs.Revision
import ApnRegistry.Proofs.ShardLocks
import ApnRegistry.Registry.Request

/-!
# What a request moves

A call is *confined* to some shards if it changes the table by moves of rows of these shards, also
when it fails. A request is confined to what it holds while it writes (`Request.holds`): the shards of
the profiles that it inserts or of the rows that it selects, and for a restore the shards of its extent.
A row that is put into modern form holds its own shard, one row after the other.

More roughly, `Request.reaches` names the shards of the partition that the caller gets, ordinary ones
for a restore, and any for `migrateAll`, which is asked for once for the whole table.

Results:
* `Action.Confined.bind`: calls one after the other.
* `Request.moves_held`, `Request.moves`: every request, by any caller, is confined to what it holds, and
  so to the shards that it reaches.
* `Request.writes_held`: no row changes in a shard that is not held.
* `valid_run`, `keysUnique_run_take`: tables stay valid, and keys distinct, along every run.
-/

namespace ApnRegistry.Registry

open Table

variable {setup : Setup} {s s' : State Table} {S : Shard → Prop} {α β : Type} {caller : Caller}
  {target : Target} {q : Predicate} {ps : List Profile}

/-! ## Confined calls -/

/-- Carried out in the state, the call changes the table by moves of rows of shards in `S`. -/
def Action.Confined (S : Shard → Prop) (a : Action Table α) (s : State Table) : Prop :=
  Moves S s.store (a.perform s).2.store

namespace Action

theorem Confined.of_eq {a : Action Table α} (h : (a.perform s).2.store = s.store) :
    a.Confined S s := by
  rw [Confined, h]
  exact Moves.refl _

theorem Confined.mono {a : Action Table α} {S' : Shard → Prop} (h : a.Confined S s)
    (hS : ∀ shard, S shard → S' shard) : a.Confined S' s :=
  Moves.mono h hS

theorem Confined.bind {a : Action Table α} {f : α → Action Table β} (h : a.Confined S s)
    (hf : ∀ x s', a.perform s = (.ok x, s') → (f x).Confined S s') : (a >>= f).Confined S s := by
  rw [Confined, perform_bind]
  unfold Confined at h
  rcases ha : a.perform s with ⟨_ | x, s'⟩
  · rw [ha] at h
    exact h
  · rw [ha] at h
    exact h.trans (hf x s' ha)

theorem Confined.map {a : Action Table α} (f : α → β) (h : a.Confined S s) :
    (f <$> a).Confined S s := by
  rw [Confined, perform_map]
  exact h

theorem confined_edits {f : Table → Except Error (α × Table)}
    (h : ∀ a t, f s.store = .ok (a, t) → Moves S s.store t) : (edits f).Confined S s := by
  cases hf : f s.store with
  | error e =>
    rw [Confined, perform_edits_of_error hf]
    exact Moves.refl _
  | ok r =>
    rw [Confined, perform_edits_of_ok hf]
    exact h _ _ hf

theorem confined_congr {a b : Action Table α} (h : a.perform s = b.perform s)
    (hb : b.Confined S s) : a.Confined S s := by
  rw [Confined, h]
  exact hb

theorem confined_rows {order : Order} : (rows q order : Action Table _).Confined S s := .of_eq rfl

theorem confined_fetch {id : RowId} : (fetch id : Action Table _).Confined S s := .of_eq rfl

theorem confined_publish {n : Notice} : (publish n).Confined S s := .of_eq rfl

theorem confined_pure {a : α} : (pure a : Action Table α).Confined S s := .of_eq rfl

/-- A call may end with a notice. -/
theorem confined_publish_if {n : Notice} {a : α} {c : Prop} [Decidable c] :
    (if c then publish n >>= fun _ => pure a else pure a : Action Table α).Confined S s := by
  split
  · exact confined_publish.bind fun _ _ _ => confined_pure
  · exact confined_pure

theorem confined_announcing {a : Action Table Nat} {subscription : Option Subscription}
    (h : a.Confined S s) : (announcing subscription a).Confined S s :=
  h.bind fun _ _ _ => confined_publish_if

end Action

open Registry.Action

/-! ## What calls hold -/

/-- What a call holds while it writes. -/
inductive Hold where
  /-- A guard for the shards. -/
  | guard (shards : List Shard)
  /-- A whole partition. -/
  | partition (o : Owner)

/-- The shard is in what is held. -/
def Hold.Has : Hold → Shard → Prop
  | .guard shards, shard => (⟨Ascending.ofList shards⟩ : ShardGuard).covers shard = true
  | .partition o, shard => shard.owner = o

/-- The shard is held at some time. -/
def Held (holds : List Hold) (shard : Shard) : Prop := ∃ h ∈ holds, h.Has shard

theorem held_guard {shards : List Shard} {shard : Shard} :
    Held [.guard shards] shard ↔ shard ∈ shards := by
  rw [Held, List.exists_mem_cons_iff, Hold.Has, ShardGuard.covers_ofList]
  exact or_iff_left fun ⟨_, h, _⟩ => nomatch h

theorem held_partition {o : Owner} {shard : Shard} : Held [.partition o] shard ↔ shard.owner = o := by
  rw [Held, List.exists_mem_cons_iff]
  exact or_iff_left fun ⟨_, h, _⟩ => nomatch h

theorem not_held_nil {shard : Shard} : ¬Held [] shard := fun ⟨_, h, _⟩ => nomatch h

/-- An insert holds the shards of its profiles in their final form. -/
def insertHolds (setup : Setup) (caller : Caller) (target : Target) (ps : List Profile)
    (s : State Table) : List Hold :=
  match partitionFor setup caller target .insert s.enforced, target with
  | .ok partition, .table _ subscription =>
    [.guard (ps.map fun p => (normalized setup partition subscription p).shard)]
  | _, _ => []

/-- An update and a deletion hold the shards of the rows that they select. -/
def matchingHolds (setup : Setup) (caller : Caller) (target : Target) (verb : Verb) (q : Predicate)
    (s : State Table) : List Hold :=
  match partitionFor setup caller target verb s.enforced with
  | .ok partition => [.guard ((s.store.matching (selected setup partition target q)).map Profile.shard)]
  | .error _ => []

/-- Each row that needs modern form holds its own shard while it is put into it. -/
def modernizeHolds (known : List String) (found : List Profile) : List Hold :=
  (found.filter fun row => (LegacyCodes.pending known row).isSome).map fun row => .guard [row.shard]

/-- A query holds what it takes to put the rows of its partition into modern form. -/
def queryHolds (setup : Setup) (caller : Caller) (target : Target) (order : Order) (s : State Table) :
    List Hold :=
  match partitionFor setup caller target .query s.enforced with
  | .ok partition =>
    if setup.config.lazyMccMncMigration then
      modernizeHolds setup.device.known (s.store.scan partition.predicate order)
    else []
  | .error _ => []

def migrateHolds (setup : Setup) (caller : Caller) (s : State Table) : List Hold :=
  match setup.policy.authorize caller .general .update s.enforced with
  | .ok _ => modernizeHolds setup.device.known (s.store.scan .always .idAscending)
  | .error _ => []

/-- A restore holds the shard of its subscription and the unpinned one, or on a device with one SIM the
ordinary partition. -/
def restoreHolds (setup : Setup) (caller : Caller) (sub : Subscription) (s : State Table) : List Hold :=
  match setup.policy.authorize caller .general .update s.enforced with
  | .ok _ =>
    if 1 < setup.device.slots then [.guard [⟨.others, sub⟩, ⟨.others, .unpinned⟩]]
    else [.partition .others]
  | .error _ => []

theorem held_modernizeHolds {known : List String} {found : List Profile} {shard : Shard} :
    Held (modernizeHolds known found) shard ↔
      ∃ row ∈ found, (LegacyCodes.pending known row).isSome = true ∧ shard = row.shard := by
  constructor
  · rintro ⟨h, hm, hhas⟩
    obtain ⟨row, hr, rfl⟩ := List.mem_map.mp hm
    obtain ⟨hrow, hp⟩ := List.mem_filter.mp hr
    exact ⟨row, hrow, hp, List.mem_singleton.mp ((ShardGuard.covers_ofList _).mp hhas)⟩
  · rintro ⟨row, hrow, hp, rfl⟩
    refine ⟨_, List.mem_map_of_mem (List.mem_filter.mpr ⟨hrow, hp⟩), ?_⟩
    exact (ShardGuard.covers_ofList _).mpr (List.mem_singleton_self _)

/-! ## The calls -/

theorem owner_normalized {partition : Partition} (h : partition.forcedOwner = some partition.owner)
    (subscription : Option Subscription) (p : Profile) :
    (normalized setup partition subscription p).owner = partition.owner := by
  rw [normalized, LegacyCodes.owner_modernized, h]
  rfl

theorem confined_insertProfiles (hv : s.store.Valid) :
    (insertProfiles setup caller target ps).Confined (Held (insertHolds setup caller target ps s)) s := by
  cases ha : partitionFor setup caller target .insert s.enforced with
  | error e => exact .of_eq (by rw [perform_insertProfiles_of_error ha])
  | ok partition =>
    cases target with
    | row scope id => exact .of_eq (by rw [perform_insertProfiles_row ha])
    | table scope subscription =>
      refine confined_congr (perform_insertProfiles hv ha) (confined_edits fun ids t ht => ?_)
      refine (moves_of_enterAll hv (fun q hq => ?_) ht).mono fun shard hs => ?_
      · obtain ⟨p, -, rfl⟩ := List.mem_map.mp hq
        exact id_normalized ..
      · obtain ⟨q, hq, rfl⟩ := hs
        obtain ⟨p, hp, rfl⟩ := List.mem_map.mp hq
        simp only [insertHolds, ha]
        exact held_guard.mpr (List.mem_map_of_mem hp)

theorem confined_insert {p : Profile} (hv : s.store.Valid) :
    (insert setup caller target p).Confined (Held (insertHolds setup caller target [p] s)) s :=
  (confined_insertProfiles hv).bind fun _ _ _ => confined_publish_if

theorem confined_bulkInsert (hv : s.store.Valid) :
    (bulkInsert setup caller target ps).Confined (Held (insertHolds setup caller target ps s)) s :=
  (confined_insertProfiles hv).bind fun _ _ _ => confined_publish_if

theorem confined_update {changes : Update} (hv : s.store.Valid) :
    (update setup caller target q changes).Confined
      (Held (matchingHolds setup caller target .update q s)) s := by
  cases ha : partitionFor setup caller target .update s.enforced with
  | error e => exact .of_eq (by rw [perform_update_of_error ha])
  | ok partition =>
    cases hc : changes.isEmpty with
    | true => exact .of_eq (by rw [perform_update_of_isEmpty ha hc])
    | false =>
      refine confined_congr (perform_update hv ha hc) (confined_announcing (confined_edits ?_))
      refine fun n t ht => moves_of_updateWhere hv (fun p hp => ?_) ht
      simp only [matchingHolds, ha]
      exact held_guard.mpr (List.mem_map_of_mem hp)

theorem confined_delete (hv : s.store.Valid) :
    (delete setup caller target q).Confined (Held (matchingHolds setup caller target .delete q s)) s := by
  cases ha : partitionFor setup caller target .delete s.enforced with
  | error e => exact .of_eq (by rw [perform_delete_of_error ha])
  | ok partition =>
    refine confined_congr (perform_delete hv ha) (confined_announcing (confined_edits ?_))
    refine fun n t ht => moves_of_deleteWhere hv (fun p hp => ?_) ht
    simp only [matchingHolds, ha]
    exact held_guard.mpr (List.mem_map_of_mem hp)

/-- **A row that is put into modern form moves rows of its own shard only.** -/
theorem confined_writeBack {known : List String} {old modern : Profile} (hv : s.store.Valid)
    (hp : LegacyCodes.pending known old = some modern) :
    (writeBack old modern).Confined (Held [.guard [old.shard]]) s := by
  refine confined_congr
    (perform_writeBack hv (LegacyCodes.id_of_pending hp) (LegacyCodes.shard_of_pending hp))
    (confined_edits fun done t ht => ?_)
  refine (moves_of_modernize hv (LegacyCodes.id_of_pending hp) (LegacyCodes.shard_of_pending hp)
    ht).mono fun shard hs => ?_
  exact held_guard.mpr (List.mem_singleton.mpr hs)

theorem confined_modernizeRows {known : List String} {found : List Profile} (hv : s.store.Valid) :
    (modernizeRows known found).Confined (Held (modernizeHolds known found)) s := by
  rw [Confined, perform_modernizeRows known found hv]
  exact moves_of_refreshAll hv fun row hr hp => held_modernizeHolds.mpr ⟨row, hr, hp, rfl⟩

theorem confined_query {order : Order} (hv : s.store.Valid) :
    (query setup caller target q order).Confined (Held (queryHolds setup caller target order s)) s := by
  refine Confined.bind (.of_eq (by rw [perform_authorizeRows_eq])) fun partition s' h => ?_
  rw [perform_authorizeRows_eq] at h
  obtain ⟨ha, rfl⟩ := Prod.mk.inj h
  refine Confined.bind ?_ fun _ _ _ => confined_pure
  refine confined_rows.bind fun found s'' h => ?_
  cases h
  show (if setup.config.lazyMccMncMigration then _ else _ : Action Table _).Confined _ s
  simp only [queryHolds, ha]
  split
  · refine (confined_modernizeRows hv).bind fun n s₁ _ => ?_
    show (if 0 < n then _ else _ : Action Table _).Confined _ s₁
    split
    · exact Confined.of_eq rfl
    · exact confined_pure
  · exact confined_pure

theorem confined_authorize {scope : Scope} {verb : Verb} :
    (authorize setup caller scope verb : Action Table _).Confined S s :=
  .of_eq (by rw [perform_authorize])

/-- After an authorization the state is what it was, and the caller has the partition. -/
theorem authorize_of_perform {scope : Scope} {verb : Verb} {partition : Partition}
    (h : (authorize setup caller scope verb).perform s = (.ok partition, s')) :
    setup.policy.authorize caller scope verb s.enforced = .ok partition ∧ s' = s := by
  rw [perform_authorize] at h
  exact ⟨(Prod.mk.inj h).1, (Prod.mk.inj h).2.symm⟩

theorem confined_migrateAll (hv : s.store.Valid) :
    (migrateAll setup caller).Confined (Held (migrateHolds setup caller s)) s := by
  refine confined_authorize.bind fun partition s' h => ?_
  obtain ⟨ha, rfl⟩ := authorize_of_perform h
  refine confined_rows.bind fun found s'' h => ?_
  cases h
  simp only [migrateHolds, ha]
  exact (confined_modernizeRows hv).bind fun _ _ _ => confined_publish_if

theorem confined_restoreToDefault {sub : Subscription} (hv : s.store.Valid) :
    (restoreToDefault setup caller sub).Confined (Held (restoreHolds setup caller sub s)) s := by
  refine confined_authorize.bind fun partition s' h => ?_
  obtain ⟨ha, rfl⟩ := authorize_of_perform h
  have hspans (shard : Shard) (hs : (extentOf setup.device sub).Spans shard) :
      Held (restoreHolds setup caller sub s') shard := by
    obtain ⟨owner, subscription⟩ := shard
    obtain ⟨rfl, hsub⟩ : owner = .others ∧ _ := hs
    simp only [restoreHolds, ha, extentOf] at hsub ⊢
    split at hsub
    · rename_i hslots
      rw [if_pos hslots, held_guard, List.mem_pair]
      exact (hsub sub rfl).imp (congrArg _) (congrArg _)
    · rename_i hslots
      rw [if_neg hslots]
      exact held_partition.mpr rfl
  have hrows (retries : Nat) : (restoreRows setup (extentOf setup.device sub) retries).Confined
      (Held (restoreHolds setup caller sub s')) s' :=
    confined_congr (perform_restoreRows setup _ retries hv) (confined_edits fun _ _ ht =>
      (moves_of_restored hv ht).mono hspans)
  refine (hrows _).bind fun report s'' _ => ?_
  exact Confined.of_eq rfl

theorem confined_preferred {sub : Subscription} : (preferred setup caller sub).Confined S s :=
  .of_eq (by rw [perform_preferred])

theorem confined_setPreferred {sub : Subscription} {id : RowId} :
    (setPreferred setup caller sub id).Confined S s := by
  refine confined_authorize.bind fun _ s' _ => confined_fetch.bind fun found s'' _ => ?_
  show (if !found.any Selection.isPreferable then _ else _ : Action Table _).Confined S s''
  split
  · exact Confined.of_eq rfl
  · exact Confined.of_eq rfl

theorem confined_clearPreferred {sub : Subscription} :
    (clearPreferred setup caller sub).Confined S s := by
  refine confined_authorize.bind fun _ s' _ => ?_
  refine Confined.bind (a := get) (Confined.of_eq rfl) fun st s'' _ => ?_
  exact Confined.bind (Confined.of_eq rfl) fun _ _ _ => confined_publish_if

theorem confined_setEnforced {value : Bool} : (setEnforced setup caller value).Confined S s := by
  refine confined_authorize.bind fun _ s' _ => ?_
  refine Confined.bind (a := get) (Confined.of_eq rfl) fun st s'' _ => ?_
  refine Confined.bind (Confined.of_eq rfl) fun _ s₃ _ => ?_
  show (if st.enforced ≠ value then _ else _ : Action Table _).Confined S s₃
  split
  · exact confined_publish
  · exact confined_pure

theorem confined_apnSet {sub : Subscription} (hv : s.store.Valid) :
    (apnSet setup caller sub).Confined
      (Held (queryHolds setup caller (.table .general (some sub)) .idAscending s)) s :=
  (confined_query hv).bind fun _ _ _ => confined_preferred.bind fun _ _ _ => confined_pure

theorem confined_simApnList {sub : Subscription} (hv : s.store.Valid) :
    (simApnList setup caller sub).Confined
      (Held (queryHolds setup caller (.table .general (some sub)) .idAscending s)) s := by
  rw [simApnList_eq]
  exact (confined_query hv).bind fun _ _ _ => Confined.of_eq rfl

/-! ## Requests -/

/-- What a request holds while it writes, one after the other. -/
def Request.holds (setup : Setup) (s : State Table) : Request → List Hold
  | .query caller target _ order => queryHolds setup caller target order s
  | .insert caller target p => insertHolds setup caller target [p] s
  | .bulkInsert caller target ps => insertHolds setup caller target ps s
  | .update caller target q _ => matchingHolds setup caller target .update q s
  | .delete caller target q => matchingHolds setup caller target .delete q s
  | .apnSet caller sub => queryHolds setup caller (.table .general (some sub)) .idAscending s
  | .simApnList caller sub => queryHolds setup caller (.table .general (some sub)) .idAscending s
  | .migrateAll caller => migrateHolds setup caller s
  | .restoreToDefault caller sub => restoreHolds setup caller sub s
  | .preferred .. | .setPreferred .. | .clearPreferred .. | .enforced .. | .setEnforced .. => []

/-- **Every request is confined to what it holds**, whether it succeeds or fails. -/
theorem Request.moves_held (r : Request) (setup : Setup) (hv : s.store.Valid) :
    Moves (Held (r.holds setup s)) s.store (r.after setup s).store := by
  show (r.action setup).Confined (Held (r.holds setup s)) s
  cases r with
  | query caller target q order => exact (confined_query hv).map _
  | insert caller target p => exact (confined_insert hv).map _
  | bulkInsert caller target ps => exact (confined_bulkInsert hv).map _
  | update caller target q changes => exact (confined_update hv).map _
  | delete caller target q => exact (confined_delete hv).map _
  | migrateAll caller => exact (confined_migrateAll hv).map _
  | preferred caller sub => exact confined_preferred.map _
  | setPreferred caller sub id => exact confined_setPreferred.map _
  | clearPreferred caller sub => exact confined_clearPreferred.map _
  | apnSet caller sub => exact (confined_apnSet hv).map _
  | simApnList caller sub => exact (confined_simApnList hv).map _
  | restoreToDefault caller sub => exact (confined_restoreToDefault hv).map _
  | enforced caller =>
    exact (confined_authorize.bind fun _ _ _ => Confined.of_eq rfl).map _
  | setEnforced caller value => exact confined_setEnforced.map _

/-- **Rows change only in shards that are held**: a row that a request changes or removes lies in a held
shard, and so does what it becomes, and a row that is new. This is so for every request, also for one that
fails, and for each single row that is put into modern form. -/
theorem Request.writes_held (r : Request) (setup : Setup) (s : State Table) (hv : s.store.Valid) :
    (∀ id p, s.store.get? id = some p → (r.after setup s).store.get? id ≠ some p →
      Held (r.holds setup s) p.shard) ∧
    (∀ id p, (r.after setup s).store.get? id = some p → s.store.get? id ≠ some p →
      Held (r.holds setup s) p.shard) ∧
    ∀ known old modern, LegacyCodes.pending known old = some modern →
      let t := ((writeBack old modern).perform s).2.store
      (∀ id p, s.store.get? id = some p → t.get? id ≠ some p → p.shard = old.shard) ∧
      ∀ id p, t.get? id = some p → s.store.get? id ≠ some p → p.shard = old.shard := by
  have hmoves := r.moves_held setup hv
  refine ⟨fun id p hp hne => hmoves.allowed hv fun h => hne (h.mp hp),
    fun id p hp hne => hmoves.allowed hv fun h => hne (h.mpr hp), fun known old modern hpending => ?_⟩
  have hback : Moves (Held [.guard [old.shard]]) s.store ((writeBack old modern).perform s).2.store :=
    confined_writeBack hv hpending
  have hshard {p : Profile} (h : Held [.guard [old.shard]] p.shard) : p.shard = old.shard :=
    List.mem_singleton.mp (held_guard.mp h)
  exact ⟨fun id p hp hne => hshard (hback.allowed hv fun h => hne (h.mp hp)),
    fun id p hp hne => hshard (hback.allowed hv fun h => hne (h.mpr hp))⟩

/-- The second row gets the key of the first one and is merged onto it, so that the first one changes
although it was not selected. Its shard is held, as it is that of the second. -/
theorem writes_held_merged :
    let s : State Table := .initial {} (.ofProfiles [
      { apn := "web", subscription := ⟨1⟩ }, { apn := "mms", subscription := ⟨1⟩ }])
    let r : Request := .update .system (.table .general none) (.equals .apn (.text "mms"))
      { apn := some "web" }
    (r.after {} s).store.get? ⟨2⟩ = none ∧
      ∃ p, s.store.get? ⟨1⟩ = some p ∧ (r.after {} s).store.get? ⟨1⟩ ≠ some p ∧
        Held (r.holds {} s) p.shard ∧ p.shard = ⟨.others, ⟨1⟩⟩ := by
  intro s r
  have hgone : (r.after {} s).store.get? ⟨2⟩ = none := by decide +kernel
  have hp : s.store.get? ⟨1⟩ = some { id := some ⟨1⟩, apn := "web", subscription := ⟨1⟩ } := by
    decide +kernel
  have hne : (r.after {} s).store.get? ⟨1⟩ ≠
      some { id := some ⟨1⟩, apn := "web", subscription := ⟨1⟩ } := by
    decide +kernel
  exact ⟨hgone, _, hp, hne, (r.writes_held {} s (.ofProfiles _)).1 _ _ hp hne, rfl⟩

/-- The shards of the partition that the caller gets. -/
def Granted (setup : Setup) (caller : Caller) (target : Target) (verb : Verb) (enforced : Bool)
    (shard : Shard) : Prop :=
  ∃ partition, partitionFor setup caller target verb enforced = .ok partition ∧
    shard.owner = partition.owner

/-- The shards that a request is confined to, the enforcement flag being as it is. -/
def Request.reaches (setup : Setup) (enforced : Bool) : Request → Shard → Prop
  | .query caller target _ _ => Granted setup caller target .query enforced
  | .insert caller target _ => Granted setup caller target .insert enforced
  | .bulkInsert caller target _ => Granted setup caller target .insert enforced
  | .update caller target _ _ => Granted setup caller target .update enforced
  | .delete caller target _ => Granted setup caller target .delete enforced
  | .apnSet caller s => Granted setup caller (.table .general (some s)) .query enforced
  | .simApnList caller s => Granted setup caller (.table .general (some s)) .query enforced
  | .migrateAll caller => fun _ => caller.canWrite = true
  | .restoreToDefault caller _ => fun shard => shard.owner = .others ∧ caller.canWrite = true
  | .preferred .. | .setPreferred .. | .clearPreferred .. | .enforced .. | .setEnforced .. =>
    fun _ => False

section Reaches

variable {shard : Shard}

theorem granted_of_insertHolds (h : Held (insertHolds setup caller target ps s) shard) :
    Granted setup caller target .insert s.enforced shard := by
  unfold insertHolds at h
  split at h
  · rename_i partition scope subscription ha
    obtain ⟨p, -, rfl⟩ := List.mem_map.mp (held_guard.mp h)
    exact ⟨partition, ha, owner_normalized (forcedOwner_of_partitionFor ha) subscription p⟩
  · exact absurd h not_held_nil

theorem granted_of_matchingHolds {verb : Verb} (h : Held (matchingHolds setup caller target verb q s) shard) :
    Granted setup caller target verb s.enforced shard := by
  unfold matchingHolds at h
  split at h
  · rename_i partition ha
    obtain ⟨p, hp, rfl⟩ := List.mem_map.mp (held_guard.mp h)
    exact ⟨partition, ha, (holds_selected.mp (mem_matching.mp hp).2.1).1⟩
  · exact absurd h not_held_nil

theorem granted_of_queryHolds {order : Order} (h : Held (queryHolds setup caller target order s) shard) :
    Granted setup caller target .query s.enforced shard := by
  unfold queryHolds at h
  split at h
  · rename_i partition ha
    split at h
    · obtain ⟨row, hr, -, rfl⟩ := held_modernizeHolds.mp h
      exact ⟨partition, ha, (Partition.holds_predicate _ _).mp (mem_scan.mp hr).2⟩
    · exact absurd h not_held_nil
  · exact absurd h not_held_nil

/-- What is held is reached. -/
theorem Request.reaches_of_held {r : Request} (h : Held (r.holds setup s) shard) :
    r.reaches setup s.enforced shard := by
  cases r with
  | query caller target q order => exact granted_of_queryHolds h
  | insert caller target p => exact granted_of_insertHolds h
  | bulkInsert caller target ps => exact granted_of_insertHolds h
  | update caller target q changes => exact granted_of_matchingHolds h
  | delete caller target q => exact granted_of_matchingHolds h
  | apnSet caller sub => exact granted_of_queryHolds h
  | simApnList caller sub => exact granted_of_queryHolds h
  | migrateAll caller =>
    have h : Held (migrateHolds setup caller s) shard := h
    unfold migrateHolds at h
    split at h
    · rename_i ha
      exact (Policy.authorize_eq_ok.mp ha).2.1 rfl rfl
    · exact absurd h not_held_nil
  | restoreToDefault caller sub =>
    have h : Held (restoreHolds setup caller sub s) shard := h
    unfold restoreHolds at h
    split at h
    · rename_i ha
      refine ⟨?_, (Policy.authorize_eq_ok.mp ha).2.1 rfl rfl⟩
      split at h
      · rcases List.mem_pair.mp (held_guard.mp h) with rfl | rfl
        · rfl
        · rfl
      · exact held_partition.mp h
    · exact absurd h not_held_nil
  | _ => exact not_held_nil h

end Reaches

/-- **Every request is confined to the shards that it reaches**, whether it succeeds or fails. -/
theorem Request.moves (r : Request) (setup : Setup) (hv : s.store.Valid) :
    Moves (r.reaches setup s.enforced) s.store (r.after setup s).store :=
  (r.moves_held setup hv).mono fun _ => Request.reaches_of_held

/-! ## Runs -/

theorem valid_after (r : Request) (setup : Setup) (hv : s.store.Valid) :
    (r.after setup s).store.Valid :=
  (r.moves setup hv).valid hv

theorem run_cons (setup : Setup) (r : Request) (requests : List Request) (s : State Table) :
    run setup (r :: requests) s = run setup requests (r.after setup s) := rfl

/-- A run leaves a table valid. -/
theorem valid_run (setup : Setup) (requests : List Request) (hv : s.store.Valid) :
    (run setup requests s).store.Valid := by
  induction requests generalizing s with
  | nil => exact hv
  | cons r requests ih =>
    rw [run_cons]
    exact ih (valid_after r setup hv)

/-- **A run keeps keys distinct**: no two rows, tombstones included, share a key after any of its
requests, whether that one succeeded or failed, if none did before the first. -/
theorem keysUnique_run_take (setup : Setup) (requests : List Request) (s : State Table)
    (hv : s.store.Valid) (hk : s.store.KeysUnique) (k : Nat) :
    (run setup (requests.take k) s).store.KeysUnique := by
  induction requests generalizing s k with
  | nil =>
    rw [List.take_nil]
    exact hk
  | cons r requests ih =>
    cases k with
    | zero => exact hk
    | succ k =>
      rw [List.take_succ_cons, run_cons]
      exact ih _ (valid_after r setup hv) ((r.moves setup hv).keysUnique hv hk) k

theorem keysUnique_run_two_rows :
    let t := Table.ofProfiles [{ apn := "web" }, { apn := "mms" }]
    t.KeysUnique ∧ (run {} ([.bulkInsert .system (.table .general none) [{ apn := "web" }],
      .delete .system (.table .general none) .always].take 1) (.initial {} t)).store.KeysUnique :=
  ⟨by decide, keysUnique_run_take {} _ (.initial {} _) (.ofProfiles _) (by decide) 1⟩

end ApnRegistry.Registry
