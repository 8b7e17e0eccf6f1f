import ApnRegistry.Proofs.Journal
import ApnRegistry.Proofs.LegacyCodes
import ApnRegistry.Proofs.Restore

/-!
# What a restore does to a table

Each seed ends up as a waiting profile or meets a surviving row with its key, and nothing else waits
(`Seeding.Covers`). So the rows that a restore brings in have exactly those keys of the factory list
that no surviving row has.

Results:
* `Table.Restoration`: the table before a restore, the table after it and its report, compared.
* `Table.restoration_of_restored`: restores do this to a table.
* `Registry.restoreToDefault_restores`: so does the call, and no batch that it sends overwrites a row.
-/

namespace ApnRegistry

open Collision

namespace Restore

variable {e : Extent} {p q row : Profile} {factory survivors done rows : List Profile}
  {s s' : Seeding}

/-! ## The keys that wait -/

/-- What waits is unedited and has the key of a seed placed so far, and each of these has the key of
a profile that waits or of a row that survives. -/
structure Seeding.Covers (survivors done : List Profile) (s : Seeding) : Prop where
  unedited : ∀ w ∈ s.waiting, w.status = .unedited
  origin : ∀ w ∈ s.waiting, ∃ q ∈ done, q.key = w.key
  held : ∀ q ∈ done, (∃ w ∈ s.waiting, w.key = q.key) ∨ ∃ r ∈ survivors, r.key = q.key

theorem Seeding.Covers.empty (survivors : List Profile) : Seeding.Covers survivors [] {} where
  unedited := fun _ h => absurd h List.not_mem_nil
  origin := fun _ h => absurd h List.not_mem_nil
  held := fun _ h => absurd h List.not_mem_nil

theorem status_mergeOnto (hrow : row.status = .unedited) (hp : p.status = .unedited) :
    (mergeOnto row p).1.status = .unedited := by
  rw [mergeOnto_of_unedited hrow, hp]

/-- If the keys that wait stay and one more key is held, one more seed is covered. -/
theorem Seeding.Covers.append (h : Seeding.Covers survivors done s)
    (hunedited : ∀ w ∈ s'.waiting, w.status = .unedited)
    (horigin : ∀ w ∈ s'.waiting, (∃ v ∈ s.waiting, v.key = w.key) ∨ q.key = w.key)
    (hstay : ∀ v ∈ s.waiting, ∃ w ∈ s'.waiting, w.key = v.key)
    (hheld : (∃ w ∈ s'.waiting, w.key = q.key) ∨ ∃ r ∈ survivors, r.key = q.key) :
    Seeding.Covers survivors (done ++ [q]) s' where
  unedited := hunedited
  origin := fun w hw => by
    rcases horigin w hw with ⟨v, hv, hk⟩ | hk
    · obtain ⟨q', hq', hk'⟩ := h.origin v hv
      exact ⟨q', List.mem_append_left _ hq', hk'.trans hk⟩
    · exact ⟨q, List.mem_append_right _ (List.mem_singleton_self q), hk⟩
  held := fun q' hq' => by
    rcases List.mem_append.mp hq' with hq' | hq'
    · refine (h.held q' hq').imp_left fun ⟨v, hv, hk⟩ => ?_
      obtain ⟨w, hw, hk'⟩ := hstay v hv
      exact ⟨w, hw, hk'.trans hk⟩
    · exact List.mem_singleton.mp hq' ▸ hheld

/-- What becomes of the profiles that wait, one seed later: it lands on one of them, or joins them, or
leaves them alone because a surviving row has its key. -/
theorem Seeding.waiting_cases (h : s.place survivors q = .ok s') :
    (∃ i, placeOf s.waiting q = some i ∧ s'.waiting = landAt s.waiting i q) ∨
    (placeOf s.waiting q = none ∧ s'.waiting = s.waiting ++ [q]) ∨
    (placeOf s.waiting q = none ∧ (∃ r ∈ survivors, r.key = q.key) ∧ s'.waiting = s.waiting) := by
  obtain ⟨i, hw, rfl⟩ | ⟨hw, -, rfl⟩ | ⟨hw, row, hh, rfl⟩ := Seeding.place_cases h
  · exact Or.inl ⟨i, hw, rfl⟩
  · exact Or.inr (Or.inl ⟨hw, rfl⟩)
  · obtain ⟨hrow, -, hkey⟩ := mem_hits.mp (hh ▸ List.mem_singleton_self row)
    refine Or.inr (Or.inr ⟨hw, ⟨row, hrow, hkey⟩, ?_⟩)
    split
    · rfl
    · rfl

/-- **One more seed** is covered. -/
theorem Seeding.Covers.place (h : Seeding.Covers survivors done s) (hq : q.status = .unedited)
    (hplace : s.place survivors q = .ok s') : Seeding.Covers survivors (done ++ [q]) s' := by
  obtain ⟨i, hw, hs'⟩ | ⟨-, hs'⟩ | ⟨-, hmet, hs'⟩ := Seeding.waiting_cases hplace
  · obtain ⟨hi, hkey⟩ := exists_of_placeOf hw
    have hmap : s'.waiting.map Profile.key = s.waiting.map Profile.key := by
      rw [hs', map_key_landAt hw]
    refine h.append (fun w hm => ?_) (fun w hm => ?_) (fun v hv => ?_) (Or.inl ?_)
    · rw [hs', landAt_eq_set hi] at hm
      rcases List.mem_or_eq_of_mem_set hm with hm | rfl
      · exact h.unedited w hm
      · exact status_mergeOnto (h.unedited _ (List.getElem_mem hi)) hq
    · exact Or.inl (List.mem_map.mp (hmap ▸ List.mem_map_of_mem hm))
    · exact List.mem_map.mp (hmap.symm ▸ List.mem_map_of_mem hv)
    · have hm : q.key ∈ s.waiting.map Profile.key :=
        hkey ▸ List.mem_map_of_mem (List.getElem_mem hi)
      exact List.mem_map.mp (hmap.symm ▸ hm)
  · have hmem {w : Profile} : w ∈ s'.waiting ↔ w ∈ s.waiting ∨ w = q := by
      rw [hs', List.mem_append, List.mem_singleton]
    refine h.append (fun w hm => ?_) (fun w hm => ?_) (fun v hv => ⟨v, hmem.mpr (Or.inl hv), rfl⟩)
      (Or.inl ⟨q, hmem.mpr (Or.inr rfl), rfl⟩)
    · rcases hmem.mp hm with hm | rfl
      · exact h.unedited w hm
      · exact hq
    · rcases hmem.mp hm with hm | rfl
      · exact Or.inl ⟨w, hm, rfl⟩
      · exact Or.inr rfl
  · exact h.append (hs' ▸ h.unedited) (fun w hm => Or.inl ⟨w, hs' ▸ hm, rfl⟩)
      (fun v hv => ⟨v, hs' ▸ hv, rfl⟩) (Or.inr hmet)

theorem Seeded.covers (h : Seeded e factory rows s) :
    Seeding.Covers (rows.filter (!e.drops ·)) (seeds e factory) s :=
  h.induction (.empty _) fun _ _ _ _ hs _ hplace => hs.place rfl hplace

/-- **The keys that wait in the end** are those of admitted factory profiles that no surviving row
has. -/
theorem Seeded.mem_keys (h : Seeded e factory rows s) (hid : ∀ p ∈ rows, p.id.isSome = true)
    {k : Profile.Key} : k ∈ s.waiting.map Profile.key ↔
      (∃ p ∈ factory, e.admits p = true ∧ (seed p).key = k) ∧
        ∀ r ∈ rows, e.drops r = false → r.key ≠ k := by
  rw [List.mem_map]
  constructor
  · rintro ⟨w, hw, rfl⟩
    obtain ⟨q, hq, hk⟩ := h.covers.origin w hw
    obtain ⟨p, hp, hadm, rfl⟩ := mem_seeds.mp hq
    refine ⟨⟨p, hp, hadm, hk⟩, fun r hr hd => ?_⟩
    exact (h.sound hid).apart w hw r (List.mem_filter.mpr ⟨hr, by rw [hd]; rfl⟩)
  · rintro ⟨⟨p, hp, hadm, rfl⟩, hnone⟩
    rcases h.covers.held _ (mem_seeds.mpr ⟨p, hp, hadm, rfl⟩) with hw | ⟨r, hr, hk⟩
    · exact hw
    · obtain ⟨hm, hd⟩ := List.mem_filter.mp hr
      exact absurd hk (hnone r hm (by simpa using hd))

/-- What waits in the end is unpinned. -/
theorem Seeded.subscription_waiting (h : Seeded e factory rows s) {w : Profile}
    (hw : w ∈ s.waiting) : w.subscription = .unpinned := by
  obtain ⟨q, hq, hk⟩ := h.covers.origin w hw
  obtain ⟨p, -, -, rfl⟩ := mem_seeds.mp hq
  exact (Profile.subscription_eq_of_key_eq hk).symm

/-- The statuses of the rows that a restore leaves alone in its extent. -/
def lasting : List EditStatus := [.userEdited, .carrierEdited, .userDeletedButPresentInXml]

theorem isDropped_eq (status : EditStatus) : isDropped status = !lasting.contains status := by
  cases status <;> rfl

theorem drops_of_id (hid : p.id.isSome = true) :
    e.drops p = (e.contains p && !lasting.contains p.status) := by
  rw [Extent.drops, hid, Bool.and_true, isDropped_eq]

end Restore

namespace Table

open Restore

variable {t t' : Table} {e : Extent} {factory waiting : List Profile} {engine : Mvno.Engine}
  {id : RowId} {p : Profile}

/-! ## The rows afterwards -/

/-- The rows of another table under ids that the table does not have. -/
def arrivals (t t' : Table) : Rows := t'.rows.filter fun r => (t.get? r.1).isNone

/-- A restore takes out the rows that it drops, and its seeds come after all others. -/
theorem rows_reseeded (hv : t.Valid) (e : Extent) (waiting : List Profile) :
    (t.reseeded e waiting).rows =
      t.rows.filter (!e.drops ·.2) ++ Rows.numbered t.nextId waiting := by
  rw [reseeded, rows_pushAll _ (hv.removeAll _), rows_removeAll, nextId_removeAll]
  congr 1
  refine List.filter_congr fun r hr => ?_
  have hm : r.1 ∈ droppedIds e t.rows.profiles ↔ e.drops r.2 = true := by
    rw [droppedIds, (hv.lists.filter e.drops).mem_ids hv (hv.mem_iff.mp hr), List.mem_filter]
    exact and_iff_right (List.mem_map_of_mem hr)
  simp [hm]

theorem get?_reseeded (hv : t.Valid) (e : Extent) (waiting : List Profile) (id : RowId) :
    (t.reseeded e waiting).get? id = ((t.get? id).filter (!e.drops ·)).or
      (Rows.get? (Rows.numbered t.nextId waiting) id) := by
  rw [get?, rows_reseeded hv, Rows.get?_append, hv.sorted.get?_filter (!e.drops ·)]
  rfl

theorem get?_reseeded_of_some (hv : t.Valid) (e : Extent) (waiting : List Profile)
    (hp : t.get? id = some p) :
    (t.reseeded e waiting).get? id = if e.drops p then none else some p := by
  rw [get?_reseeded hv, hp, Rows.get?_numbered, if_pos (hv.lt_nextId hp), Option.or_none]
  cases hd : e.drops p with
  | false => simp [Option.filter, hd]
  | true => simp [Option.filter, hd]

/-- A stored row is there afterwards iff the restore does not drop it. -/
theorem get?_reseeded_eq_some_iff (hv : t.Valid) (e : Extent) (waiting : List Profile)
    (hp : t.get? id = some p) :
    (t.reseeded e waiting).get? id = some p ↔ e.drops p = false := by
  rw [get?_reseeded_of_some hv e waiting hp]
  cases e.drops p with
  | false => exact iff_of_true rfl rfl
  | true => exact iff_of_false nofun nofun

/-- What has come are the seeds. -/
theorem arrivals_reseeded (hv : t.Valid) (e : Extent) (waiting : List Profile) :
    t.arrivals (t.reseeded e waiting) = Rows.numbered t.nextId waiting := by
  have hold : (t.rows.filter (!e.drops ·.2)).filter (fun r => (t.get? r.1).isNone) = [] := by
    refine List.filter_eq_nil_iff.mpr fun r hr => ?_
    rw [hv.mem_iff.mp (List.mem_filter.mp hr).1]
    exact Bool.false_ne_true
  rw [arrivals, rows_reseeded hv, List.filter_append, hold, List.nil_append]
  refine List.filter_eq_self.mpr fun r hr => ?_
  rw [hv.get?_eq_none (Rows.le_of_mem_numbered hr)]
  rfl

/-! ## Restorations -/

/-- **What a restore of the extent does**: the table before it, the table after it, and its
report. -/
structure Restoration (e : Extent) (factory : List Profile) (t t' : Table) (report : Report) :
    Prop where
  /-- No policy row lies in the extent. -/
  policy : ∀ p : Profile, p.owner = .dpc → e.contains p = false
  /-- Rows outside the extent stay as they are. -/
  outside : ∀ id p, t.get? id = some p → e.contains p = false → t'.get? id = some p
  /-- So do the rows of the extent whose status lasts. -/
  preserved : ∀ id p, t.get? id = some p → e.contains p = true → p.status ∈ lasting →
    t'.get? id = some p
  /-- All other rows of the extent are gone. -/
  deleted : ∀ id p, t.get? id = some p → e.contains p = true → p.status ∉ lasting →
    t'.get? id = none
  /-- What has come is new, ordinary, unpinned and unedited. -/
  seeded : ∀ r ∈ t.arrivals t', t.nextId ≤ r.1.val ∧ r.2.owner = .others ∧
    r.2.subscription = .unpinned ∧ r.2.status = .unedited
  /-- No two of these rows have the same key. -/
  distinct : ((t.arrivals t').profiles.map Profile.key).Nodup
  /-- Their keys are those keys of admitted factory profiles that no row has which has stayed. -/
  keys : ∀ k, k ∈ (t.arrivals t').profiles.map Profile.key ↔
    (∃ d ∈ factory, e.admits d = true ∧ (seed d).key = k) ∧
      ∀ id r, t.get? id = some r → t'.get? id = some r → r.key ≠ k
  /-- The report counts all three. -/
  counts : report = {
    deleted := (t.rows.profiles.filter fun p => e.contains p && !lasting.contains p.status).length
    preserved := (t.rows.profiles.filter fun p => e.contains p && lasting.contains p.status).length
    seeded := (t.arrivals t').length }

theorem report_planOf (hv : t.Valid) {s : Seeding} : (planOf e t.rows.profiles s).report = {
    deleted := (t.rows.profiles.filter fun p => e.contains p && !lasting.contains p.status).length
    preserved := (t.rows.profiles.filter fun p => e.contains p && lasting.contains p.status).length
    seeded := s.waiting.length } := by
  have hid : ∀ p ∈ t.rows.profiles, p.id.isSome = true := hv.isSome_id
  have hdel : t.rows.profiles.filter e.drops =
      t.rows.profiles.filter fun p => e.contains p && !lasting.contains p.status :=
    List.filter_congr fun p hp => drops_of_id (hid p hp)
  have hpres : (t.rows.profiles.filter (!e.drops ·)).filter e.contains =
      t.rows.profiles.filter fun p => e.contains p && lasting.contains p.status := by
    rw [List.filter_filter]
    refine List.filter_congr fun p hp => ?_
    rw [drops_of_id (hid p hp)]
    cases e.contains p <;> simp
  rw [planOf, hdel, hpres]

/-- **Restores are restorations.** -/
theorem restoration_of_restored {report : Report} (hv : t.Valid)
    (h : t.restored engine factory e = .ok (report, t')) : t.Restoration e factory t' report := by
  obtain ⟨-, s, hs, rfl, rfl⟩ := (restored_eq_ok hv).mp h
  have hid : ∀ p ∈ t.rows.profiles, p.id.isSome = true := hv.isSome_id
  have hsound := hs.sound hid
  have hget (id p) (hp : t.get? id = some p) := get?_reseeded_of_some hv e s.waiting hp
  have hdrops (id p) (hp : t.get? id = some p) := drops_of_id (e := e) (hid p (hv.mem_profiles hp))
  have hkeys := Rows.map_key_numbered t.nextId s.waiting
  exact {
    policy := fun p hp => by rw [Extent.contains, hp]; rfl
    outside := fun id p hp hc => by rw [hget id p hp, hdrops id p hp, hc]; rfl
    preserved := fun id p hp hc hl => by
      rw [hget id p hp, hdrops id p hp, hc, List.contains_iff_mem.mpr hl]
      rfl
    deleted := fun id p hp hc hl => by
      have hl : lasting.contains p.status = false := by simpa using hl
      rw [hget id p hp, hdrops id p hp, hc, hl]
      rfl
    seeded := fun r hr => by
      rw [arrivals_reseeded hv] at hr
      obtain ⟨w, hw, hrw⟩ := Rows.exists_of_mem_numbered hr
      refine ⟨Rows.le_of_mem_numbered hr, ?_⟩
      have hunpinned : w.subscription = .unpinned := hs.subscription_waiting hw
      rw [hrw]
      exact ⟨(hsound.waiting w hw).2, hunpinned, hs.covers.unedited w hw⟩
    distinct := by
      rw [arrivals_reseeded hv, hkeys]
      exact hsound.distinct
    keys := fun k => by
      rw [arrivals_reseeded hv, hkeys, hs.mem_keys hid]
      have hstays {id r} (hr : t.get? id = some r) := get?_reseeded_eq_some_iff hv e s.waiting hr
      refine and_congr_right fun _ => ⟨fun hn id r hr hr' => ?_, fun hn r hm hd => ?_⟩
      · exact hn r (hv.mem_profiles hr) ((hstays hr).mp hr')
      · obtain ⟨id, -, hr⟩ := hv.mem_profiles_iff.mp hm
        exact hn id r hr ((hstays hr).mpr hd)
    counts := by
      rw [report_planOf hv, arrivals_reseeded hv, Rows.length_numbered] }

end Table

/-- The batch overwrites no row. -/
def Batch.OverwritesNothing (batch : Batch) : Prop := ∀ p, Change.replace p ∉ batch

theorem Table.Valid.overwritesNothing {t : Table} {e : Restore.Extent} {factory : List Profile}
    {engine : Mvno.Engine} {plan : Restore.Plan} (hv : t.Valid)
    (h : Restore.prepare engine t.rows.profiles factory e = .ok plan) :
    plan.batch.OverwritesNothing := by
  intro p hm
  obtain ⟨-, s, hs, rfl⟩ := Restore.prepare_eq_ok.mp h
  rw [(hv.sound_of_seeded hs).batch, List.map_nil, List.append_nil] at hm
  rcases List.mem_append.mp hm with hm | hm
  · obtain ⟨id, -, hid⟩ := List.mem_map.mp hm
    cases hid
  · obtain ⟨w, -, hw⟩ := List.mem_map.mp hm
    cases hw

/-! ## The call -/

namespace Registry

open Restore Registry.Action

variable {setup : Setup} {caller : Caller} {sub : Subscription} {s s' : State Table}
  {e : Extent} {report : Report}

/-- The state in which a restore for the subscription ends that has led to the table. -/
def afterRestore (setup : Setup) (sub : Subscription) (s : State Table) (t : Table) :
    State Table where
  store := t
  enforced := s.enforced
  preferences :=
    if (extentOf setup.device sub).subscription.isSome then s.preferences.clear sub else []
  board := (s.board.post (.restore (some sub))).post (.apnTable (some sub))

/-- **A restore that fails leaves the state as it was**, and any other one ends as the table does. -/
theorem perform_restoreToDefault (setup : Setup) (caller : Caller) (sub : Subscription)
    (hv : s.store.Valid) : (restoreToDefault setup caller sub).perform s =
      match setup.policy.authorize caller .general .update s.enforced,
        s.store.restored setup.engine setup.defaults (extentOf setup.device sub) with
      | .error err, _ => (.error err, s)
      | .ok _, .error err => (.error err, s)
      | .ok _, .ok (report, t) => (.ok report, afterRestore setup sub s t) := by
  rw [restoreToDefault, perform_bind, perform_authorize]
  cases setup.policy.authorize caller .general .update s.enforced with
  | error err => rfl
  | ok partition =>
    show (restoreRows setup _ _ >>= _ : Action Table _).perform s = _
    rw [perform_bind, perform_restoreRows setup _ _ hv]
    cases hr : s.store.restored setup.engine setup.defaults (extentOf setup.device sub) with
    | error err => rw [perform_edits_of_error hr]
    | ok r =>
      rw [perform_edits_of_ok hr]
      rfl

theorem restoreToDefault_eq_ok (hv : s.store.Valid) :
    (restoreToDefault setup caller sub).perform s = (.ok report, s') ↔
      (∃ partition, setup.policy.authorize caller .general .update s.enforced = .ok partition) ∧
      ∃ t, s.store.restored setup.engine setup.defaults (extentOf setup.device sub) =
        .ok (report, t) ∧ afterRestore setup sub s t = s' := by
  rw [perform_restoreToDefault setup caller sub hv]
  cases setup.policy.authorize caller .general .update s.enforced with
  | error err => simp
  | ok partition =>
    cases s.store.restored setup.engine setup.defaults (extentOf setup.device sub) with
    | error err => simp
    | ok r => simp [Prod.ext_iff, and_assoc]

theorem eq_of_restoreToDefault_error {err : Error} (hv : s.store.Valid)
    (h : (restoreToDefault setup caller sub).perform s = (.error err, s')) : s' = s := by
  rw [perform_restoreToDefault setup caller sub hv] at h
  split at h
  · exact (Prod.mk.inj h).2.symm
  · exact (Prod.mk.inj h).2.symm
  · cases h

theorem sends_restoreOnce (hv : s.store.Valid) :
    Sends Batch.OverwritesNothing (restoreOnce setup e) (restoreOnce setup e) s := by
  refine (sends_rows _ _).bind fun found s' h => ?_
  cases h
  refine (sends_decided _).bind fun plan s' h => ?_
  obtain ⟨hplan, rfl⟩ := Prod.mk.inj h
  have hrows : s.store.scan .always .idAscending = s.store.rows.profiles :=
    List.filter_eq_self.mpr fun p _ => Predicate.holds_always p
  rw [hrows] at hplan
  exact (sends_write (hv.overwritesNothing hplan)).outcomeOf.bind fun _ _ _ => sends_pure _

theorem sends_restoreRows (hv : s.store.Valid) (retries : Nat) :
    Sends Batch.OverwritesNothing (restoreRows setup e retries) (restoreRows setup e retries) s := by
  cases retries with
  | zero => exact (sends_restoreOnce hv).bind fun _ _ _ => sends_decided _
  | succ retries =>
    refine (sends_restoreOnce hv).bind fun result s' h => ?_
    -- A table in memory never asks for another attempt.
    rw [perform_restoreOnce setup e hv] at h
    cases hr : s.store.restored setup.engine setup.defaults e with
    | error err =>
      rw [hr] at h
      cases h
    | ok r =>
      rw [hr] at h
      cases h
      exact sends_pure _

theorem sends_restoreToDefault (setup : Setup) (caller : Caller) (sub : Subscription)
    (hv : s.store.Valid) : Sends Batch.OverwritesNothing
      (restoreToDefault setup caller sub) (restoreToDefault setup caller sub) s := by
  refine sends_authorize.bind fun partition s' h => ?_
  rw [perform_authorize] at h
  obtain ⟨-, rfl⟩ := Prod.mk.inj h
  refine (sends_restoreRows hv _).bind fun report s' _ => ?_
  refine (sends_modify fun _ => rfl).bind fun _ s' _ => ?_
  exact (sends_publish _).bind fun _ _ _ => (sends_publish _).bind fun _ _ _ => sends_pure _

/-- **The effect of a restore**: rows outside its extent and rows with lasting status stay, the other
rows of the extent go, and what comes are unedited rows with those keys of the admitted factory
profiles that no row has which stays. No batch that is sent overwrites a row. -/
theorem restoreToDefault_restores (setup : Setup) (caller : Caller) (sub : Subscription)
    (s s' : State Table) (report : Report) (hv : s.store.Valid)
    (h : (restoreToDefault setup caller sub).perform s = (.ok report, s')) :
    Table.Restoration (extentOf setup.device sub) setup.defaults s.store s'.store report ∧
      ∃ sent, (restoreToDefault setup caller sub).perform (s.journaled []) =
          (.ok report, s'.journaled sent) ∧
        ∀ batch ∈ sent, ∀ p, Change.replace p ∉ batch := by
  obtain ⟨-, t, hr, rfl⟩ := (restoreToDefault_eq_ok hv).mp h
  obtain ⟨sent, hsent, hperform⟩ := sends_restoreToDefault setup caller sub hv []
  rw [h] at hperform
  exact ⟨Table.restoration_of_restored hv hr, sent, hperform, hsent⟩

/-- A device with two SIMs. One row of the subscription was edited and stays, the other one goes; the
row of another operator and the policy row lie outside. Of the factory profiles one is seeded: the
second has the key of the edited row, and the third is of another operator. -/
theorem restoreToDefault_restores_mms :
    let setup : Setup := {
      device := { sims := [(0, { operator := some "26201" })], phoneCount := 2 }
      factory := [{ apn := "mms", numeric := "26201" }, { apn := "web", numeric := "26201" },
        { apn := "mms", numeric := "31026" }] }
    let s : State Table := .initial setup (.ofProfiles [
      { apn := "web", numeric := "26201", name := "mine", status := .userEdited },
      { apn := "old", numeric := "26201" }, { apn := "old", numeric := "31026" },
      { apn := "old", numeric := "26201", owner := .dpc }])
    let report : Restore.Report := { deleted := 1, preserved := 1, seeded := 1 }
    ∃ s' : State Table, (restoreToDefault setup .system ⟨0⟩).perform s = (.ok report, s') ∧
      s'.store.rows.map (fun r => (r.1.val, r.2.apn)) =
        [(1, "web"), (3, "old"), (4, "old"), (5, "mms")] ∧
      Table.Restoration (extentOf setup.device ⟨0⟩) setup.defaults s.store s'.store report := by
  intro setup s report
  have h : (restoreToDefault setup .system ⟨0⟩).perform s =
      (.ok report, ((restoreToDefault setup .system ⟨0⟩).perform s).2) := by
    refine Prod.ext ?_ rfl
    decide +kernel
  exact ⟨_, h, by decide +kernel,
    (restoreToDefault_restores setup .system ⟨0⟩ s _ report (.ofProfiles _) h).1⟩

end Registry

end ApnRegistry
