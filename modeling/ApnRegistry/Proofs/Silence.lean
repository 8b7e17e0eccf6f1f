import ApnRegistry.Proofs.Discreet
import ApnRegistry.Proofs.Keys
import ApnRegistry.Registry.Request
import Mathlib.Control.Monad.Basic
import Mathlib.Tactic.ByContra

/-!
# Silent calls

Whoever follows the notices of a registry need not look at its rows again until one comes. So a call that
announces nothing must have changed nothing; and one that fails must not have announced anything.

A call is built from readings, one batch at the end, and a notice after it. Up to the notice it is
discreet, and what remains to be shown is that a result for which none is sent comes from an empty batch:
no profile was given an id (`Draft.Slotted`), no row was affected (`Revision.Counted`), no row was matched.

Nothing here depends on the rows that are stored, and hardly anything on the store: it may fail as long as
it does all or nothing.

Results:
* `Draft.Slotted.ofProfiles`, `Revision.Counted.ofRows`: what the batches of inserts and updates count.
* `Request.forthright`: every request that announces its changes, on any store that does all or nothing.
* `Request.silent_of_failed_unchanged_of_silent`: what that says of a table in memory, and of one that
  fails on schedule.
-/

namespace ApnRegistry

/-- There is nothing to clear where nothing is preferred. -/
theorem Preferences.clear_of_get?_eq_none {ps : Preferences} {s : Subscription} (h : ps.get? s = none) :
    ps.clear s = ps := by
  refine List.filter_eq_self.mpr fun e he => ?_
  rw [bne_comm]
  exact List.lookup_eq_none_iff.mp h e he

namespace Registry

open Registry.Action

variable {σ γ : Type} {content : σ → γ}

/-! ## Inserts -/

namespace Draft

variable {d d' : Draft} {p : Profile} {ps stored : List Profile} {inserted : List RowId}

/-- What the slots tell about a draft. -/
structure Slotted (d : Draft) : Prop where
  fresh : ∀ i, .fresh i ∈ d.slots → i < d.pending.length
  pending : d.pending ≠ [] → ∃ i, .fresh i ∈ d.slots
  touched : d.touched ≠ [] → ∃ id, .existing id ∈ d.slots

/-- **What becomes of one more profile**: it is turned away, lands on a new row or on a stored one, or is
new itself. -/
theorem add_cases (h : d.add p = .ok d') :
    d' = { d with slots := d.slots ++ [.rejected] } ∨
    (∃ i, i < d.pending.length ∧
      d' = { d with pending := Collision.landAt d.pending i p, slots := d.slots ++ [.fresh i] }) ∨
    (∃ r, d' = { d with pending := d.pending ++ [r], slots := d.slots ++ [.fresh d.pending.length] }) ∨
    ∃ id r, d' = { d with
      working := d.working.put id r
      touched := d.touched ++ [id]
      slots := d.slots ++ [.existing id] } := by
  unfold add at h
  cases ho : p.owner with
  | dpc =>
    simp only [ho] at h
    cases hr : Collision.resolveDpc p (d.working.profiles ++ d.pending) with
    | error e =>
      rw [hr] at h
      cases h
      exact Or.inl rfl
    | ok r =>
      rw [hr] at h
      cases h
      exact Or.inr (Or.inr (Or.inl ⟨r.stored, rfl⟩))
  | others =>
    simp only [ho] at h
    cases hp : Collision.placeOf d.pending p with
    | some i =>
      obtain ⟨hi, -⟩ := Collision.exists_of_placeOf hp
      rw [hp] at h
      cases h
      exact Or.inr (Or.inl ⟨i, hi, rfl⟩)
    | none =>
      rw [hp] at h
      cases hr : Collision.resolve p d.working.profiles with
      | error e =>
        rw [hr] at h
        cases h
      | ok r =>
        simp only [hr, bind, Except.bind, pure, Except.pure] at h
        cases hid : r.stored.id with
        | some id =>
          simp only [hid] at h
          cases h
          exact Or.inr (Or.inr (Or.inr ⟨id, r.stored, rfl⟩))
        | none =>
          simp only [hid] at h
          cases h
          exact Or.inr (Or.inr (Or.inl ⟨r.stored, rfl⟩))

theorem Slotted.start (stored : List Profile) : Slotted { working := Rows.ofProfiles stored } where
  fresh := fun _ h => absurd h List.not_mem_nil
  pending := fun h => absurd rfl h
  touched := fun h => absurd rfl h

/-- **One more profile.** -/
theorem Slotted.add (hd : d.Slotted) (h : d.add p = .ok d') :
    d'.Slotted ∧ d'.slots.length = d.slots.length + 1 := by
  have stays {slot new : Slot} (hm : slot ∈ d.slots) : slot ∈ d.slots ++ [new] :=
    List.mem_append_left _ hm
  have old {i : Nat} {new : Slot} (hm : .fresh i ∈ d.slots ++ [new]) :
      i < d.pending.length ∨ .fresh i = new :=
    (List.mem_append.mp hm).imp (hd.fresh i) List.mem_singleton.mp
  have last (new : Slot) : new ∈ d.slots ++ [new] :=
    List.mem_append_right _ (List.mem_singleton_self new)
  rcases add_cases h with rfl | ⟨i, hi, rfl⟩ | ⟨r, rfl⟩ | ⟨id, r, rfl⟩
  · refine ⟨⟨fun i hm => ?_, fun hp => ?_, fun ht => ?_⟩, List.length_append⟩
    · exact (old hm).resolve_right nofun
    · exact (hd.pending hp).imp fun _ => stays
    · exact (hd.touched ht).imp fun _ => stays
  · refine ⟨⟨fun j hm => ?_, fun _ => ⟨i, last _⟩, fun ht => ?_⟩, List.length_append⟩
    · rw [Collision.landAt_eq_set hi, List.length_set]
      rcases old hm with hj | hj
      · exact hj
      · cases hj
        exact hi
    · exact (hd.touched ht).imp fun _ => stays
  · refine ⟨⟨fun j hm => ?_, fun _ => ⟨_, last _⟩, fun ht => ?_⟩, List.length_append⟩
    · rw [List.length_append, List.length_singleton]
      rcases old hm with hj | hj
      · exact Nat.lt_succ_of_lt hj
      · cases hj
        exact Nat.lt_succ_self _
    · exact (hd.touched ht).imp fun _ => stays
  · refine ⟨⟨fun j hm => ?_, fun hp => ?_, fun _ => ⟨id, last _⟩⟩, List.length_append⟩
    · exact (old hm).resolve_right nofun
    · exact (hd.pending hp).imp fun _ => stays

/-- **Any number of profiles** make a draft in which each has its slot. -/
theorem Slotted.ofProfiles (h : Draft.ofProfiles stored ps = .ok d) :
    d.Slotted ∧ d.slots.length = ps.length := by
  refine foldlM_induction (P := fun done d => d.Slotted ∧ d.slots.length = done.length)
    ⟨.start stored, rfl⟩ (fun p _ done d d' hd hadd => ?_) h
  obtain ⟨hd', hlen⟩ := hd.1.add hadd
  exact ⟨hd', by rw [hlen, hd.2, List.length_append, List.length_singleton]⟩

theorem countP_batch (d : Draft) : d.batch.countP Change.isInsert = d.pending.length := by
  have hreplace (rows : Rows) :
      (rows.map fun e => Change.replace e.2).countP Change.isInsert = 0 := by
    rw [List.countP_map, List.countP_eq_zero]
    exact fun _ _ => Bool.false_ne_true
  have hinsert : (d.pending.map Change.insert).countP Change.isInsert = d.pending.length := by
    rw [List.countP_map, List.countP_eq_length]
    exact fun _ _ => rfl
  rw [batch, List.countP_append, hreplace, hinsert, Nat.zero_add]

/-- **A draft that stores nothing has nothing to send.** -/
theorem Slotted.batch_eq_nil (hd : d.Slotted)
    (hlen : inserted.length = d.batch.countP Change.isInsert)
    (hnone : ∀ id ∈ d.slots.map (idOf inserted), id = none) : d.batch = [] := by
  rw [countP_batch] at hlen
  have hpending : d.pending = [] := by
    by_contra hp
    obtain ⟨i, hi⟩ := hd.pending hp
    have hid : inserted[i]? = none := hnone _ (List.mem_map_of_mem hi)
    rw [List.getElem?_eq_none_iff, hlen] at hid
    exact absurd (hd.fresh i hi) (Nat.not_lt.mpr hid)
  have htouched : d.touched = [] := by
    by_contra ht
    obtain ⟨id, hid⟩ := hd.touched ht
    exact nomatch hnone _ (List.mem_map_of_mem hid)
  simp [batch, hpending, htouched]

end Draft

section Insert

variable [RowStore σ] (hc : AllOrNothing content) {setup : Setup} {caller : Caller} {target : Target}
  {p : Profile} {ps : List Profile}

include hc

/-- An insert is discreet, and idle if it gives no profile an id. -/
theorem discreet_insertProfiles :
    Discreet content (fun ids => ids.length = ps.length → ∀ id ∈ ids, id = none)
      (insertProfiles setup caller target ps : Action σ _) := by
  refine discreet_authorizeRows.reading fun partition => ?_
  cases target with
  | row scope id => exact .of_unchanged fun _ => rfl
  | table scope subscription =>
    show Discreet content _ (if ps.isEmpty then _ else _ : Action σ _)
    split_ifs
    · exact .of_unchanged fun _ => rfl
    · refine (discreet_rows hc).reading fun stored => discreet_decided fun d hd => ?_
      obtain ⟨hslotted, hlen⟩ := Draft.Slotted.ofProfiles hd
      refine Discreet.returning (discreet_write hc fun outcome ho hidle => ?_)
      refine hslotted.batch_eq_nil ho (hidle ?_)
      rw [List.length_map, hlen, List.length_map]

theorem forthright_insert : Forthright content (insert setup caller target p : Action σ _) := by
  refine Discreet.publishing (c := fun ids => ids.head?.join.isSome = true)
    ((discreet_insertProfiles hc).mono fun ids hids hlen id hid => ?_)
  obtain ⟨only, rfl⟩ := List.length_eq_one_iff.mp hlen
  rw [List.mem_singleton.mp hid]
  exact Option.not_isSome_iff_eq_none.mp hids

theorem forthright_bulkInsert : Forthright content (bulkInsert setup caller target ps : Action σ _) := by
  refine Discreet.publishing (c := fun ids => 0 < ids.countP (·.isSome))
    ((discreet_insertProfiles hc).mono fun ids hids _ id hid => ?_)
  have hzero : ids.countP (·.isSome) = 0 := Nat.eq_zero_of_not_pos hids
  exact Option.not_isSome_iff_eq_none.mp (List.countP_eq_zero.mp hzero id hid)

end Insert

/-! ## Updates and deletions -/

namespace Revision

variable {changes : Update} {v v' : Revision} {id : RowId}

/-- A row that is written or goes is counted. -/
def Counted (v : Revision) : Prop := v.affected = 0 → v.touched = [] ∧ v.removed = []

theorem Counted.step (hv : v.Counted) (h : v.step changes id = .ok v') : v'.Counted := by
  unfold Revision.step at h
  cases hg : v.working.get? id with
  | none =>
    rw [hg] at h
    cases h
    exact hv
  | some current =>
    simp only [hg] at h
    cases hr : Collision.resolveUpdate current changes
        (v.working.profiles.filter (·.shard == current.shard)) with
    | error e =>
      rw [hr] at h
      cases h
    | ok r =>
      simp only [hr, bind, Except.bind, pure, Except.pure] at h
      split at h <;> cases h <;> exact fun hzero => absurd hzero (Nat.succ_ne_zero _)

theorem Counted.ofRows {locked : List Profile} {ids : List RowId}
    (h : Revision.ofRows changes locked ids = .ok v) : v.Counted :=
  foldlM_induction (P := fun _ v => v.Counted) (fun _ => ⟨rfl, rfl⟩)
    (fun _ _ _ _ _ hv hstep => hv.step hstep) h

/-- **An update that affects no row has nothing to send.** -/
theorem Counted.batch_eq_nil (hv : v.Counted) (h : ¬0 < v.affected) : v.batch = [] := by
  obtain ⟨ht, hr⟩ := hv (Nat.eq_zero_of_not_pos h)
  simp [batch, ht, hr, Ascending.ofList]

end Revision

section Revise

variable [RowStore σ] (hc : AllOrNothing content) {setup : Setup} {caller : Caller} {target : Target}
  {q : Predicate} {changes : Update}

include hc

/-- Locking reads, however often. -/
theorem discreet_lockMatching : ∀ attempts : Nat,
    Discreet content (fun _ => True) (lockMatching q attempts : Action σ _)
  | 0 => .of_unchanged fun _ => rfl
  | attempts + 1 => by
    rw [lockMatching]
    refine (discreet_rows hc).reading fun planned => ?_
    show Discreet content _ (if (Ascending.ofList _).isEmpty then _ else _ : Action σ _)
    split_ifs
    · exact .of_unchanged fun _ => rfl
    · refine (discreet_rows hc).reading fun matched => ?_
      show Discreet content _ (if List.all _ _ then _ else _ : Action σ _)
      split_ifs
      · exact .of_unchanged fun _ => rfl
      · exact discreet_lockMatching attempts

theorem forthright_update : Forthright content (update setup caller target q changes : Action σ _) := by
  have idle (n : Nat) : Forthright content (pure n : Action σ Nat) :=
    (Discreet.of_unchanged fun _ => rfl).forthright
  refine discreet_authorizeRows.leading fun partition => ?_
  show Forthright content (if changes.isEmpty then _ else _ : Action σ _)
  split_ifs
  · exact idle 0
  · refine (discreet_lockMatching hc maxReplans).leading fun found => ?_
    rcases found with _ | ⟨shards, matched⟩
    · exact idle 0
    · refine (discreet_rows hc).leading fun locked => ?_
      cases hr : Revision.ofRows (stamped caller partition changes) locked
          (matched.filterMap (·.id)) with
      | error e =>
        show Forthright content (if e.kind = .conflict then _ else _ : Action σ Nat)
        split_ifs
        · exact idle 0
        · exact (Discreet.of_unchanged fun _ => rfl).forthright
      | ok revision =>
        exact Discreet.publishing (c := fun _ => 0 < revision.affected)
          (discreet_write hc fun _ _ hzero => (Revision.Counted.ofRows hr).batch_eq_nil hzero)

theorem forthright_delete : Forthright content (delete setup caller target q : Action σ _) := by
  refine discreet_authorizeRows.leading fun partition =>
    (discreet_lockMatching hc maxReplans).leading fun found => ?_
  rcases found with _ | ⟨shards, matched⟩
  · exact (Discreet.of_unchanged fun _ => rfl).forthright
  · refine Discreet.publishing (c := fun _ => 0 < (matched.filterMap (deletion _)).length)
      (discreet_write hc fun _ _ hzero => ?_)
    exact List.eq_nil_of_length_eq_zero (Nat.eq_zero_of_not_pos hzero)

end Revise

/-! ## Restores -/

section Restoring

variable [RowStore σ] (hc : AllOrNothing content) {setup : Setup} {caller : Caller}
  {extent : Restore.Extent} {sub : Subscription}

include hc

theorem discreet_restoreOnce :
    Discreet content (fun outcome => ∃ e, outcome = .error e)
      (restoreOnce setup extent : Action σ _) := by
  refine (discreet_rows hc).reading fun found => discreet_decided fun plan _ => ?_
  refine Discreet.returning ((discreet_write hc fun _ _ => False.elim).outcomeOf.mono ?_)
  rintro (e | outcome) ⟨e', he⟩
  · exact ⟨e, rfl⟩
  · cases he

/-- **However often it is tried again**, a restore that fails has changed nothing. -/
theorem discreet_restoreRows : ∀ retries : Nat,
    Discreet content (fun _ => False) (restoreRows setup extent retries : Action σ _)
  | 0 => by
    rw [restoreRows]
    refine (discreet_restoreOnce hc).bind ?_ fun outcome hdone => ?_
    · rintro outcome ⟨e, rfl⟩
      exact .of_unchanged fun _ => rfl
    · cases outcome with
      | error e => exact absurd ⟨e, rfl⟩ hdone
      | ok report => exact ⟨report, rfl, id⟩
  | retries + 1 => by
    rw [restoreRows]
    refine (discreet_restoreOnce hc).bind ?_ fun outcome hdone => ?_
    · rintro outcome ⟨e, rfl⟩
      show Discreet content _ (if e.isRetryable then _ else _ : Action σ _)
      split_ifs
      · exact discreet_restoreRows retries
      · exact .of_unchanged fun _ => rfl
    · cases outcome with
      | error e => exact absurd ⟨e, rfl⟩ hdone
      | ok report => exact ⟨report, rfl, id⟩

theorem forthright_restoreToDefault :
    Forthright content (restoreToDefault setup caller sub : Action σ _) := by
  refine discreet_authorize.leading fun partition => ?_
  refine (discreet_restoreRows hc _).announced (fun _ h => h.elim) fun report _ s => ?_
  exact ⟨report, _, rfl, Nat.lt_trans (s.board.lt_length_post _) (NoticeBoard.lt_length_post _ _)⟩

end Restoring

/-! ## Preferred rows and the enforcement flag -/

section Flags

variable {setup : Setup} {caller : Caller} {sub : Subscription} {id : RowId} {value : Bool}

theorem forthright_setPreferred [RowStore σ] (hc : AllOrNothing content) :
    Forthright content (setPreferred setup caller sub id : Action σ _) := by
  refine discreet_authorize.leading fun partition => (discreet_fetch hc).leading fun found => ?_
  show Forthright content (if !found.any Selection.isPreferable then _ else _ : Action σ _)
  split_ifs
  · exact (Discreet.of_unchanged fun _ => rfl).forthright
  · exact .of_perform fun s => ⟨(), _, rfl, Or.inl (s.board.lt_length_post _)⟩

theorem forthright_clearPreferred :
    Forthright content (clearPreferred setup caller sub : Action σ _) := by
  refine discreet_authorize.leading fun partition => .of_perform fun s => ?_
  cases hp : s.preferences.get? sub with
  | none =>
    refine ⟨false, { s with preferences := s.preferences.clear sub }, ?_,
      Or.inr ⟨rfl, Preferences.clear_of_get?_eq_none hp, rfl⟩⟩
    show (if (s.preferences.get? sub).isSome then _ else _ : Action σ Bool).perform _ = _
    rw [hp]
    rfl
  | some id =>
    refine ⟨true, { s with preferences := s.preferences.clear sub, board := _ }, ?_,
      Or.inl (s.board.lt_length_post (.apnTable (some sub)))⟩
    show (if (s.preferences.get? sub).isSome then _ else _ : Action σ Bool).perform _ = _
    rw [hp]
    rfl

theorem forthright_setEnforced : Forthright content (setEnforced setup caller value : Action σ _) := by
  refine discreet_authorize.leading fun partition => .of_perform fun s => ?_
  by_cases h : s.enforced = value
  · refine ⟨(), { s with enforced := value }, ?_, Or.inr ⟨rfl, rfl, h.symm⟩⟩
    show (if s.enforced ≠ value then _ else _ : Action σ Unit).perform _ = _
    rw [if_neg (Decidable.not_not.mpr h)]
    rfl
  · refine ⟨(), { s with enforced := value, board := _ }, ?_,
      Or.inl (s.board.lt_length_post (.enforcedChanged value))⟩
    show (if s.enforced ≠ value then _ else _ : Action σ Unit).perform _ = _
    rw [if_pos h]
    rfl

end Flags

/-! ## Requests -/

/-- The request announces its changes. -/
def Request.IsAnnounced : Request → Prop
  | .insert .. | .bulkInsert .. | .update .. | .delete .. | .setPreferred .. | .clearPreferred ..
  | .restoreToDefault .. | .setEnforced .. => True
  | .query .. | .migrateAll .. | .preferred .. | .apnSet .. | .simApnList .. | .enforced .. => False

/-- **Every request that announces its changes is forthright**, on any store that does all or nothing. -/
theorem Request.forthright [RowStore σ] (hc : AllOrNothing content) (setup : Setup) (r : Request)
    (hr : r.IsAnnounced) : Forthright content (r.action setup : Action σ _) := by
  cases r with
  | insert caller target p => exact (forthright_insert hc).map _
  | bulkInsert caller target ps => exact (forthright_bulkInsert hc).map _
  | update caller target q changes => exact (forthright_update hc).map _
  | delete caller target q => exact (forthright_delete hc).map _
  | setPreferred caller sub id => exact (forthright_setPreferred hc).map _
  | clearPreferred caller sub => exact forthright_clearPreferred.map _
  | restoreToDefault caller sub => exact (forthright_restoreToDefault hc).map _
  | setEnforced caller value => exact forthright_setEnforced.map _
  | _ => exact hr.elim

/-- **A failed call leaves no trace, and a silent call changes nothing**: a request that fails posts no
notice, and if no notice is posted, then the table with its next id, the preferred rows and the
enforcement flag are as before. So it is for a table in memory, whatever its rows and keys, and for a
table that fails on schedule, if nobody else tampers with it. -/
theorem Request.silent_of_failed_unchanged_of_silent (setup : Setup) (r : Request)
    (hr : r.IsAnnounced) :
    (∀ s : State Table,
      ((∃ e, ((r.action setup).perform s).1 = .error e) → (r.after setup s).board = s.board) ∧
      ((r.after setup s).board = s.board → (r.after setup s).store = s.store ∧
        (r.after setup s).preferences = s.preferences ∧ (r.after setup s).enforced = s.enforced)) ∧
    (∀ s : State Rehearsal, s.store.intrusions = [] →
      ((∃ e, ((r.action setup).perform s).1 = .error e) → (r.after setup s).board = s.board) ∧
      ((r.after setup s).board = s.board → (r.after setup s).store.table = s.store.table ∧
        (r.after setup s).preferences = s.preferences ∧ (r.after setup s).enforced = s.enforced)) := by
  constructor
  · intro s
    have hforth := r.forthright allOrNothing_table setup hr
    refine ⟨?_, fun hboard => ?_⟩
    · rintro ⟨e, he⟩
      exact hforth.failed s e _ (Prod.ext he rfl)
    · have hsame := hforth.silent s _ _ rfl hboard
      exact ⟨hsame.store, hsame.preferences, hsame.enforced⟩
  · intro s hundisturbed
    have hforth := r.forthright allOrNothing_rehearsal setup hr
    refine ⟨?_, fun hboard => ?_⟩
    · rintro ⟨e, he⟩
      exact hforth.failed s e _ (Prod.ext he rfl)
    · have hsame := hforth.silent s _ _ rfl hboard
      exact ⟨Rehearsal.table_of_own?_eq hundisturbed hsame.store, hsame.preferences, hsame.enforced⟩

/-- An update that would make one row hit two others fails, and so does a restore on a store that fails
as often as it is tried. -/
theorem silent_of_failed_web :
    let t : Table := .ofProfiles [{ apn := "web" }, { apn := "mms" }, { apn := "mms" }]
    let s : State Table := .initial {} t
    let update : Request := .update .system (.table .general none)
      (.equals .apn (.text "web")) { apn := some "mms" }
    let lost : Error := .reported .transient "lost"
    let r : State Rehearsal := .initial {} ({ table := t : Rehearsal }.failing .apply lost 3)
    let restore : Request := .restoreToDefault .system ⟨1⟩
    ((update.action {}).perform s).1 = .error (.ambiguousKey 2 "mms" "") ∧
      (update.after {} s).board = s.board ∧ (update.after {} s).store = t ∧
      ((restore.action {}).perform r).1 = .error lost ∧
      (restore.after {} r).board = r.board ∧ (restore.after {} r).store.table = t := by
  intro t s update lost r restore
  have hupdate : ((update.action {}).perform s).1 = .error (.ambiguousKey 2 "mms" "") := by
    decide +kernel
  have hrestore : ((restore.action {}).perform r).1 = .error lost := by decide +kernel
  have hs := (Request.silent_of_failed_unchanged_of_silent {} update trivial).1 s
  have hr := (Request.silent_of_failed_unchanged_of_silent {} restore trivial).2 r rfl
  have hsboard := hs.1 ⟨_, hupdate⟩
  have hrboard := hr.1 ⟨_, hrestore⟩
  exact ⟨hupdate, hsboard, (hs.2 hsboard).1, hrestore, hrboard, (hr.2 hrboard).1⟩

end Registry

end ApnRegistry
