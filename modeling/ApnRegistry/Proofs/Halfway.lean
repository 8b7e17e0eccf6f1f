import ApnRegistry.Proofs.Integrity
import ApnRegistry.Proofs.QueryOutcome

/-!
# Modern form that is left halfway

Rows are put into modern form one by one, each with a batch of its own. Where keys are not distinct, a
row may fail, as its modern form hits several rows; the rows before it have been rewritten by then, and
stay so. So a call that fails like this leaves the table as it was only if the first row that waits is
the one that fails.

Results:
* `Table.exists_refresh_error_iff`: the rows that fail.
* `Table.refreshAll_eq_iff`: when the rows before it leave no trace.
* `Registry.Request.store_after_eq_iff_of_failed`: requests that put rows into modern form and fail.
-/

namespace ApnRegistry

open Collision LegacyCodes

namespace Table

variable {known : List String} {t : Table} {id : RowId} {row : Profile}

/-- **The rows that fail** are the ordinary ones that wait and whose modern form hits several rows. -/
theorem exists_refresh_error_iff (hv : t.Valid) (hid : row.id = some id) (hg : t.get? id = some row) :
    (∃ e, t.refresh known row = .error e) ↔ (pending known row).isSome = true ∧ row.owner = .others ∧
      2 ≤ (hits (modernized known row) t.rows.profiles).length := by
  have ok_ne {r : Bool × Table} : ¬∃ e, (Except.ok r : Except Error (Bool × Table)) = .error e := by
    rintro ⟨e, h⟩
    cases h
  cases hp : pending known row with
  | none =>
    simp only [refresh, hp]
    exact iff_of_false ok_ne fun h => Bool.false_ne_true h.1
  | some modern =>
    simp only [refresh, hp, modernized_of_some hp, Option.isSome_some, true_and]
    by_cases hone : (hits modern t.rows.profiles).length ≤ 1
    · obtain ⟨done, t', h⟩ := @exists_modernize t row modern hv hone
      rw [h]
      exact iff_of_false ok_ne fun hmany => by omega
    · cases ho : row.owner with
      | dpc =>
        have hne : hits modern t.rows.profiles ≠ [] := fun hnil => hone (by rw [hnil]; exact Nat.zero_le 1)
        rw [modernize_of_dpc hid hg ho hne]
        exact iff_of_false ok_ne fun hmany => Owner.noConfusion hmany.1
      | others =>
        rcases hh : hits modern t.rows.profiles with _ | ⟨hit, _ | ⟨other, more⟩⟩
        · exact absurd (by rw [hh]; exact Nat.zero_le 1) hone
        · exact absurd (by rw [hh]; exact Nat.le_refl 1) hone
        · rw [modernize_of_many hid hg ho hh]
          exact iff_of_true ⟨_, rfl⟩ ⟨rfl, by simp⟩

/-- **Rows leave no trace iff the first one that waits fails.** They are as they are stored. -/
theorem refreshAll_eq_iff (known : List String) (hv : t.Valid) {found : List Profile}
    (hlive : ∀ p ∈ found, ∃ id, p.id = some id ∧ t.get? id = some p) :
    (refreshAll known found t).2 = t ↔
      ∀ p, found.find? (fun p => (pending known p).isSome) = some p →
        ∃ e, t.refresh known p = .error e := by
  induction found with
  | nil =>
    refine iff_of_true rfl fun p h => ?_
    cases h
  | cons row found ih =>
    cases hp : pending known row with
    | none =>
      have hrow : t.refresh known row = .ok (false, t) := by rw [refresh, hp]
      rw [refreshAll_cons_of_ok hrow, List.find?_cons_of_neg (by rw [hp]; exact Bool.false_ne_true)]
      exact ih fun p hm => hlive p (List.mem_cons_of_mem row hm)
    | some modern =>
      have hwaits : (pending known row).isSome = true := by rw [hp, Option.isSome_some]
      rw [List.find?_cons_of_pos (p := fun p => (pending known p).isSome) hwaits]
      cases hr : t.refresh known row with
      | error e =>
        rw [refreshAll_cons_of_error hr]
        refine iff_of_true rfl fun p heq => ⟨e, ?_⟩
        rw [← Option.some.inj heq, hr]
      | ok r =>
        obtain ⟨done, t₁⟩ := r
        obtain ⟨id, hid, hg⟩ := hlive row List.mem_cons_self
        refine iff_of_false (fun heq => ?_) fun h => ?_
        · -- The row waits no more once it is rewritten, and no row that follows brings it back.
          have hlast : (refreshAll known found t₁).2.get? id = some row := by
            rw [refreshAll_cons_of_ok hr] at heq
            rw [show (refreshAll known found t₁).2 = t from heq, hg]
          have hv₁ := (moves_of_refresh hv hr).valid hv
          have hg₁ := (refreshed_refreshAll known found hv₁).waits id row hwaits hlast
          have hgone := (waits_of_refresh hv (fun _ => ⟨id, hid, hg⟩) hr).2 id row hwaits
          exact (hgone.mp hg₁).1 rfl
        · obtain ⟨e, he⟩ := h row rfl
          rw [hr] at he
          cases he

end Table

namespace Registry

open Table

variable {setup : Setup} {s : State Table} {r : Request} {e : Error}

/-- The request puts stored rows into modern form, in this registry. -/
def Request.Modernizes (setup : Setup) : Request → Prop
  | .migrateAll _ => True
  | .query .. => setup.config.lazyMccMncMigration = true
  | _ => False

/-- The rows that such a request goes over, in this order: those of the partition that a query gets, and
all rows for a caller that may write them. -/
def Request.visited (setup : Setup) (s : State Table) : Request → List Profile
  | .migrateAll caller => if caller.canWrite then s.store.rows.profiles else []
  | .query caller target _ order =>
    match partitionFor setup caller target .query s.enforced with
    | .ok partition => s.store.scan partition.predicate order
    | .error _ => []
  | _ => []

theorem Request.live_of_mem_visited (hv : s.store.Valid) {p : Profile} (hp : p ∈ r.visited setup s) :
    ∃ id, p.id = some id ∧ s.store.get? id = some p := by
  cases r with
  | migrateAll caller =>
    simp only [visited] at hp
    split_ifs at hp
    · exact hv.mem_profiles_iff.mp hp
    · cases hp
  | query caller target q order =>
    simp only [visited] at hp
    split at hp
    · exact hv.mem_profiles_iff.mp (mem_scan.mp hp).1
    · cases hp
  | _ => cases hp

/-- A query changes nothing but the rows that it goes over. -/
theorem after_query {caller : Caller} {target : Target} {q : Predicate} {order : Order}
    (hv : s.store.Valid) (hl : setup.config.lazyMccMncMigration = true) :
    (Request.query caller target q order).after setup s = { s with store := (refreshAll
      setup.device.known ((Request.query caller target q order).visited setup s) s.store).2 } := by
  rw [Request.after, Request.action, Action.perform_map]
  cases ha : partitionFor setup caller target .query s.enforced with
  | error e =>
    rw [perform_query_of_error ha]
    simp only [Request.visited, ha, refreshAll]
  | ok partition =>
    rw [perform_query ha, Action.perform_map, perform_currentRows_of_lazy hv hl]
    simp only [Request.visited, ha]
    rcases refreshAll setup.device.known (s.store.scan partition.predicate order) s.store with
      ⟨e | n, t⟩
    · rfl
    · rfl

theorem perform_migrateAll_of_not_canWrite {caller : Caller} (hw : caller.canWrite = false) :
    ((migrateAll setup caller).perform s).2 = s := by
  rw [migrateAll, Action.perform_bind, perform_authorize]
  cases ha : setup.policy.authorize caller .general .update s.enforced with
  | error e => rfl
  | ok partition =>
    rw [(Policy.authorize_eq_ok.mp ha).2.1 rfl rfl] at hw
    cases hw

/-- Going over the whole table changes nothing but the rows, if it fails. -/
theorem after_migrateAll_of_failed {caller : Caller} (hv : s.store.Valid)
    (he : (((Request.migrateAll caller).action setup).perform s).1 = .error e) :
    (Request.migrateAll caller).after setup s = { s with store := (refreshAll
      setup.device.known ((Request.migrateAll caller).visited setup s) s.store).2 } := by
  rw [Request.after]
  rw [Request.action, Action.perform_map] at he ⊢
  cases hw : caller.canWrite with
  | false =>
    rw [perform_migrateAll_of_not_canWrite hw, Request.visited, hw]
    rfl
  | true =>
    rw [perform_migrateAll hv hw] at he ⊢
    rw [Request.visited, if_pos hw]
    rcases hall : refreshAll setup.device.known s.store.rows.profiles s.store with ⟨e' | n, t⟩
    · rw [announcing, Action.perform_bind, Action.perform_onStore, hall]
    · have hperform : (onStore (refreshAll setup.device.known s.store.rows.profiles)).perform s =
          (.ok n, { s with store := t }) := by
        rw [Action.perform_onStore, hall]
      rw [perform_announcing hperform] at he
      cases he

/-- **What a failed request leaves**: the rows that it goes over in modern form, up to the one that
fails. -/
theorem Request.after_of_failed (hv : s.store.Valid) (hm : r.Modernizes setup)
    (he : ((r.action setup).perform s).1 = .error e) : r.after setup s =
      { s with store := (refreshAll setup.device.known (r.visited setup s) s.store).2 } := by
  cases r with
  | migrateAll caller => exact after_migrateAll_of_failed hv he
  | query caller target q order => exact after_query hv hm
  | _ => exact hm.elim

/-- **A failed request may have rewritten rows.** A request that puts stored rows into modern form and
fails changes nothing but the table; and it leaves the table as it was iff the first row that waits,
among those that it goes over, is an ordinary one and the one that fails, as the key of its modern form
is that of several other rows. -/
theorem Request.store_after_eq_iff_of_failed (setup : Setup) (r : Request) (s : State Table) (e : Error)
    (hv : s.store.Valid) (hm : r.Modernizes setup) (he : ((r.action setup).perform s).1 = .error e) :
    r.after setup s = { s with store := (r.after setup s).store } ∧
      ((r.after setup s).store = s.store ↔
        ∀ p, (r.visited setup s).find? (fun p => (pending setup.device.known p).isSome) = some p →
          p.owner = .others ∧
            2 ≤ (hits (modernized setup.device.known p) s.store.rows.profiles).length) := by
  have hafter := r.after_of_failed hv hm he
  rw [hafter]
  refine ⟨rfl, (refreshAll_eq_iff setup.device.known hv fun p => r.live_of_mem_visited hv).trans ?_⟩
  refine forall_congr' fun p => imp_congr_right fun hp => ?_
  obtain ⟨id, hid, hg⟩ := r.live_of_mem_visited hv (List.mem_of_find?_eq_some hp)
  exact (exists_refresh_error_iff hv hid hg).trans (and_iff_right (List.find?_some
    (p := fun p => (pending setup.device.known p).isSome) hp))

/-- A table in which a row with integer codes comes before another one, whose modern form hits two
rows. -/
def crowded : Table :=
  let codes : Profile := { legacyMcc := some 999, legacyMnc := some 5 }
  .ofProfiles [{ codes with apn := "mms" },
    { apn := "web", mcc := "999", mnc := "05", numeric := "99905" },
    { apn := "web", mcc := "999", mnc := "05", numeric := "99905" }, { codes with apn := "web" }]

/-- A query from the last row on leaves the table as it was, a query from the first one does not. -/
theorem store_after_eq_iff_of_failed_crowded :
    let s : State Table := .initial {} crowded
    let query (order : Order) : Request := .query .system (.table .general none) .always order
    let e : Error := .ambiguousKey 2 "web" "99905"
    (((query .idDescending).action {}).perform s).1 = .error e ∧
      ((query .idDescending).after {} s).store = crowded ∧
      (((query .idAscending).action {}).perform s).1 = .error e ∧
      ((query .idAscending).after {} s).store ≠ crowded := by
  intro s query e
  have hdown : (((query .idDescending).action {}).perform s).1 = .error e := by decide +kernel
  have hup : (((query .idAscending).action {}).perform s).1 = .error e := by decide +kernel
  refine ⟨hdown, ?_, hup, ?_⟩
  · exact (Request.store_after_eq_iff_of_failed {} (query .idDescending) s e (.ofProfiles _) rfl
      hdown).2.mpr (by decide +kernel)
  · exact (mt (Request.store_after_eq_iff_of_failed {} (query .idAscending) s e (.ofProfiles _) rfl
      hup).2.mp) (by decide +kernel)

/-- **A failed request need not leave the table as it was**, not even where all rows are gone over at
once. -/
theorem not_forall_store_after_eq_of_failed : ¬∀ (setup : Setup) (r : Request) (s : State Table)
    (e : Error), s.store.Valid → r.Modernizes setup → ((r.action setup).perform s).1 = .error e →
      (r.after setup s).store = s.store := by
  intro hall
  have hsame := hall {} (.migrateAll .system) (.initial {} crowded) (.ambiguousKey 2 "web" "99905")
    (.ofProfiles _) trivial (by decide +kernel)
  exact absurd hsame (by decide +kernel)

end Registry

end ApnRegistry
