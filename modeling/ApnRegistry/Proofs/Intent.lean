import ApnRegistry.Proofs.BulkInsert
import ApnRegistry.Proofs.Confinement
import ApnRegistry.Proofs.Migration
import ApnRegistry.Proofs.QueryOutcome

/-!
# Recorded intent outlives unedited inserts

A row that was edited or deleted by hand stands for what somebody wanted. Factory lists are loaded over
and over again as unedited profiles, and these must not undo it.

A profile is put into modern form before it is entered, and an unedited one then only renames a row with
recorded intent. So the table stays in modern form, and no row is ever moved by going over it: neither by
a query nor by `migrateAll`. Where some row does wait, its modern form may still land on another one,
which is why the table has to be in modern form at first.

Results:
* `Table.Remembers`: one row, any number of rows (`Table.remembers_enterAll`), and a request
  (`Request.remembers`).
* `remembers_run`: any run of routine requests (`Request.IsRoutine`).
* `intent_outlives_run`: what becomes of one row with recorded intent.
-/

namespace ApnRegistry

open LegacyCodes Collision

namespace Table

variable {known : List String} {t t' t'' : Table} {p : Profile} {id : RowId} {o : Option RowId}
  {ids : List (Option RowId)}

/-- The later table is in modern form, and has every row with recorded intent of the earlier one, under
the same id, with the same content but for its name and its service types. -/
structure Remembers (known : List String) (t t' : Table) : Prop where
  modern : AllModern known t'.rows.profiles
  intent : ∀ id p, t.get? id = some p → p.status ≠ .unedited →
    ∃ name types, t'.get? id = some { p with name := name, apnTypes := types }

namespace Remembers

theorem refl (h : AllModern known t.rows.profiles) : Remembers known t t where
  modern := h
  intent := fun _ p hg _ => ⟨p.name, p.apnTypes, hg⟩

theorem trans (h : Remembers known t t') (h' : Remembers known t' t'') : Remembers known t t'' where
  modern := h'.modern
  intent := fun id p hg hs => by
    obtain ⟨name', types', hg'⟩ := h.intent id p hg hs
    obtain ⟨name, types, hg''⟩ := h'.intent id { p with name := name', apnTypes := types' } hg' hs
    exact ⟨name, types, hg''⟩

end Remembers

/-! ## Rows that are entered -/

/-- Rows in modern form stay so when one is put among them. -/
theorem allModern_put {rows : Rows} {q : Profile} (hm : AllModern known rows.profiles)
    (hq : pending known q = none) : AllModern known (rows.put id q).profiles := by
  intro r hr
  obtain ⟨e, he, rfl⟩ := List.mem_map.mp hr
  rcases Rows.mem_put he with rfl | he
  · exact hq
  · exact hm e.2 (List.mem_map_of_mem he)

/-- **A profile in modern form** that is entered leaves no row that waits. -/
theorem allModern_enter (hv : t.Valid) (hm : AllModern known t.rows.profiles) (hid : p.id = none)
    (hp : pending known p = none) (h : t.enter p = .ok (o, t')) : AllModern known t'.rows.profiles := by
  cases entry_of_enter hv hid h with
  | fresh =>
    refine allModern_put hm ?_
    rw [pending_eq_none_iff] at hp ⊢
    exact hp
  | rejected => exact hm
  | merged _ there => exact allModern_put hm (pending_mergeOnto (hm _ (hv.mem_profiles there)) hp)

/-- **An unedited profile in modern form** is entered: a row with recorded intent keeps it. -/
theorem remembers_enter (hv : t.Valid) (hm : AllModern known t.rows.profiles) (hid : p.id = none)
    (hp : pending known p = none) (hs : p.status = .unedited) (h : t.enter p = .ok (o, t')) :
    Remembers known t t' where
  modern := allModern_enter hv hm hid hp h
  intent := fun other q hg hq => by
    cases entry_of_enter hv hid h with
    | fresh =>
      have hne : other ≠ ⟨t.nextId⟩ := by
        rintro rfl
        exact Nat.lt_irrefl _ (hv.lt_nextId hg)
      exact ⟨q.name, q.apnTypes, by rw [get?_push, if_neg hne, hg]⟩
    | rejected => exact ⟨q.name, q.apnTypes, hg⟩
    | @merged id row _ there _ =>
      by_cases ho : other = id
      · subst ho
        obtain rfl : row = q := Option.some.inj (there.symm.trans hg)
        exact ⟨_, _, by rw [get?_set, if_pos rfl, mergeOnto_of_intent hq hs]⟩
      · exact ⟨q.name, q.apnTypes, by rw [get?_set, if_neg ho, hg]⟩

theorem allModern_enterAll {ps : List Profile} (hv : t.Valid) (hm : AllModern known t.rows.profiles)
    (hps : ∀ p ∈ ps, p.id = none ∧ pending known p = none) (h : t.enterAll ps = .ok (ids, t')) :
    AllModern known t'.rows.profiles :=
  (enterAll_induction (P := fun t => t.Valid ∧ AllModern known t.rows.profiles) ⟨hv, hm⟩
    (fun p hp _ _ _ ⟨hv, hm⟩ h => ⟨(moves_of_enter hv (hps p hp).1 h).valid hv,
      allModern_enter hv hm (hps p hp).1 (hps p hp).2 h⟩) h).2

theorem remembers_enterAll {ps : List Profile} (hv : t.Valid) (hm : AllModern known t.rows.profiles)
    (hps : ∀ p ∈ ps, p.id = none ∧ pending known p = none ∧ p.status = .unedited)
    (h : t.enterAll ps = .ok (ids, t')) : Remembers known t t' :=
  (enterAll_induction (P := fun t' => t'.Valid ∧ Remembers known t t') ⟨hv, .refl hm⟩
    (fun p hp _ _ _ ⟨hv, hr⟩ h => by
      obtain ⟨hid, hmod, hs⟩ := hps p hp
      exact ⟨(moves_of_enter hv hid h).valid hv, hr.trans (remembers_enter hv hr.modern hid hmod hs h)⟩)
    h).2

end Table

namespace Registry

open Table

variable {setup : Setup} {caller : Caller} {target : Target} {q : Predicate} {order : Order}
  {p : Profile} {ps : List Profile} {sub : Subscription} {s : State Table}

/-! ## Inserts -/

theorem remembers_insertProfiles (hv : s.store.Valid)
    (hm : AllModern setup.device.known s.store.rows.profiles) (hps : ∀ p ∈ ps, p.status = .unedited) :
    Remembers setup.device.known s.store
      ((insertProfiles setup caller target ps).perform s).2.store := by
  rcases store_of_perform_insertProfiles setup caller target ps hv with
    heq | ⟨partition, subscription, ids, -, hall⟩
  · rw [heq]
    exact .refl hm
  · refine remembers_enterAll hv hm (fun q hq => ?_) hall
    obtain ⟨p, hp, rfl⟩ := List.mem_map.mp hq
    exact ⟨id_normalized .., pending_modernized .., (status_modernized ..).trans (hps p hp)⟩

/-- All profiles that are inserted are in modern form. -/
theorem allModern_insertProfiles (hv : s.store.Valid)
    (hm : AllModern setup.device.known s.store.rows.profiles) :
    AllModern setup.device.known
      ((insertProfiles setup caller target ps).perform s).2.store.rows.profiles := by
  rcases store_of_perform_insertProfiles setup caller target ps hv with
    heq | ⟨partition, subscription, ids, -, hall⟩
  · rw [heq]
    exact hm
  · refine allModern_enterAll hv hm (fun q hq => ?_) hall
    obtain ⟨p, -, rfl⟩ := List.mem_map.mp hq
    exact ⟨id_normalized .., pending_modernized ..⟩

/-- A call that goes on without the store leaves it to the call before. -/
theorem store_perform_bind {α β : Type} {a : Action Table α} {f : α → Action Table β}
    (hf : ∀ x s, ((f x).perform s).2.store = s.store) :
    ((a >>= f).perform s).2.store = (a.perform s).2.store := by
  rw [Action.perform_bind]
  rcases a.perform s with ⟨e | x, s'⟩
  · rfl
  · exact hf x s'

theorem store_insert : ((insert setup caller target p).perform s).2.store =
    ((insertProfiles setup caller target [p]).perform s).2.store := by
  refine store_perform_bind fun ids s => ?_
  show ((if ids.head?.join.isSome then _ else _ : Action Table _).perform s).2.store = s.store
  split_ifs <;> rfl

theorem store_bulkInsert : ((bulkInsert setup caller target ps).perform s).2.store =
    ((insertProfiles setup caller target ps).perform s).2.store := by
  refine store_perform_bind fun ids s => ?_
  show ((if 0 < ids.countP (·.isSome) then _ else _ : Action Table _).perform s).2.store = s.store
  split_ifs <;> rfl

/-! ## Calls on a table in modern form -/

theorem state_query_of_modern (hv : s.store.Valid)
    (hm : AllModern setup.device.known s.store.rows.profiles) :
    ((query setup caller target q order).perform s).2 = s := by
  cases ha : partitionFor setup caller target .query s.enforced with
  | error e => rw [perform_query_of_error ha]
  | ok partition =>
    rw [perform_query_of_modern hv ha fun _ p hp => hm p (mem_scan_predicate.mp hp).1]

/-- Calls that leave the state as it is, one after the other. -/
theorem state_perform_bind {α β : Type} {a : Action Table α} {f : α → Action Table β}
    (ha : (a.perform s).2 = s) (hf : ∀ x, ((f x).perform s).2 = s) :
    ((a >>= f).perform s).2 = s := by
  rw [Action.perform_bind]
  rcases h : a.perform s with ⟨e | x, s'⟩ <;> rw [h] at ha
  · exact ha
  · obtain rfl : s' = s := ha
    exact hf x

theorem state_apnSet_of_modern (hv : s.store.Valid)
    (hm : AllModern setup.device.known s.store.rows.profiles) :
    ((apnSet setup caller sub).perform s).2 = s := by
  refine state_perform_bind (state_query_of_modern hv hm) fun found => state_perform_bind ?_ fun _ => rfl
  rw [perform_preferred]

theorem state_simApnList_of_modern (hv : s.store.Valid)
    (hm : AllModern setup.device.known s.store.rows.profiles) :
    ((simApnList setup caller sub).perform s).2 = s := by
  rw [simApnList_eq]
  exact state_perform_bind (state_query_of_modern hv hm) fun _ => rfl

theorem state_migrateAll_of_modern (hv : s.store.Valid)
    (hm : AllModern setup.device.known s.store.rows.profiles) :
    ((migrateAll setup caller).perform s).2 = s := by
  cases ha : setup.policy.authorize caller .general .update s.enforced with
  | error e => rw [migrateAll, Action.perform_bind, perform_authorize, ha]
  | ok partition =>
    have hw : caller.canWrite = true := (Policy.authorize_eq_ok.mp ha).2.1 rfl rfl
    rw [perform_migrateAll_of_modern hv hw hm]

/-! ## Requests and runs -/

/-- The request is routine: it inserts unedited profiles, or it is one of the calls that put rows into
modern form. -/
def Request.IsRoutine : Request → Prop
  | .insert _ _ p => p.status = .unedited
  | .bulkInsert _ _ ps => ∀ p ∈ ps, p.status = .unedited
  | .query .. | .apnSet .. | .simApnList .. | .migrateAll .. => True
  | .update .. | .delete .. | .preferred .. | .setPreferred .. | .clearPreferred ..
  | .restoreToDefault .. | .enforced .. | .setEnforced .. => False

/-- **One request.** -/
theorem Request.remembers (r : Request) (hr : r.IsRoutine) (hv : s.store.Valid)
    (hm : AllModern setup.device.known s.store.rows.profiles) :
    Remembers setup.device.known s.store (r.after setup s).store := by
  rw [Request.after]
  cases r with
  | insert caller target p =>
    rw [Request.action, Action.perform_map, store_insert]
    exact remembers_insertProfiles hv hm fun q hq => List.mem_singleton.mp hq ▸ hr
  | bulkInsert caller target ps =>
    rw [Request.action, Action.perform_map, store_bulkInsert]
    exact remembers_insertProfiles hv hm hr
  | query caller target q order =>
    rw [Request.action, Action.perform_map, state_query_of_modern hv hm]
    exact .refl hm
  | apnSet caller sub =>
    rw [Request.action, Action.perform_map, state_apnSet_of_modern hv hm]
    exact .refl hm
  | simApnList caller sub =>
    rw [Request.action, Action.perform_map, state_simApnList_of_modern hv hm]
    exact .refl hm
  | migrateAll caller =>
    rw [Request.action, Action.perform_map, state_migrateAll_of_modern hv hm]
    exact .refl hm
  | _ => exact hr.elim

/-- **Any run of routine requests.** -/
theorem remembers_run (setup : Setup) : ∀ (requests : List Request) {s : State Table}, s.store.Valid →
    AllModern setup.device.known s.store.rows.profiles → (∀ r ∈ requests, r.IsRoutine) →
    Remembers setup.device.known s.store (run setup requests s).store
  | [], _, _, hm, _ => .refl hm
  | r :: requests, _, hv, hm, hr => by
    have hone := r.remembers (hr r List.mem_cons_self) hv hm
    rw [run_cons]
    exact hone.trans (remembers_run setup requests (valid_after r setup hv) hone.modern
      fun r' hr' => hr r' (List.mem_cons_of_mem r hr'))

/-- **Recorded intent outlives routine requests**: if no row waits at first, then every row that was
edited or deleted by hand is still there after the run, under the same id, with the same status and all
the rest of its content but for its name and its service types. A tombstone stays hidden. -/
theorem intent_outlives_run (setup : Setup) (requests : List Request) (s : State Table)
    (hv : s.store.Valid) (hm : AllModern setup.device.known s.store.rows.profiles)
    (hr : ∀ r ∈ requests, r.IsRoutine) (id : RowId) (p : Profile) (hg : s.store.get? id = some p)
    (hp : p.status ≠ .unedited) :
    ∃ q, (run setup requests s).store.get? id = some q ∧
      (∃ name types, q = { p with name := name, apnTypes := types }) ∧ q.isVisible = p.isVisible := by
  obtain ⟨name, types, hget⟩ := (remembers_run setup requests hv hm hr).intent id p hg hp
  exact ⟨_, hget, ⟨name, types, rfl⟩, rfl⟩

/-- A profile with integer codes lands on a tombstone, which gets its name and stays hidden. -/
theorem intent_outlives_run_tombstone :
    let row : Profile := { apn := "web", numeric := "99905", mcc := "999", mnc := "05" }
    let gone : Profile := { row with id := some ⟨1⟩, status := .userDeleted }
    let s : State Table := .initial {} (.ofProfiles [gone])
    let requests : List Request :=
      [.bulkInsert .system (.table .general none) [{ row with
        name := "Web", mcc := "", mnc := "", legacyMcc := some 999, legacyMnc := some 5 }],
      .query .system (.table .general none) .always .idAscending, .migrateAll .system]
    AllModern (Setup.device {}).known s.store.rows.profiles ∧ (∀ r ∈ requests, r.IsRoutine) ∧
      s.store.get? ⟨1⟩ = some gone ∧ gone.status ≠ .unedited ∧
      ∃ q, (run {} requests s).store.get? ⟨1⟩ = some q ∧
        (∃ name types, q = { gone with name := name, apnTypes := types }) ∧ q.isVisible = false := by
  intro row gone s requests
  have hm : AllModern (Setup.device {}).known s.store.rows.profiles := by decide
  have hr : ∀ r ∈ requests, r.IsRoutine := by simp [requests, row, Request.IsRoutine]
  have hg : s.store.get? ⟨1⟩ = some gone := by decide
  have hs : gone.status ≠ .unedited := by decide
  exact ⟨hm, hr, hg, hs, intent_outlives_run {} requests s (.ofProfiles _) hm hr ⟨1⟩ gone hg hs⟩

end Registry

end ApnRegistry
