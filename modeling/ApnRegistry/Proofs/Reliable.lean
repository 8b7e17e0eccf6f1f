import ApnRegistry.Proofs.Delivery
import ApnRegistry.Proofs.Integrity
import ApnRegistry.Proofs.PolicyUpdate
import ApnRegistry.Proofs.QueryOutcome

/-!
# A table with distinct keys never fails a request

Where keys are distinct, a profile hits one row at most, so every collision can be mended, by merging or
by turning a policy row away. Keys stay distinct from row to row of one call, and rows are locked at the
first attempt. What is left are failures that are for the caller (`Request.Excused`): it may not do this,
or the request makes no sense, or it would run a pattern that is refused.

None of these is the failure of a batch, and where a batch is turned down, the call fails with the failure
of the batch (`Request.delivers`). So the table accepts every batch that it is sent.

Results:
* `Table.exists_enterAll`, `Table.exists_updateWhere`, `Table.exists_seeded`: what succeeds on such a
  table (`Table.exists_refreshAll` for rows that are put into modern form).
* `Request.failsOnly`: how requests fail, but for the one that sets a preferred row.
* `Request.reliable`: how requests fail, and what comes of their batches.
-/

namespace ApnRegistry

open Collision

/-- Comparing a profile with a SIM fails if the engine objects to a pattern. -/
theorem Mvno.exists_of_refusal {engine : Engine} {p : Profile} {sim : Sim} {e : Error}
    (h : refusal engine p sim = some e) :
    ∃ pattern reason, engine pattern = some reason ∧ e = .refusedPattern pattern reason := by
  unfold refusal at h
  split at h
  · split at h
    · obtain ⟨reason, hr, rfl⟩ := Option.map_eq_some_iff.mp h
      exact ⟨p.mvnoData, reason, hr, rfl⟩
    · cases h
  · cases h

theorem Selection.exists_of_refusal {engine : Mvno.Engine} {found : List Profile} {sim : Sim} {e : Error}
    (h : refusal engine found sim = some e) :
    ∃ pattern reason, engine pattern = some reason ∧ e = .refusedPattern pattern reason := by
  unfold refusal at h
  split at h
  · cases h
  · obtain ⟨p, -, hp⟩ := List.exists_of_findSome?_eq_some h
    exact Mvno.exists_of_refusal hp

theorem Restore.exists_of_refusal {engine : Mvno.Engine} {rows factory : List Profile} {extent : Extent}
    {e : Error} (h : refusal engine rows factory extent = some e) :
    ∃ pattern reason, engine pattern = some reason ∧ e = .refusedPattern pattern reason := by
  rw [refusal, Option.or_eq_some_iff] at h
  rcases h with h | ⟨-, h⟩
  · obtain ⟨p, -, hp⟩ := List.exists_of_findSome?_eq_some h
    unfold Extent.refusalOfRow at hp
    split at hp
    · cases hp
    · split at hp
      · exact Mvno.exists_of_refusal hp
      · cases hp
  · obtain ⟨p, -, hp⟩ := List.exists_of_findSome?_eq_some h
    unfold Extent.refusalOfDefault at hp
    split at hp
    · exact Mvno.exists_of_refusal hp
    · cases hp

namespace Restore

/-- Where a seed hits one surviving row at most, it is placed. -/
theorem Seeding.exists_place {survivors : List Profile} (p : Profile) (s : Seeding)
    (hone : (hits p survivors).length ≤ 1) : ∃ s', s.place survivors p = .ok s' := by
  unfold Seeding.place
  cases placeOf s.waiting p with
  | some i => exact ⟨_, rfl⟩
  | none =>
    rcases Nat.le_one_iff_eq_zero_or_eq_one.mp hone with hnone | hone
    · rw [resolve_of_nil (List.eq_nil_of_length_eq_zero hnone)]
      exact ⟨_, rfl⟩
    · obtain ⟨row, hh⟩ := List.length_eq_one_iff.mp hone
      rw [resolve_of_singleton hh]
      rcases snd_mergeOnto row p with ho | ho
      · rw [ho]
        exact ⟨_, rfl⟩
      · rw [ho]
        exact ⟨_, rfl⟩

theorem Seeding.exists_foldlM_place {survivors : List Profile}
    (hone : ∀ p, (hits p survivors).length ≤ 1) :
    ∀ (ps : List Profile) (s : Seeding), ∃ s', ps.foldlM (Seeding.place survivors) s = .ok s'
  | [], s => ⟨s, rfl⟩
  | p :: ps, s => by
    obtain ⟨s₁, h⟩ := s.exists_place p (hone p)
    obtain ⟨s₂, hall⟩ := exists_foldlM_place hone ps s₁
    refine ⟨s₂, ?_⟩
    rw [List.foldlM_cons, h]
    exact hall

end Restore

/-! ## Distinct keys -/

namespace Table

variable {t : Table} {p : Profile}

/-- **A profile hits no row, or one.** -/
theorem hits_cases (hv : t.Valid) (hk : t.KeysUnique) (p : Profile) :
    hits p t.rows.profiles = [] ∨
      ∃ row id, hits p t.rows.profiles = [row] ∧ row.id = some id := by
  rcases Nat.le_one_iff_eq_zero_or_eq_one.mp (hv.length_hits_le_one hk p) with hnone | hone
  · exact Or.inl (List.eq_nil_of_length_eq_zero hnone)
  · obtain ⟨row, hh⟩ := List.length_eq_one_iff.mp hone
    obtain ⟨id, hrow, -⟩ := hv.exists_of_mem_hits (hh ▸ List.mem_singleton_self row)
    exact Or.inr ⟨row, id, hh, hrow⟩

theorem exists_enter (hv : t.Valid) (hk : t.KeysUnique) (hid : p.id = none) :
    ∃ o t', t.enter p = .ok (o, t') := by
  rcases hits_cases hv hk p with hh | ⟨row, id, hh, hrow⟩
  · exact ⟨_, _, enter_of_new hid hh⟩
  · cases ho : p.owner with
    | dpc => exact ⟨_, _, enter_of_rejected ho (by rw [hh]; exact List.cons_ne_nil _ _)⟩
    | others => exact ⟨_, _, enter_of_hit ho hh hrow⟩

/-- Profiles are inserted. -/
theorem exists_enterAll : ∀ {ps : List Profile} {t : Table}, t.Valid → t.KeysUnique →
    (∀ p ∈ ps, p.id = none) → ∃ ids t', t.enterAll ps = .ok (ids, t')
  | [], t, _, _, _ => ⟨[], t, rfl⟩
  | p :: ps, t, hv, hk, hid => by
    obtain ⟨o, t₁, h⟩ := exists_enter hv hk (hid p List.mem_cons_self)
    have hm := moves_of_enter hv (hid p List.mem_cons_self) h
    obtain ⟨ids, t₂, hall⟩ := exists_enterAll (hm.valid hv) (hm.keysUnique hv hk)
      fun q hq => hid q (List.mem_cons_of_mem p hq)
    exact ⟨_, _, enterAll_cons_of_ok h hall⟩

/-- A row is updated, unless it is a policy row that would collide. -/
theorem revise_cases (changes : Update) (id : RowId) (hv : t.Valid) (hk : t.KeysUnique) :
    (∃ n t', t.revise changes id = .ok (n, t')) ∨
      ∃ e, t.revise changes id = .error e ∧ e.kind = .conflict := by
  cases hp : t.get? id with
  | none => exact Or.inl ⟨_, _, revise_of_none hp⟩
  | some p =>
    rcases hits_cases hv hk (changes.applied p) with hh | ⟨row, other, hh, hrow⟩
    · exact Or.inl ⟨_, _, revise_of_new hp (hv.id_of_get? hp) hh⟩
    · cases ho : p.owner with
      | dpc =>
        obtain ⟨e, he, hkind⟩ := resolveUpdate_of_dpc ho (by rw [hh]; exact List.cons_ne_nil _ _)
        exact Or.inr ⟨e, revise_of_error hp he, hkind⟩
      | others => exact Or.inl ⟨_, _, revise_of_hit hp (hv.id_of_get? hp) ho hh hrow⟩

theorem reviseAll_cases (changes : Update) : ∀ (ids : List RowId) {t : Table}, t.Valid →
    t.KeysUnique → (∃ n t', reviseAll changes ids t = .ok (n, t')) ∨
      ∃ e, reviseAll changes ids t = .error e ∧ e.kind = .conflict
  | [], t, _, _ => Or.inl ⟨0, t, rfl⟩
  | id :: ids, t, hv, hk => by
    rcases revise_cases changes id hv hk with ⟨n, t₁, h⟩ | ⟨e, h, hkind⟩
    · -- The row is revised, or it went before, and keys stay distinct either way.
      have hm : Moves (fun _ => True) t t₁ := by
        cases hp : t.get? id with
        | none =>
          rw [revise_of_none hp] at h
          cases h
          exact Moves.refl _
        | some p => exact (moves_of_revise hv hp h).mono fun _ _ => trivial
      rcases reviseAll_cases changes ids (hm.valid hv) (hm.keysUnique hv hk) with
        ⟨m, t₂, hall⟩ | ⟨e, hall, hkind⟩
      · exact Or.inl ⟨_, _, reviseAll_cons_of_ok h hall⟩
      · exact Or.inr ⟨e, reviseAll_cons_of_error_tail h hall, hkind⟩
    · exact Or.inr ⟨e, reviseAll_cons_of_error ids h, hkind⟩

/-- Rows are updated, or the update is given up. -/
theorem exists_updateWhere (q : Predicate) (changes : Update) (hv : t.Valid) (hk : t.KeysUnique) :
    ∃ n t', t.updateWhere q changes = .ok (n, t') := by
  unfold updateWhere
  rcases reviseAll_cases changes ((t.matching q).filterMap (·.id)) hv hk with
    ⟨n, t', h⟩ | ⟨e, h, hkind⟩
  · rw [h]
    exact ⟨n, t', rfl⟩
  · rw [h]
    exact ⟨0, t, if_pos hkind⟩

/-- Seeds are placed among the rows that a restore leaves. -/
theorem exists_seeded (extent : Restore.Extent) (factory : List Profile) (hv : t.Valid)
    (hk : t.KeysUnique) : ∃ seeding, Restore.Seeded extent factory t.rows.profiles seeding := by
  refine Restore.Seeding.exists_foldlM_place (fun p => ?_) _ _
  have hsub : (hits p (t.rows.profiles.filter (!extent.drops ·))).Sublist (hits p t.rows.profiles) :=
    List.filter_sublist.filter _
  exact Nat.le_trans hsub.length_le (hv.length_hits_le_one hk p)

/-- **A restore fails only if a pattern is refused.** -/
theorem refused_of_restored {engine : Mvno.Engine} {factory : List Profile} {extent : Restore.Extent}
    {e : Error} (hv : t.Valid) (hk : t.KeysUnique) (h : t.restored engine factory extent = .error e) :
    ∃ pattern reason, engine pattern = some reason ∧ e = .refusedPattern pattern reason := by
  cases hr : Restore.refusal engine t.rows.profiles factory extent with
  | some e' =>
    have hp : Restore.prepare engine t.rows.profiles factory extent = .error e' := by
      rw [Restore.prepare, hr]
    rw [restored_of_error hp] at h
    cases h
    exact Restore.exists_of_refusal hr
  | none =>
    obtain ⟨seeding, hs⟩ := exists_seeded extent factory hv hk
    rw [(restored_eq_ok hv).mpr ⟨hr, seeding, hs, rfl, rfl⟩] at h
    cases h

end Table

/-! ## Calls -/

theorem Policy.kind_of_authorize {policy : Policy} {caller : Caller} {scope : Scope} {verb : Verb}
    {enforced : Bool} {e : Error} (h : policy.authorize caller scope verb enforced = .error e) :
    e.kind = .security := by
  unfold authorize at h
  split_ifs at h
  · cases h
    rfl
  · cases h
    rfl

namespace Registry

open Table

variable {α β : Type} {E : Error → Prop} {setup : Setup} {caller : Caller} {target : Target}
  {q : Predicate} {order : Order} {sub : Subscription} {s : State Table}

/-- Carried out in the state, the call fails only with failures in `E`. -/
def Action.FailsOnly (E : Error → Prop) (a : Action Table α) (s : State Table) : Prop :=
  ∀ e, (a.perform s).1 = .error e → E e

namespace Action

variable {a b : Action Table α}

theorem FailsOnly.bind {f : α → Action Table β} (h : FailsOnly E a s)
    (hf : ∀ x s', a.perform s = (.ok x, s') → FailsOnly E (f x) s') : FailsOnly E (a >>= f) s := by
  intro e he
  rw [perform_bind] at he
  rcases ha : a.perform s with ⟨e' | x, s'⟩
  · rw [ha] at he
    cases he
    exact h e (by rw [ha])
  · rw [ha] at he
    exact hf x s' ha e he

theorem FailsOnly.map (f : α → β) (h : FailsOnly E a s) : FailsOnly E (f <$> a) s := by
  intro e he
  rw [perform_map] at he
  cases ha : (a.perform s).1 with
  | error e' =>
    rw [ha] at he
    cases he
    exact h e ha
  | ok x =>
    rw [ha] at he
    cases he

theorem failsOnly_of_perform {result : Except Error α} {s' : State Table}
    (h : a.perform s = (result, s')) (hE : ∀ e, result = .error e → E e) : FailsOnly E a s := by
  intro e he
  rw [h] at he
  exact hE e he

theorem failsOnly_of_ok {x : α} {s' : State Table} (h : a.perform s = (.ok x, s')) :
    FailsOnly E a s := failsOnly_of_perform h fun _ he => nomatch he

theorem failsOnly_of_error {e : Error} {s' : State Table} (h : a.perform s = (.error e, s'))
    (hE : E e) : FailsOnly E a s := failsOnly_of_perform h fun _ he => Except.error.inj he ▸ hE

theorem FailsOnly.congr (h : a.perform s = b.perform s) (hb : FailsOnly E b s) : FailsOnly E a s := by
  intro e he
  rw [h] at he
  exact hb e he

/-- A call may end with a notice. -/
theorem failsOnly_publish_if {n : Notice} {x : α} {c : Prop} [Decidable c] :
    FailsOnly E (if c then publish n >>= fun _ => pure x else pure x) s := by
  split
  · exact failsOnly_of_ok rfl
  · exact failsOnly_of_ok rfl

theorem failsOnly_announcing {subscription : Option Subscription} {a : Action Table Nat}
    (h : FailsOnly E a s) : FailsOnly E (announcing subscription a) s :=
  h.bind fun _ _ _ => failsOnly_publish_if

/-- Another table is made. -/
theorem failsOnly_edits {f : Table → Except Error (α × Table)} (h : ∃ x t, f s.store = .ok (x, t)) :
    FailsOnly E (edits f) s := by
  obtain ⟨x, t, hf⟩ := h
  exact failsOnly_of_ok (perform_edits_of_ok hf)

theorem failsOnly_authorize {scope : Scope} {verb : Verb} (hE : ∀ e : Error, e.kind = .security → E e) :
    FailsOnly E (authorize setup caller scope verb) s :=
  failsOnly_of_perform (perform_authorize ..) fun e he => hE e (Policy.kind_of_authorize he)

end Action

open Registry.Action

/-! ### Calls on rows -/

theorem partitionFor_eq_error {verb : Verb} {enforced : Bool} {e : Error}
    (h : partitionFor setup caller target verb enforced = .error e) :
    e.kind = .security ∨ target.scope = .enforceManaged ∧ e = .enforcementHasNoRows := by
  unfold partitionFor at h
  split at h
  · rename_i e' ha
    cases h
    exact Or.inl (Policy.kind_of_authorize ha)
  · split at h
    · rename_i hs
      cases h
      exact Or.inr ⟨hs, rfl⟩
    · cases h

/-- Profiles are inserted, unless the target is a row. -/
theorem failsOnly_insertProfiles {ps : List Profile} (hv : s.store.Valid) (hk : s.store.KeysUnique)
    (ha : ∀ e, partitionFor setup caller target .insert s.enforced = .error e → E e)
    (hrow : ∀ scope id, target = .row scope id → E .insertIntoRow) :
    FailsOnly E (insertProfiles setup caller target ps) s := by
  cases hp : partitionFor setup caller target .insert s.enforced with
  | error e => exact failsOnly_of_error (perform_insertProfiles_of_error hp) (ha e hp)
  | ok partition =>
    cases target with
    | row scope id => exact failsOnly_of_error (perform_insertProfiles_row hp) (hrow scope id rfl)
    | table scope subscription =>
      refine .congr (perform_insertProfiles hv hp) (failsOnly_edits (exists_enterAll hv hk ?_))
      intro p hm
      obtain ⟨q, -, rfl⟩ := List.mem_map.mp hm
      exact id_normalized ..

theorem failsOnly_update {changes : Update} (hv : s.store.Valid) (hk : s.store.KeysUnique)
    (ha : ∀ e, partitionFor setup caller target .update s.enforced = .error e → E e) :
    FailsOnly E (update setup caller target q changes) s := by
  cases hp : partitionFor setup caller target .update s.enforced with
  | error e => exact failsOnly_of_error (perform_update_of_error hp) (ha e hp)
  | ok partition =>
    cases hc : changes.isEmpty with
    | true => exact failsOnly_of_ok (perform_update_of_isEmpty hp hc)
    | false =>
      exact .congr (perform_update hv hp hc)
        (failsOnly_announcing (failsOnly_edits (exists_updateWhere _ _ hv hk)))

theorem failsOnly_delete (hv : s.store.Valid)
    (ha : ∀ e, partitionFor setup caller target .delete s.enforced = .error e → E e) :
    FailsOnly E (delete setup caller target q) s := by
  cases hp : partitionFor setup caller target .delete s.enforced with
  | error e => exact failsOnly_of_error (perform_delete_of_error hp) (ha e hp)
  | ok partition =>
    exact .congr (perform_delete hv hp) (failsOnly_announcing (failsOnly_edits ⟨_, _, rfl⟩))

theorem failsOnly_currentRows {partition : Partition} (hv : s.store.Valid) (hk : s.store.KeysUnique) :
    FailsOnly E (currentRows setup partition order) s := by
  cases hl : setup.config.lazyMccMncMigration with
  | false => exact failsOnly_of_ok (perform_currentRows_of_not_lazy hl)
  | true =>
    obtain ⟨n, hn⟩ := exists_refreshAll setup.device.known
      (s.store.scan partition.predicate order) hv hk
    rcases hall : refreshAll setup.device.known (s.store.scan partition.predicate order) s.store with
      ⟨result, t⟩
    rw [hall] at hn
    obtain rfl : result = .ok n := hn
    exact failsOnly_of_ok (by rw [perform_currentRows_of_lazy hv hl, hall])

theorem failsOnly_query (hv : s.store.Valid) (hk : s.store.KeysUnique)
    (ha : ∀ e, partitionFor setup caller target .query s.enforced = .error e → E e) :
    FailsOnly E (query setup caller target q order) s := by
  cases hp : partitionFor setup caller target .query s.enforced with
  | error e => exact failsOnly_of_error (perform_query_of_error hp) (ha e hp)
  | ok partition => exact .congr (perform_query hp) ((failsOnly_currentRows hv hk).map _)

/-- The rows of a subscription are queried through the general scope. -/
theorem failsOnly_subscriptionRows (hv : s.store.Valid) (hk : s.store.KeysUnique)
    (hE : ∀ e : Error, e.kind = .security → E e) :
    FailsOnly E (subscriptionRows setup caller sub) s :=
  failsOnly_query hv hk fun e he =>
    (partitionFor_eq_error he).elim (hE e) fun h => nomatch h.1

/-- The candidates for a SIM are chosen, unless a pattern is refused. -/
theorem failsOnly_simApnList (hv : s.store.Valid) (hk : s.store.KeysUnique)
    (hE : ∀ e : Error, e.kind = .security → E e)
    (hrefused : ∀ pattern reason, setup.engine pattern = some reason →
      E (.refusedPattern pattern reason)) : FailsOnly E (simApnList setup caller sub) s := by
  rw [simApnList_eq]
  refine (failsOnly_subscriptionRows hv hk hE).bind fun found s' _ =>
    failsOnly_of_perform (perform_decided _ _) fun e he => ?_
  unfold candidates at he
  split at he
  · rename_i e' hr
    cases he
    obtain ⟨pattern, reason, hengine, rfl⟩ := Selection.exists_of_refusal hr
    exact hrefused pattern reason hengine
  · cases he

/-! ### Other calls -/

theorem failsOnly_migrateAll (hv : s.store.Valid) (hk : s.store.KeysUnique)
    (hE : ∀ e : Error, e.kind = .security → E e) : FailsOnly E (migrateAll setup caller) s := by
  cases ha : setup.policy.authorize caller .general .update s.enforced with
  | error e =>
    have hperform : (migrateAll setup caller).perform s = (.error e, s) := by
      rw [migrateAll, perform_bind, perform_authorize, ha]
    exact failsOnly_of_error hperform (hE e (Policy.kind_of_authorize ha))
  | ok partition =>
    -- It is authorized as a write through the general scope.
    have hw : caller.canWrite = true := (Policy.authorize_eq_ok.mp ha).2.1 rfl rfl
    obtain ⟨n, hn⟩ := exists_refreshAll setup.device.known s.store.rows.profiles hv hk
    refine .congr (perform_migrateAll hv hw) (failsOnly_announcing ?_)
    exact failsOnly_of_ok (by rw [perform_onStore, hn])

theorem failsOnly_preferred (hE : ∀ e : Error, e.kind = .security → E e) :
    FailsOnly E (preferred setup caller sub) s := by
  refine failsOnly_of_perform (perform_preferred ..) fun e he => ?_
  cases ha : setup.policy.authorize caller .general .query s.enforced with
  | error e' =>
    rw [ha] at he
    cases he
    exact hE e (Policy.kind_of_authorize ha)
  | ok partition =>
    rw [ha] at he
    cases he

theorem failsOnly_restoreToDefault (hv : s.store.Valid) (hk : s.store.KeysUnique)
    (hE : ∀ e : Error, e.kind = .security → E e)
    (hrefused : ∀ pattern reason, setup.engine pattern = some reason →
      E (.refusedPattern pattern reason)) :
    FailsOnly E (restoreToDefault setup caller sub) s := by
  refine (failsOnly_authorize hE).bind fun partition s' h => ?_
  rw [perform_authorize] at h
  obtain ⟨-, rfl⟩ := Prod.mk.inj h
  refine FailsOnly.bind (.congr (perform_restoreRows _ _ _ hv) ?_) fun report s' _ => failsOnly_of_ok rfl
  cases hr : s.store.restored setup.engine setup.defaults (extentOf setup.device sub) with
  | error e =>
    obtain ⟨pattern, reason, hengine, rfl⟩ := refused_of_restored hv hk hr
    exact failsOnly_of_error (perform_edits_of_error hr) (hrefused pattern reason hengine)
  | ok r =>
    obtain ⟨report, t⟩ := r
    exact failsOnly_of_ok (perform_edits_of_ok hr)

/-! ### Requests -/

/-- The request inserts into a single row. -/
def Request.insertsIntoRow : Request → Prop
  | .insert _ (.row ..) _ | .bulkInsert _ (.row ..) _ => True
  | _ => False

/-- The request compares profiles with a SIM. -/
def Request.readsSim : Request → Prop
  | .simApnList .. | .restoreToDefault .. => True
  | _ => False

/-- The failures of a request that makes no sense to the registry. -/
inductive Request.Invalid (setup : Setup) (r : Request) : Error → Prop
  | intoRow (h : r.insertsIntoRow) : Invalid setup r .insertIntoRow
  | noRows {target : Target} (ht : r.target? = some target) (hs : target.scope = .enforceManaged) :
    Invalid setup r .enforcementHasNoRows
  | refused {pattern reason : String} (hr : r.readsSim) (h : setup.engine pattern = some reason) :
    Invalid setup r (.refusedPattern pattern reason)

/-- The failures of a request that are for its caller. -/
def Request.Excused (setup : Setup) (r : Request) (e : Error) : Prop :=
  e.kind = .security ∨ e.kind = .invalidInput ∧ r.Invalid setup e

theorem Request.excused_of_partitionFor {r : Request} {verb : Verb} {enforced : Bool} {e : Error}
    (ht : r.target? = some target) (h : partitionFor setup caller target verb enforced = .error e) :
    r.Excused setup e := by
  rcases partitionFor_eq_error h with hkind | ⟨hs, rfl⟩
  · exact Or.inl hkind
  · exact Or.inr ⟨rfl, .noRows ht hs⟩

/-- The table turns no batch down with such a failure. -/
theorem Request.Excused.isRejection_eq_false {r : Request} {e : Error} (h : r.Excused setup e) :
    e.isRejection = false := by
  rcases h with hkind | ⟨-, hinvalid⟩
  · cases e with
    | insertWithId | replaceWithoutId | unknownRow => cases hkind
    | _ => rfl
  · cases hinvalid with
    | intoRow => rfl
    | noRows => rfl
    | refused => rfl

theorem Request.excused_of_refused {r : Request} {pattern reason : String} (hr : r.readsSim)
    (h : setup.engine pattern = some reason) : r.Excused setup (.refusedPattern pattern reason) :=
  Or.inr ⟨rfl, .refused hr h⟩

/-- **How requests fail**, but for the one that sets a preferred row. -/
theorem Request.failsOnly (setup : Setup) (r : Request)
    (hr : ∀ caller sub id, r ≠ .setPreferred caller sub id) (hv : s.store.Valid)
    (hk : s.store.KeysUnique) : FailsOnly (r.Excused setup) (r.action setup) s := by
  have hsecurity (e : Error) (h : e.kind = .security) : r.Excused setup e := Or.inl h
  cases r with
  | query caller target q order =>
    exact (failsOnly_query hv hk fun _ => excused_of_partitionFor rfl).map _
  | insert caller target p =>
    refine ((failsOnly_insertProfiles hv hk (fun _ => excused_of_partitionFor rfl) ?_).bind
      fun _ _ _ => failsOnly_publish_if).map _
    rintro scope id rfl
    exact Or.inr ⟨rfl, .intoRow trivial⟩
  | bulkInsert caller target ps =>
    refine ((failsOnly_insertProfiles hv hk (fun _ => excused_of_partitionFor rfl) ?_).bind
      fun _ _ _ => failsOnly_publish_if).map _
    rintro scope id rfl
    exact Or.inr ⟨rfl, .intoRow trivial⟩
  | update caller target q changes =>
    exact (failsOnly_update hv hk fun _ => excused_of_partitionFor rfl).map _
  | delete caller target q =>
    exact (failsOnly_delete hv fun _ => excused_of_partitionFor rfl).map _
  | migrateAll caller => exact (failsOnly_migrateAll hv hk hsecurity).map _
  | preferred caller sub => exact (failsOnly_preferred hsecurity).map _
  | setPreferred caller sub id => exact absurd rfl (hr caller sub id)
  | clearPreferred caller sub =>
    refine ((failsOnly_authorize hsecurity).bind fun _ s' _ => ?_).map _
    refine FailsOnly.bind (failsOnly_of_ok rfl) fun _ _ _ => ?_
    exact FailsOnly.bind (failsOnly_of_ok rfl) fun _ _ _ => failsOnly_publish_if
  | apnSet caller sub =>
    refine ((failsOnly_subscriptionRows hv hk hsecurity).bind fun found _ _ => ?_).map _
    exact (failsOnly_preferred hsecurity).bind fun _ _ _ => failsOnly_of_ok rfl
  | simApnList caller sub =>
    exact (failsOnly_simApnList hv hk hsecurity fun _ _ => excused_of_refused trivial).map _
  | restoreToDefault caller sub =>
    exact (failsOnly_restoreToDefault hv hk hsecurity fun _ _ => excused_of_refused trivial).map _
  | enforced caller =>
    exact ((failsOnly_authorize hsecurity).bind fun _ _ _ => failsOnly_of_ok rfl).map _
  | setEnforced caller value =>
    refine ((failsOnly_authorize hsecurity).bind fun _ s' _ => ?_).map _
    refine FailsOnly.bind (failsOnly_of_ok rfl) fun before s' _ => ?_
    refine FailsOnly.bind (failsOnly_of_ok rfl) fun _ _ _ => ?_
    split
    · exact failsOnly_of_ok rfl
    · exact failsOnly_of_ok rfl

/-- **A table with distinct keys never fails a request.** A request fails only if its caller may not ask
for it, or if it makes no sense: it inserts into a single row, it is a call on rows in the scope of the
flag, or the engine refuses a pattern that is to be run on a SIM. The table accepts all batches that it
is sent, and they make the table that is left. This excludes the requests that set a preferred row or the
flag. -/
theorem Request.reliable (setup : Setup) (r : Request) (s : State Table) (hv : s.store.Valid)
    (hk : s.store.KeysUnique) (hp : ∀ caller sub id, r ≠ .setPreferred caller sub id)
    (he : ∀ caller value, r ≠ .setEnforced caller value) :
    let result := ((r.action setup).perform s).1
    (∀ e, result = .error e → e.kind = .security ∨ e.kind = .invalidInput ∧ r.Invalid setup e) ∧
      ∃ sent, (r.action setup).perform (s.journaled []) = (result, (r.after setup s).journaled sent) ∧
        s.store.replay sent = .ok (r.after setup s).store := by
  intro result
  have hfails := r.failsOnly setup hp hv hk
  refine ⟨hfails, ?_⟩
  obtain ⟨sent, hperform, hreplay⟩ := r.delivers he setup hv []
  refine ⟨sent, hperform, hreplay.resolve_right ?_⟩
  -- A batch that is turned down fails the request, with a failure that is not excused.
  rintro ⟨e, herror, hrejection⟩
  rw [Request.Excused.isRejection_eq_false (hfails e herror)] at hrejection
  cases hrejection

/-- Three rows come to share one key, and are merged by the one batch that is sent. -/
theorem reliable_merges :
    let s : State Table := .initial {} (.ofProfiles [{ apn := "web" }, { apn := "mms" }, { apn := "old" }])
    let r : Request := .update .system (.table .general none) .always { apn := some "mms" }
    s.store.KeysUnique ∧ (r.after {} s).store ≠ s.store ∧
      ∃ sent, (r.action {}).perform (s.journaled []) = (.ok (.count 3), (r.after {} s).journaled sent) ∧
        s.store.replay sent = .ok (r.after {} s).store := by
  intro s r
  have hk : s.store.KeysUnique := by decide
  have hresult : ((r.action {}).perform s).1 = .ok (.count 3) := by decide +kernel
  obtain ⟨-, sent, hperform, hreplay⟩ := Request.reliable {} r s (.ofProfiles _) hk
    (fun _ _ _ h => nomatch h) fun _ _ h => nomatch h
  rw [hresult] at hperform
  exact ⟨hk, by decide +kernel, sent, hperform, hreplay⟩

end Registry

end ApnRegistry
