import ApnRegistry.Proofs.Confinement
import ApnRegistry.Proofs.Migration
import ApnRegistry.Proofs.Owners

/-!
# The integrity of policy rows

Callers that are not privileged get the partition of the ordinary rows at most, and so leave every
policy row as it is, whatever they ask for, with one exception. `migrateAll` is authorized as an
update through the general scope, but goes over the whole table: it puts the policy rows with integer
codes into modern form too, or drops them.

It does so for every such row that it comes to before an ordinary row fails
(`Table.MeetsPolicyRow`). In a table with distinct keys no row fails.

Results:
* `Table.rows_only_refreshAll_eq_iff`: putting rows into modern form leaves the policy rows as they
  are iff it meets none that needs it.
* `Request.policyRows_after_eq_iff`: when a request of a caller that is not privileged leaves the
  policy rows as they are.
* `Request.rewritesPolicyRows_iff_of_keysUnique`: the exception for tables with distinct keys, in terms
  of the stored rows alone.
-/

namespace ApnRegistry

open Collision

namespace Table

variable {t t' : Table} {o : Owner} {p row : Profile} {id : RowId} {known : List String} {done : Bool}
  {found : List Profile}

/-! ## Policy rows that are put into modern form -/

/-- A policy row is put into modern form without failing, and rows under other ids stay. -/
theorem exists_refresh_of_dpc (known : List String) (ho : row.owner = .dpc) (t : Table) :
    ∃ done t', t.refresh known row = .ok (done, t') ∧
      ∀ id, row.id ≠ some id → t'.get? id = t.get? id := by
  unfold refresh
  split
  · rename_i modern hp
    cases hid : row.id with
    | none => exact ⟨_, t, modernize_of_id_none hid, fun _ _ => rfl⟩
    | some k =>
      by_cases hg : t.get? k = some row
      · by_cases hh : hits modern t.rows.profiles = []
        · refine ⟨_, _, modernize_of_new hid hg hh, fun id hne => ?_⟩
          rw [get?_set, if_neg fun heq => hne (congrArg some heq.symm)]
        · refine ⟨_, _, modernize_of_dpc hid hg ho hh, fun id hne => ?_⟩
          rw [get?_remove, if_neg fun heq => hne (congrArg some heq.symm)]
      · exact ⟨_, t, modernize_of_ne hid hg, fun _ _ => rfl⟩
  · exact ⟨_, t, rfl, fun _ _ => rfl⟩

/-- A policy row that needs modern form is not stored as it was any more. -/
theorem get?_ne_of_refresh (hid : row.id = some id) (ho : row.owner = .dpc)
    (hg : t.get? id = some row) (hp : (LegacyCodes.pending known row).isSome = true)
    (h : t.refresh known row = .ok (done, t')) : t'.get? id ≠ some row := by
  obtain ⟨modern, hp⟩ := Option.isSome_iff_exists.mp hp
  have hr : t.refresh known row = t.modernize row modern := by
    simp only [refresh, hp]
  rw [hr] at h
  by_cases hh : hits modern t.rows.profiles = []
  · rw [modernize_of_new hid hg hh] at h
    cases h
    rw [get?_set, if_pos rfl]
    exact fun heq => LegacyCodes.ne_of_pending hp (Option.some.inj heq)
  · rw [modernize_of_dpc hid hg ho hh] at h
    cases h
    rw [get?_remove, if_pos rfl]
    exact fun heq => Option.some_ne_none row heq.symm

/-- Putting one row into modern form leaves the rows of other owners. -/
theorem get?_refresh_iff_of_owner_ne (hv : t.Valid) (ho : p.owner ≠ row.owner)
    (h : t.refresh known row = .ok (done, t')) : t'.get? id = some p ↔ t.get? id = some p :=
  (moves_of_refresh hv h).get?_iff hv fun hs => ho (congrArg Shard.owner hs)

/-- Putting one row into modern form leaves the policy rows under other ids. -/
theorem get?_refresh_iff (hv : t.Valid) (ho : p.owner = .dpc) (hid : row.id ≠ some id)
    (h : t.refresh known row = .ok (done, t')) : t'.get? id = some p ↔ t.get? id = some p := by
  cases hrow : row.owner with
  | others =>
    refine get?_refresh_iff_of_owner_ne hv ?_ h
    rw [ho, hrow]
    nofun
  | dpc =>
    obtain ⟨done', t₁, h₁, hget⟩ := exists_refresh_of_dpc known hrow t
    rw [h] at h₁
    cases h₁
    rw [hget id hid]

theorem get?_refreshAll_iff (ho : p.owner = .dpc) : ∀ {found : List Profile} {t : Table}, t.Valid →
    (∀ row ∈ found, row.id ≠ some id) →
    ((refreshAll known found t).2.get? id = some p ↔ t.get? id = some p)
  | [], _, _, _ => Iff.rfl
  | row :: found, t, hv, hid => by
    cases hr : t.refresh known row with
    | error e => rw [refreshAll_cons_of_error hr]
    | ok r =>
      obtain ⟨done, t₁⟩ := r
      rw [refreshAll_cons_of_ok hr]
      exact (get?_refreshAll_iff ho ((moves_of_refresh hv hr).valid hv)
        fun q hq => hid q (List.mem_cons_of_mem row hq)).trans
          (get?_refresh_iff hv ho (hid row List.mem_cons_self) hr)

/-- A policy row that needs modern form is not as it was afterwards: no row that follows brings it
back. -/
theorem get?_refreshAll_cons_ne (hv : t.Valid) (hid : row.id = some id) (ho : row.owner = .dpc)
    (hg : t.get? id = some row) (hp : (LegacyCodes.pending known row).isSome = true)
    (hother : ∀ q ∈ found, row.id ≠ q.id) :
    (refreshAll known (row :: found) t).2.get? id ≠ some row := by
  obtain ⟨done, t₁, hr, -⟩ := exists_refresh_of_dpc known ho t
  rw [refreshAll_cons_of_ok hr, Ne, get?_refreshAll_iff ho ((moves_of_refresh hv hr).valid hv)
    fun q hq hqid => hother q hq (hid.trans hqid.symm)]
  exact get?_ne_of_refresh hid ho hg hp hr

/-- A row that is no policy row in need of modern form leaves all policy rows as they are. -/
theorem get?_refresh_iff_of_not_pending (hv : t.Valid)
    (hrow : row.owner = .dpc → LegacyCodes.pending known row = none) (ho : p.owner = .dpc)
    (h : t.refresh known row = .ok (done, t')) : t'.get? id = some p ↔ t.get? id = some p := by
  cases howner : row.owner with
  | others =>
    refine get?_refresh_iff_of_owner_ne hv ?_ h
    rw [ho, howner]
    nofun
  | dpc =>
    rw [refresh, hrow howner] at h
    cases h
    exact Iff.rfl

/-! ## Meeting a policy row -/

/-- Put into modern form one by one, the rows before some policy row that needs it do not fail. -/
def MeetsPolicyRow (known : List String) (found : List Profile) (t : Table) : Prop :=
  ∃ before p after n, found = before ++ p :: after ∧ p.owner = .dpc ∧
    (LegacyCodes.pending known p).isSome = true ∧ (refreshAll known before t).1 = .ok n

theorem not_meetsPolicyRow_nil : ¬MeetsPolicyRow known [] t := by
  rintro ⟨before, p, after, n, heq, -⟩
  exact List.append_ne_nil_of_right_ne_nil before (List.cons_ne_nil p after) heq.symm

theorem meetsPolicyRow_cons_of_pending (ho : row.owner = .dpc)
    (hp : (LegacyCodes.pending known row).isSome = true) : MeetsPolicyRow known (row :: found) t :=
  ⟨[], row, found, 0, rfl, ho, hp, rfl⟩

theorem not_meetsPolicyRow_cons_of_error {e : Error} (ho : row.owner ≠ .dpc)
    (h : t.refresh known row = .error e) : ¬MeetsPolicyRow known (row :: found) t := by
  rintro ⟨before, p, after, n, heq, hp, -, hn⟩
  cases before with
  | nil => exact ho ((List.cons.inj heq).1 ▸ hp)
  | cons b before =>
    obtain ⟨rfl, -⟩ := List.cons.inj heq
    rw [refreshAll_cons_of_error h] at hn
    cases hn

theorem meetsPolicyRow_cons_of_ok
    (hrow : row.owner = .dpc → LegacyCodes.pending known row = none)
    (h : t.refresh known row = .ok (done, t')) :
    MeetsPolicyRow known (row :: found) t ↔ MeetsPolicyRow known found t' := by
  constructor
  · rintro ⟨before, p, after, n, heq, ho, hp, hn⟩
    cases before with
    | nil =>
      obtain ⟨rfl, -⟩ := List.cons.inj heq
      rw [hrow ho] at hp
      cases hp
    | cons b before =>
      obtain ⟨rfl, rfl⟩ := List.cons.inj heq
      rw [refreshAll_cons_of_ok h] at hn
      cases hb : (refreshAll known before t').1 with
      | error e =>
        rw [hb] at hn
        cases hn
      | ok m => exact ⟨before, p, after, m, rfl, ho, hp, hb⟩
  · rintro ⟨before, p, after, n, rfl, ho, hp, hn⟩
    refine ⟨row :: before, p, after, (if done then 1 else 0) + n, rfl, ho, hp, ?_⟩
    rw [refreshAll_cons_of_ok h, hn]
    rfl

/-- **Putting rows into modern form leaves the policy rows as they are iff it meets none that needs
it.** The policy rows among them are as they are stored. -/
theorem rows_only_refreshAll_eq_iff (known : List String) : ∀ {found : List Profile} {t : Table},
    t.Valid → found.Pairwise (fun p q => p.id ≠ q.id) →
    (∀ p ∈ found, p.owner = .dpc → ∃ id, p.id = some id ∧ t.get? id = some p) →
    (((refreshAll known found t).2.only .dpc).rows = (t.only .dpc).rows ↔
      ¬MeetsPolicyRow known found t)
  | [], _, _, _, _ => ⟨fun _ => not_meetsPolicyRow_nil, fun _ => rfl⟩
  | row :: found, t, hv, hd, hlive => by
    obtain ⟨hother, hd⟩ := List.pairwise_cons.mp hd
    cases hr : t.refresh known row with
    | error e =>
      have ho : row.owner ≠ .dpc := fun ho => by
        obtain ⟨done, t', h, -⟩ := exists_refresh_of_dpc known ho t
        rw [hr] at h
        cases h
      rw [refreshAll_cons_of_error hr]
      exact ⟨fun _ => not_meetsPolicyRow_cons_of_error ho hr, fun _ => rfl⟩
    | ok r =>
      obtain ⟨done, t₁⟩ := r
      have hv₁ : t₁.Valid := (moves_of_refresh hv hr).valid hv
      by_cases hrow : row.owner = .dpc ∧ (LegacyCodes.pending known row).isSome = true
      · obtain ⟨ho, hp⟩ := hrow
        obtain ⟨id, hid, hg⟩ := hlive row List.mem_cons_self ho
        refine ⟨fun heq => ?_, fun h => absurd (meetsPolicyRow_cons_of_pending ho hp) h⟩
        have hmoves : Moves (fun _ => True) t (refreshAll known (row :: found) t).2 :=
          moves_of_refreshAll hv fun _ _ _ => trivial
        have hstays := ((hv.rows_only_eq_iff (hmoves.valid hv)).mp heq id row ho).mpr hg
        exact absurd hstays (get?_refreshAll_cons_ne hv hid ho hg hp hother)
      · have hnone : row.owner = .dpc → LegacyCodes.pending known row = none := fun ho =>
          Option.not_isSome_iff_eq_none.mp fun hp => hrow ⟨ho, hp⟩
        have hsame : ∀ id p, p.owner = .dpc → (t₁.get? id = some p ↔ t.get? id = some p) :=
          fun id p ho => get?_refresh_iff_of_not_pending hv hnone ho hr
        rw [refreshAll_cons_of_ok hr]
        have ih := rows_only_refreshAll_eq_iff known hv₁ hd fun p hp ho => by
          obtain ⟨id, hid, hg⟩ := hlive p (List.mem_cons_of_mem row hp) ho
          exact ⟨id, hid, (hsame id p ho).mpr hg⟩
        rw [meetsPolicyRow_cons_of_ok hnone hr, ← ih, (hv.rows_only_eq_iff hv₁).mpr hsame]

/-! ## Distinct keys -/

/-- Where keys are distinct, every policy row that needs it is met. -/
theorem meetsPolicyRow_iff_of_keysUnique (hv : t.Valid) (hk : t.KeysUnique) :
    MeetsPolicyRow known found t ↔
      ∃ p ∈ found, p.owner = .dpc ∧ (LegacyCodes.pending known p).isSome = true := by
  constructor
  · rintro ⟨before, p, after, n, rfl, ho, hp, -⟩
    exact ⟨p, List.mem_append_right before List.mem_cons_self, ho, hp⟩
  · rintro ⟨p, hm, ho, hp⟩
    obtain ⟨before, after, rfl⟩ := List.append_of_mem hm
    obtain ⟨n, hn⟩ := exists_refreshAll known before hv hk
    exact ⟨before, p, after, n, rfl, ho, hp, hn⟩

end Table

/-! ## Requests -/

namespace Registry

open Table

/-- The caller of a request. -/
def Request.caller : Request → Caller
  | .query caller .. | .insert caller .. | .bulkInsert caller .. | .update caller ..
  | .delete caller .. | .migrateAll caller | .preferred caller .. | .setPreferred caller ..
  | .clearPreferred caller .. | .apnSet caller .. | .simApnList caller ..
  | .restoreToDefault caller .. | .enforced caller | .setEnforced caller .. => caller

/-- The target of a request on rows. -/
def Request.target? : Request → Option Target
  | .query _ target _ _ | .insert _ target _ | .bulkInsert _ target _ | .update _ target _ _
  | .delete _ target _ => some target
  | _ => none

/-- The request puts the whole table into modern form, by a caller who may write, and meets a policy
row that needs it. -/
def Request.rewritesPolicyRows (setup : Setup) (s : State Table) : Request → Prop
  | .migrateAll caller =>
    caller.canWrite = true ∧ MeetsPolicyRow setup.device.known s.store.rows.profiles s.store
  | _ => False

variable {setup : Setup} {s : State Table} {caller : Caller}

/-- Going over the whole table puts every row into modern form, if the caller may write. -/
theorem store_after_migrateAll (hv : s.store.Valid) (hw : caller.canWrite = true) :
    ((Request.migrateAll caller).after setup s).store =
      (refreshAll setup.device.known s.store.rows.profiles s.store).2 := by
  rw [Request.after, Request.action, Action.perform_map, perform_migrateAll hv hw]
  cases h : (refreshAll setup.device.known s.store.rows.profiles s.store).1 with
  | error e => rw [announcing, Action.perform_bind, Action.perform_onStore, h]
  | ok n =>
    have hs : (onStore (refreshAll setup.device.known s.store.rows.profiles)).perform s =
        (.ok n, { s with
          store := (refreshAll setup.device.known s.store.rows.profiles s.store).2 }) := by
      rw [Action.perform_onStore, h]
    rw [perform_announcing hs]

/-- The partition of the policy controller is out of reach for other callers. -/
theorem not_granted_dpc {target : Target} {verb : Verb} {enforced : Bool} {shard : Shard}
    (hp : setup.policy.isPrivileged caller = false) (h : Granted setup caller target verb enforced shard) :
    shard.owner ≠ .dpc := by
  obtain ⟨partition, ha, ho⟩ := h
  intro hdpc
  rw [isPrivileged_of_dpc ha (ho.symm.trans hdpc)] at hp
  cases hp

/-- What callers that are not privileged reach, other than by going over the whole table, are no
policy rows. -/
theorem Request.owner_ne_dpc_of_reaches {r : Request} {enforced : Bool} {shard : Shard}
    (hp : setup.policy.isPrivileged r.caller = false) (hr : ∀ caller, r ≠ .migrateAll caller)
    (h : r.reaches setup enforced shard) : shard.owner ≠ .dpc := by
  cases r with
  | query | insert | bulkInsert | update | delete | apnSet | simApnList => exact not_granted_dpc hp h
  | migrateAll caller => exact absurd rfl (hr caller)
  | restoreToDefault caller sub =>
    rw [h.1]
    nofun
  | preferred | setPreferred | clearPreferred | enforced | setEnforced => exact h.elim

/-- **The integrity of policy rows**: a request of a caller that is not privileged leaves all policy
rows as they are, unless it goes over the whole table with the permission to write and meets a policy
row with integer codes; then it does not. -/
theorem Request.policyRows_after_eq_iff (r : Request) (setup : Setup) (s : State Table)
    (hv : s.store.Valid) (hp : setup.policy.isPrivileged r.caller = false) :
    ((r.after setup s).store.only .dpc).rows = (s.store.only .dpc).rows ↔
      ¬r.rewritesPolicyRows setup s := by
  have hmoves := r.moves setup hv
  by_cases hr : ∃ caller, r = .migrateAll caller
  · obtain ⟨caller, rfl⟩ := hr
    by_cases hw : caller.canWrite = true
    · rw [store_after_migrateAll hv hw, rows_only_refreshAll_eq_iff _ hv hv.lists.different
        fun p hm _ => hv.lists.live p hm]
      exact not_congr (and_iff_right hw).symm
    · exact iff_of_true (hmoves.rows_only_eq hv fun _ h => absurd h hw) fun h => hw h.1
  · have hr (caller : Caller) (heq : r = .migrateAll caller) : False := hr ⟨caller, heq⟩
    refine iff_of_true (hmoves.rows_only_eq hv fun _ h => r.owner_ne_dpc_of_reaches hp hr h) ?_
    cases r with
    | migrateAll caller => exact (hr caller rfl).elim
    | _ => exact id

/-- A policy row with integer codes only. -/
def oldPolicyRow : Profile :=
  { apn := "web", legacyMcc := some 999, legacyMnc := some 5, owner := .dpc }

/-- An app that may write the general table. -/
def writingApp : Caller := { uid := 10001, permissions := [.writeApnSettings] }

theorem rewritesPolicyRows_writingApp : (Setup.policy {}).isPrivileged writingApp = false ∧
    (Request.migrateAll writingApp).rewritesPolicyRows {} (.initial {} (.ofProfiles [oldPolicyRow])) :=
  ⟨by decide, of_not_not (mt (Request.policyRows_after_eq_iff (.migrateAll writingApp) {}
    (.initial {} (.ofProfiles [oldPolicyRow])) (.ofProfiles _) (by decide)).mpr (by decide))⟩

/-- **Policy rows are not safe from every caller**: an app that is not privileged rewrites one. -/
theorem not_forall_policyRows_after_eq : ¬∀ (r : Request) (setup : Setup) (s : State Table),
    s.store.Valid → setup.policy.isPrivileged r.caller = false →
    ((r.after setup s).store.only .dpc).rows = (s.store.only .dpc).rows := by
  intro hall
  have hsame := hall (.migrateAll writingApp) {} (.initial {} (.ofProfiles [oldPolicyRow]))
    (.ofProfiles _) (by decide)
  exact absurd hsame (by decide)

/-- Where keys are distinct, going over the whole table rewrites policy rows as soon as one of them has
integer codes only. -/
theorem Request.rewritesPolicyRows_iff_of_keysUnique (caller : Caller) (hv : s.store.Valid)
    (hk : s.store.KeysUnique) : (Request.migrateAll caller).rewritesPolicyRows setup s ↔
      caller.canWrite = true ∧ ∃ p ∈ s.store.rows.profiles, p.owner = .dpc ∧
        (LegacyCodes.pending setup.device.known p).isSome = true :=
  and_congr_right fun _ => meetsPolicyRow_iff_of_keysUnique hv hk

end Registry

end ApnRegistry
