import ApnRegistry.Proofs.Authorization
import ApnRegistry.Proofs.Refresh

/-!
# Going over the whole table

`migrateAll` reads all rows once and then puts them into modern form one by one, while the rows that it
has read go, or get another content. In a table with distinct keys nothing of this makes a row fail, and
the keys of the table are those of the modern forms, however many rows have come to share one.

Results:
* `perform_migrateAll`: going over the whole table puts all rows into modern form.
* `Table.Modernized`: a table and what is left of it in modern form (`Table.modernized_refreshAll`).
* `Registry.migrateAll_modernizes`: the call, and the same call again.
-/

namespace ApnRegistry

open LegacyCodes

namespace Table

variable {known : List String} {t t' : Table} {n : Nat}

/-- What a table with distinct keys is in modern form. -/
structure Modernized (known : List String) (t t' : Table) : Prop where
  /-- No row waits. -/
  modern : AllModern known t'.rows.profiles
  /-- The keys are those of the modern forms. -/
  mem_keys : ∀ k, k ∈ t'.rows.profiles.map Profile.key ↔
    k ∈ t.rows.profiles.map fun p => (modernized known p).key
  /-- Each key is held by one row. -/
  keysUnique : t'.KeysUnique
  /-- No id is new. -/
  ids : ∀ id, (t'.get? id).isSome = true → (t.get? id).isSome = true
  /-- A row stays as it is if it does not wait, and no row that waits gets its key. -/
  unchanged : ∀ id p, t.get? id = some p → pending known p = none →
    (∀ q ∈ t.rows.profiles, (pending known q).isSome = true → (modernized known q).key ≠ p.key) →
      t'.get? id = some p
  /-- An ordinary row is unedited only if all those were that got its key. -/
  unedited : ∀ p ∈ t'.rows.profiles, p.owner = .others → p.status = .unedited →
    ∀ q ∈ t.rows.profiles, q.owner = .others → (modernized known q).key = p.key → q.status = .unedited

/-- The keys that show are those of the modern forms. -/
theorem Valid.shows_iff_mem_map {k : Profile.Key} (hv : t.Valid) : t.Shows known (fun _ => True) k ↔
    k ∈ t.rows.profiles.map fun p => (modernized known p).key := by
  rw [List.mem_map]
  constructor
  · rintro ⟨id, p, hg, hk, -⟩
    exact ⟨p, hv.mem_profiles hg, hk⟩
  · rintro ⟨p, hp, hk⟩
    obtain ⟨id, -, hg⟩ := hv.mem_profiles_iff.mp hp
    exact ⟨id, p, hg, hk, trivial⟩

/-- The key of a row with recorded intent is not that of an unedited row of the modern table. -/
theorem Refreshed.unedited (h : Refreshed known t t') (hv : t.Valid) (hv' : t'.Valid)
    (hm : AllModern known t'.rows.profiles) (hk : t'.KeysUnique) : ∀ p ∈ t'.rows.profiles,
    p.owner = .others → p.status = .unedited → ∀ q ∈ t.rows.profiles, q.owner = .others →
      (modernized known q).key = p.key → q.status = .unedited := by
  intro p hp _ hs q hq ho hkey
  by_contra hedited
  obtain ⟨idp, -, hgp⟩ := hv'.mem_profiles_iff.mp hp
  obtain ⟨idq, -, hgq⟩ := hv.mem_profiles_iff.mp hq
  have hshows : t.Shows known HasIntent p.key :=
    ⟨idq, q, hgq, hkey, ho, EditStatus.isUnedited_eq_false.mpr hedited⟩
  obtain ⟨id', p', hg', hkey', -, hintent⟩ := (h.intents p.key).mpr hshows
  rw [modernized_of_none (hm p' (hv'.mem_profiles hg'))] at hkey'
  obtain rfl := hv'.keysUnique_iff.mp hk id' idp p' p hg' hgp hkey'
  obtain rfl : p = p' := Option.some.inj (hgp.symm.trans hg')
  exact EditStatus.isUnedited_eq_false.mp hintent hs

/-- **All rows of a table with distinct keys** are put into modern form, and those that wait are
counted. -/
theorem modernized_refreshAll (known : List String) (hv : t.Valid) (hk : t.KeysUnique) :
    ∃ t', refreshAll known t.rows.profiles t =
        (.ok (t.rows.profiles.countP fun p => (pending known p).isSome), t') ∧
      t'.Valid ∧ Modernized known t t' := by
  obtain ⟨n, hn⟩ := exists_refreshAll known t.rows.profiles hv hk
  have hmoves : Moves (fun _ => True) t (refreshAll known t.rows.profiles t).2 :=
    moves_of_refreshAll hv fun _ _ _ => trivial
  have href := refreshed_refreshAll known t.rows.profiles hv
  rcases hall : refreshAll known t.rows.profiles t with ⟨result, t'⟩
  rw [hall] at hn hmoves href
  obtain rfl : result = .ok n := hn
  have hv' := hmoves.valid hv
  have hk' := hmoves.keysUnique hv hk
  have hmodern : AllModern known t'.rows.profiles := fun q hq => by
    obtain ⟨id, -, hg⟩ := hv'.mem_profiles_iff.mp hq
    exact pending_of_refreshAll hv hv.lists hall hg hv.mem_profiles
  obtain ⟨rfl, -⟩ := countP_of_refreshAll hv hv.lists.different (fun p hp _ => hv.lists.live p hp) hall
  have hkeys : t'.rows.profiles.map Profile.key =
      t'.rows.profiles.map fun p => (modernized known p).key :=
    List.map_congr_left fun p hp => by rw [modernized_of_none (hmodern p hp)]
  refine ⟨t', rfl, hv', {
    modern := hmodern
    mem_keys := fun k => ?_
    keysUnique := hk'
    ids := href.ids
    unchanged := fun id p hg hp hne => ?_
    unedited := href.unedited hv hv' hmodern hk' }⟩
  · rw [hkeys, ← hv'.shows_iff_mem_map, href.keys k, hv.shows_iff_mem_map]
  · exact href.unchanged id p hg hp fun other m hm => hne m (hv.mem_profiles hm)

end Table

namespace Registry

variable {setup : Setup} {s : State Table} {caller : Caller}

/-- **Going over the whole table** puts all rows into modern form, if the caller may write. -/
theorem perform_migrateAll (hv : s.store.Valid) (hw : caller.canWrite = true) :
    (migrateAll setup caller).perform s = (announcing none (onStore
      (Table.refreshAll setup.device.known s.store.rows.profiles))).perform s := by
  have ha : setup.policy.authorize caller .general .update s.enforced =
      .ok (Partition.ofOwner (Policy.ownerOf .general s.enforced) .update) :=
    Policy.authorize_eq_ok.mpr ⟨nofun, fun _ _ => hw, rfl⟩
  rw [migrateAll, Action.perform_bind, perform_authorize, ha]
  show (rows .always .idAscending >>= _ : Action Table Nat).perform s = _
  rw [Action.perform_bind, perform_rows, Table.scan_always, announcing, Action.perform_bind]
  show (modernizeRows _ _ >>= _ : Action Table Nat).perform s = _
  rw [Action.perform_bind, perform_modernizeRows _ _ hv]

/-- In a table in modern form there is nothing to do. -/
theorem perform_migrateAll_of_modern (hv : s.store.Valid) (hw : caller.canWrite = true)
    (hm : AllModern setup.device.known s.store.rows.profiles) :
    (migrateAll setup caller).perform s = (.ok 0, s) := by
  have hall : (onStore (Table.refreshAll setup.device.known s.store.rows.profiles)).perform s =
      (.ok 0, s) := by
    rw [Action.perform_onStore, Table.refreshAll_of_allModern hm]
  rw [perform_migrateAll hv hw, perform_announcing hall]
  rfl

/-- **Going over a table with distinct keys**: it counts the rows that wait. Afterwards none waits. The
keys are those of the modern forms, each held by one row; no id is new; rows that neither waited nor
share their key with one that did stay as they are; an ordinary row is unedited only if all those were
that got its key. Going over the table again finds nothing and changes nothing. -/
theorem migrateAll_modernizes (setup : Setup) (caller : Caller) (s : State Table)
    (hv : s.store.Valid) (hk : s.store.KeysUnique) (hw : caller.canWrite = true) :
    let known := setup.device.known
    ∃ s', (migrateAll setup caller).perform s =
        (.ok (s.store.rows.profiles.countP fun p => (pending known p).isSome), s') ∧
      Table.Modernized known s.store s'.store ∧
      (migrateAll setup caller).perform s' = (.ok 0, s') := by
  intro known
  obtain ⟨t', hall, hv', hm⟩ := Table.modernized_refreshAll known hv hk
  have hfirst : (onStore (Table.refreshAll known s.store.rows.profiles)).perform s =
      (.ok (s.store.rows.profiles.countP fun p => (pending known p).isSome),
        { s with store := t' }) := by
    rw [Action.perform_onStore, hall]
  rw [perform_migrateAll hv hw, perform_announcing hfirst]
  exact ⟨_, rfl, hm, perform_migrateAll_of_modern hv' hw hm.modern⟩

/-- The second and the third row come to share the key of the first, of which the second is a
tombstone. -/
theorem migrateAll_modernizes_web :
    let row : Profile := { apn := "web", numeric := "99905", legacyMcc := some 999, legacyMnc := some 5 }
    let s : State Table := .initial {} (.ofProfiles [{ row with mcc := "999", mnc := "05" },
      { row with status := .userDeleted }, { row with mcc := "999" }])
    s.store.KeysUnique ∧ ∃ s', (migrateAll {} .system).perform s = (.ok 2, s') ∧
      Table.Modernized (Setup.device {}).known s.store s'.store ∧
      (migrateAll {} .system).perform s' = (.ok 0, s') := by
  intro row s
  have hk : s.store.KeysUnique := by decide
  exact ⟨hk, migrateAll_modernizes {} .system s (.ofProfiles _) hk (by decide)⟩

end Registry

end ApnRegistry
