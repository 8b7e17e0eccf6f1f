import ApnRegistry.Proofs.Deletion
import ApnRegistry.Proofs.Revision
import ApnRegistry.Proofs.Settling

/-!
# Updates of ordinary rows

An ordinary row whose new key is taken is carried over to the row that has the key. The rows are
revised one after the other, each in the table that the ones before it have left: one may have been
hit by then, or have gone into another. Yet they settle on the keys that the update gives them
(`Table.exists_settling_of_reviseAll`), whatever their order.

Results:
* `Table.Updated`: the table before an update of ordinary rows and the table after it, compared.
* `Table.exists_updated`: an update of ordinary rows succeeds and does this to a table.
* `Registry.update_ordinary`: so does the call.
-/

namespace ApnRegistry

open Collision

/-- The row has the status that the update sets, unless that is the status of an unedited row. -/
def Update.Marks (u : Update) (p : Profile) : Prop :=
  ∀ mark, u.status = some mark → mark.isUnedited = false → p.status = mark

theorem Update.marks_applied (u : Update) (p : Profile) : u.Marks (u.applied p) := by
  intro mark hs _
  simp only [applied, hs, Option.getD_some]

/-- A row that is updated onto another leaves its mark there. -/
theorem Collision.marks_updateOnto (row p : Profile) (changes : Update) :
    changes.Marks (updateOnto row (changes.applied p) changes).1 := by
  intro mark hs hm
  have hmoved : (changes.applied p).status = mark := changes.marks_applied p mark hs hm
  unfold updateOnto
  rw [hmoved, hm, Bool.and_false, if_neg Bool.false_ne_true]
  show precedence row.status mark = mark
  rw [precedence, hm, if_neg Bool.false_ne_true]

namespace Table

variable {t t' : Table} {changes : Update} {p row : Profile} {id other : RowId} {ids : List RowId}

/-! ## Ordinary rows -/

/-- A row whose new key no other row has settles where it is. -/
theorem settled_set (hv : t.Valid) (hp : t.get? id = some p)
    (hh : hits (changes.applied p) t.rows.profiles = []) :
    Settled t id id (changes.applied p) (t.set id (changes.applied p)) where
  place := Or.inl rfl
  alone := fun other q hq hk =>
    Or.inl (hv.keyFree_of_hits ((changes.id_applied p).trans (hv.id_of_get? hp)) hh other q hq hk)
  reads := fun other => by
    rw [get?_set]
    split
    · rfl
    · rfl

/-- A row whose new key another row has settles there. -/
theorem settled_merge {r : Profile} (hv : t.Valid) (hk : t.KeysUnique)
    (hrow : t.get? other = some row) (hkey : r.key = row.key) : Settled t id other r ((t.remove id).set other r) where
  place := Or.inr ⟨row, hrow, hkey.symm⟩
  alone := fun i q hq hqk => Or.inr (hv.keysUnique_iff.mp hk i other q row hq hrow (hqk.trans hkey))
  reads := fun i => by rw [get?_set, get?_remove]

/-- **A revised ordinary row settles** on the key that the update gives it, if keys are distinct. -/
theorem exists_settled_of_revise (changes : Update) (hv : t.Valid) (hk : t.KeysUnique)
    (hp : t.get? id = some p) (ho : p.owner = .others) :
    ∃ t₁ dest r, t.revise changes id = .ok (1, t₁) ∧
      Settled t id dest r t₁ ∧ r.key = (changes.applied p).key ∧ changes.Marks r := by
  have hid := hv.id_of_get? hp
  have hone := hv.length_hits_le_one hk (changes.applied p)
  match hh : hits (changes.applied p) t.rows.profiles with
  | [] =>
    exact ⟨_, id, changes.applied p, revise_of_new hp hid hh, settled_set hv hp hh, rfl,
      changes.marks_applied p⟩
  | [row] =>
    obtain ⟨other, hrow, hg, hrk, -⟩ := hv.exists_of_mem_hits (hh ▸ List.mem_singleton_self row)
    have hkey : (updateOnto row (changes.applied p) changes).1.key = row.key := key_updateOnto hrk
    exact ⟨_, other, _, revise_of_hit hp hid ho hh hrow, settled_merge hv hk hg hkey, hkey.trans hrk,
      marks_updateOnto row p changes⟩
  | _ :: _ :: more =>
    rw [hh, List.length_cons, List.length_cons] at hone
    omega

/-- **Ordinary rows settle one after the other** when they are revised, and each is counted. -/
theorem exists_settling_of_reviseAll (changes : Update) : ∀ {ids : List RowId} {t : Table}, t.Valid →
    t.KeysUnique → ids.Nodup → (∀ id ∈ ids, ∃ p, t.get? id = some p ∧ p.owner = .others) →
    ∃ t', reviseAll changes ids t = .ok (ids.length, t') ∧
      Settling (fun p => (changes.applied p).key) changes.Marks ids t t'
  | [], t, _, _, _, _ => ⟨t, rfl, .nil t⟩
  | id :: ids, t, hv, hk, hn, ho => by
    obtain ⟨hid, hn⟩ := List.nodup_cons.mp hn
    obtain ⟨p, hp, hpo⟩ := ho id List.mem_cons_self
    obtain ⟨t₁, dest, r, hr, hs, hkey, hm⟩ :=
      exists_settled_of_revise changes hv hk hp hpo
    have hmoves := moves_of_revise hv hp hr
    have ho' : ∀ i ∈ ids, ∃ q, t₁.get? i = some q ∧ q.owner = .others := fun i hi => by
      obtain ⟨q, hq, hqo⟩ := ho i (List.mem_cons_of_mem id hi)
      have hne : i ≠ id := fun heq => hid (heq ▸ hi)
      obtain ⟨q', hq', hkq⟩ := (hs.exists_key_iff hne).mpr ⟨q, hq, rfl⟩
      exact ⟨q', hq', (Profile.owner_eq_of_key_eq hkq).trans hqo⟩
    obtain ⟨t', hall, hrest⟩ := exists_settling_of_reviseAll changes (hmoves.valid hv)
      (hmoves.keysUnique hv hk) hn ho'
    refine ⟨t', ?_, .cons hp hkey (fun q hq => ?_) hm hs hrest⟩
    · rw [reviseAll_cons_of_ok hr hall, List.length_cons, Nat.add_comm]
    · exact Update.key_applied_of_key_eq (hq.trans hkey).symm

/-- What an update of the chosen rows, all of them ordinary, makes of a table. -/
structure Updated (changes : Update) (chosen : List Profile) (t t' : Table) : Prop where
  /-- The keys are those that the update gives to the chosen rows, and those of the other rows. -/
  mem_keys : ∀ k, k ∈ t'.rows.profiles.map Profile.key ↔
    k ∈ chosen.map (fun r => (changes.applied r).key) ∨
      k ∈ (t.rows.profiles.filter (· ∉ chosen)).map Profile.key
  /-- Each key is held by one row. -/
  keysUnique : t'.KeysUnique
  /-- No id is new. -/
  ids : ∀ id, (t'.get? id).isSome → (t.get? id).isSome
  /-- A row stays as it is if it was not chosen and no chosen row got its key. -/
  unchanged : ∀ id r, t.get? id = some r → r ∉ chosen →
    (∀ m ∈ chosen, (changes.applied m).key ≠ r.key) → t'.get? id = some r
  /-- A row with a key that the update gave to a chosen row has the mark of the update. -/
  marked : ∀ p ∈ t'.rows.profiles, (∃ m ∈ chosen, (changes.applied m).key = p.key) → changes.Marks p

/-- Rows that settle as an update says make the table the updated one. -/
theorem updated_of_settling {q : Predicate} (hv : t.Valid) (hv' : t'.Valid) (hk' : t'.KeysUnique)
    (h : Settling (fun p => (changes.applied p).key) changes.Marks
      ((t.matching q).filterMap (·.id)) t t') : Updated changes (t.matching q) t t' := by
  have hlists := hv.lists_matching q
  have hn := hlists.nodup_ids
  -- The ids that settle are those of the chosen rows.
  have hnext {k : Profile.Key} : (∃ id ∈ (t.matching q).filterMap (·.id), ∃ p, t.get? id = some p ∧
      (changes.applied p).key = k) ↔ ∃ m ∈ t.matching q, (changes.applied m).key = k := by
    constructor
    · rintro ⟨id, hid, p, hp, hk⟩
      exact ⟨p, (hlists.mem_ids hv hp).mp hid, hk⟩
    · rintro ⟨m, hm, hk⟩
      obtain ⟨id, hid, hg⟩ := hv.mem_profiles_iff.mp (mem_matching.mp hm).1
      exact ⟨id, (hlists.mem_ids hv hg).mpr hm, m, hg, hk⟩
  refine ⟨fun k => ?_, hk', fun id => h.isSome_of_isSome, fun id r hr hc hne => ?_,
    fun p hp hm => ?_⟩
  · rw [hv'.mem_keys, h.exists_key_iff hn, hnext, List.mem_map, List.mem_map]
    refine or_congr Iff.rfl ⟨?_, ?_⟩
    · rintro ⟨id, hid, p, hp, hk⟩
      exact ⟨p, List.mem_filter.mpr ⟨hv.mem_profiles hp,
        decide_eq_true fun hm => hid ((hlists.mem_ids hv hp).mpr hm)⟩, hk⟩
    · rintro ⟨p, hp, hk⟩
      obtain ⟨hp, hc⟩ := List.mem_filter.mp hp
      obtain ⟨id, -, hg⟩ := hv.mem_profiles_iff.mp hp
      exact ⟨id, fun hid => of_decide_eq_true hc ((hlists.mem_ids hv hg).mp hid), p, hg, hk⟩
  · refine h.get?_eq_some hn (fun hid => hc ((hlists.mem_ids hv hr).mp hid)) hr ?_
    exact fun i hi p hp => hne p ((hlists.mem_ids hv hp).mp hi)
  · obtain ⟨id, -, hg⟩ := hv'.mem_profiles_iff.mp hp
    exact h.holds_of_key hn hg (hnext.mpr hm)

/-- **An update of ordinary rows** counts the rows that it selects, and makes the table the updated
one, if keys are distinct. -/
theorem exists_updated {q : Predicate} (changes : Update) (hv : t.Valid) (hk : t.KeysUnique)
    (ho : ∀ p ∈ t.matching q, p.owner = .others) :
    ∃ t', t.updateWhere q changes = .ok ((t.matching q).length, t') ∧
      Updated changes (t.matching q) t t' := by
  have hlists := hv.lists_matching q
  have hids : ∀ id ∈ (t.matching q).filterMap (·.id), ∃ p, t.get? id = some p ∧ p.owner = .others :=
    fun id hid => by
      obtain ⟨p, hm, hg⟩ := hv.exists_of_mem_matching hid
      exact ⟨p, hg, ho p hm⟩
  obtain ⟨t', hall, hs⟩ := exists_settling_of_reviseAll changes hv hk hlists.nodup_ids hids
  have hmoves := moves_of_reviseAll (S := fun _ => True) hv (fun _ _ _ _ => trivial) hall
  refine ⟨t', ?_, updated_of_settling hv (hmoves.valid hv) (hmoves.keysUnique hv hk) hs⟩
  rw [updateWhere, hall, hlists.length_ids]

end Table

namespace Registry

variable {setup : Setup} {caller : Caller} {target : Target} {q : Predicate} {changes : Update}
  {partition : Partition} {s : State Table}

/-- The status of a row that the caller edited. -/
def editedBy (caller : Caller) : EditStatus :=
  if caller.isCarrier then .carrierEdited else .userEdited

theorem isUnedited_editedBy (caller : Caller) : (editedBy caller).isUnedited = false := by
  unfold editedBy
  split
  · rfl
  · rfl

theorem isDeleted_editedBy (caller : Caller) : (editedBy caller).isDeleted = false := by
  unfold editedBy
  split
  · rfl
  · rfl

/-- An update of ordinary rows sets a status: its own one, or else that of a row that the caller
edited. -/
theorem stamped_of_others (h : partition.owner = .others) : stamped caller partition changes =
    { changes with status := some (changes.status.getD (editedBy caller)) } := by
  unfold stamped
  cases hs : changes.status with
  | none =>
    rw [h]
    rfl
  | some status =>
    rw [Option.isNone_some, Bool.and_false, if_neg Bool.false_ne_true, Option.getD_some, ← hs]

/-- **The effect of an update of ordinary rows**: it counts the rows that it chooses. The keys of the
table are those that the update gives to these rows, and those of the other rows, each held by one
row; no id is new; rows of which neither holds stay as they are. If the update sets no status, the
rows with the keys that it gives are marked as edited, and so they are visible. -/
theorem update_ordinary (setup : Setup) (caller : Caller) (target : Target) (q : Predicate)
    (changes : Update) (partition : Partition) (s : State Table) (hv : s.store.Valid)
    (hk : s.store.KeysUnique)
    (ha : partitionFor setup caller target .update s.enforced = .ok partition)
    (ho : partition.owner = .others) (hc : changes.isEmpty = false) :
    let changes' : Update := { changes with status := some (changes.status.getD (editedBy caller)) }
    let rows := chosen setup .others target q s.store
    ∃ s', (update setup caller target q changes).perform s = (.ok rows.length, s') ∧
      Table.Updated changes' rows s.store s'.store ∧
      (changes.status = none → ∀ p ∈ s'.store.rows.profiles,
        (∃ r ∈ rows, (changes'.applied r).key = p.key) →
          p.status = editedBy caller ∧ p.isVisible = true) := by
  intro changes' rows
  have hstamped : stamped caller partition changes = changes' := stamped_of_others ho
  have hrows : s.store.matching (selected setup partition target q) = rows := by
    rw [matching_selected, ho]
  obtain ⟨t', hupdate, hu⟩ := Table.exists_updated changes' hv hk fun p hp =>
    owner_of_mem_chosen (hrows ▸ hp)
  rw [hrows] at hupdate hu
  rw [perform_update hv ha hc, hstamped, perform_announcing (perform_edits_of_ok hupdate)]
  refine ⟨_, rfl, hu, fun hs p hp hm => ?_⟩
  have hset : changes'.status = some (editedBy caller) := by
    show some (changes.status.getD (editedBy caller)) = _
    rw [hs, Option.getD_none]
  have hstatus : p.status = editedBy caller :=
    hu.marked p hp hm _ hset (isUnedited_editedBy caller)
  refine ⟨hstatus, ?_⟩
  rw [Profile.isVisible, hstatus, isDeleted_editedBy]
  rfl

/-- The first row is updated onto a tombstone, which comes to light as an edited row. -/
theorem update_ordinary_tombstone :
    let s : State Table :=
      .initial {} (.ofProfiles [{ apn := "web" }, { apn := "mms", status := .userDeleted }])
    let target : Target := .table .general none
    let changes : Update := { apn := some "mms" }
    s.store.KeysUnique ∧ partitionFor {} .system target .update s.enforced = .ok ⟨.others, none⟩ ∧
      changes.isEmpty = false ∧
      ∃ s', (update {} .system target .always changes).perform s = (.ok 1, s') ∧
        Table.Updated { changes with status := some .userEdited }
          (chosen {} .others target .always s.store) s.store s'.store := by
  intro s target changes
  have hk : s.store.KeysUnique := by decide
  have ha : partitionFor {} .system target .update s.enforced = .ok ⟨.others, none⟩ := rfl
  have hc : changes.isEmpty = false := by decide
  obtain ⟨s', hs', hu, -⟩ := update_ordinary {} .system target .always changes ⟨.others, none⟩ s
    (.ofProfiles _) hk ha rfl hc
  exact ⟨hk, ha, hc, s', hs', hu⟩

end Registry

end ApnRegistry
