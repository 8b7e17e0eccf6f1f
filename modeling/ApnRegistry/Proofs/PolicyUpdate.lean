import ApnRegistry.Proofs.Owners

/-!
# Updates of policy rows: all or nothing

A policy row is never merged onto another. So an update of policy rows either gives each of its rows
the new content under the old id (`Table.assign`), or is stopped by the first row that collides, and
then nothing is changed.

It is stopped iff two policy rows would share a key at the end (`reviseAll_of_dpc`). A row is not
stopped by one that is still to come and would move away: if the key of that one is the new key of
the first, it is its own new key as well.

Result: `update_policyRows`, the two outcomes and the exact condition.
-/

namespace ApnRegistry

open Collision

namespace Update

variable {u : Update} {ps : List Profile} {p : Profile}

/-- The row, updated if it is one of the chosen ones. -/
def appliedTo (u : Update) (chosen : List Profile) (p : Profile) : Profile :=
  if p ∈ chosen then u.applied p else p

theorem appliedTo_of_not_mem (h : p ∉ ps) : u.appliedTo ps p = p := if_neg h

@[simp] theorem owner_appliedTo (u : Update) (ps : List Profile) (p : Profile) :
    (u.appliedTo ps p).owner = p.owner := by
  unfold appliedTo
  split
  · rfl
  · rfl

/-- Rows of another owner than the chosen ones are not updated. -/
theorem appliedTo_of_owner_ne {o : Owner} (h : ∀ q ∈ ps, q.owner = o) (hp : p.owner ≠ o) :
    u.appliedTo ps p = p :=
  appliedTo_of_not_mem fun hm => hp (h p hm)

end Update

namespace Table

variable {t : Table} {changes : Update} {p row : Profile} {id : RowId} {ids : List RowId}

/-! ## Rows with other contents -/

/-- The table with other contents under its ids. -/
def mapRows (f : RowId → Profile → Profile) (t : Table) : Table :=
  { t with rows := t.rows.map fun e => (e.1, f e.1 e.2) }

theorem mapRows_congr {f g : RowId → Profile → Profile}
    (h : ∀ e ∈ t.rows, f e.1 e.2 = g e.1 e.2) : t.mapRows f = t.mapRows g :=
  congrArg (Table.mk · t.nextId) (List.map_congr_left fun e he => Prod.ext rfl (h e he))

theorem mapRows_eq_self {f : RowId → Profile → Profile} (h : ∀ e ∈ t.rows, f e.1 e.2 = e.2) :
    t.mapRows f = t :=
  (mapRows_congr (g := fun _ p => p) h).trans (congrArg (Table.mk · t.nextId) t.rows.map_id)

theorem get?_mapRows (f : RowId → Profile → Profile) (t : Table) (id : RowId) :
    (t.mapRows f).get? id = (t.get? id).map (f id) :=
  t.rows.get?_map f id

theorem Valid.mapRows {f : RowId → Profile → Profile} (h : t.Valid)
    (hf : ∀ id p, (f id p).id = p.id) : (t.mapRows f).Valid where
  sorted := List.pairwise_map.mpr h.sorted
  named := fun e he => by
    obtain ⟨e', he', rfl⟩ := List.mem_map.mp he
    exact (hf e'.1 e'.2).trans (h.named e' he')
  bounded := fun e he => by
    obtain ⟨e', he', rfl⟩ := List.mem_map.mp he
    exact h.bounded e' he'
  positive := h.positive

/-- Contents that keep their owners. -/
theorem only_mapRows {f : RowId → Profile → Profile} (hf : ∀ id p, (f id p).owner = p.owner)
    (o : Owner) (t : Table) : (t.mapRows f).only o = (t.only o).mapRows f := by
  refine congrArg (Table.mk · t.nextId) ?_
  rw [mapRows, List.filter_map]
  refine congrArg (List.map _) (List.filter_congr fun e _ => ?_)
  show ((f e.1 e.2).owner == o) = (e.2.owner == o)
  rw [hf]

/-- The table with the update carried out on the rows under the ids. -/
def assign (changes : Update) (ids : List RowId) : Table → Table :=
  mapRows fun id p => if id ∈ ids then changes.applied p else p

theorem Valid.assign (h : t.Valid) (changes : Update) (ids : List RowId) :
    (t.assign changes ids).Valid :=
  h.mapRows fun id p => by
    split
    · rfl
    · rfl

theorem get?_assign (changes : Update) (ids : List RowId) (t : Table) (id : RowId) :
    (t.assign changes ids).get? id =
      (t.get? id).map fun p => if id ∈ ids then changes.applied p else p :=
  get?_mapRows _ t id

theorem assign_nil (changes : Update) (t : Table) : t.assign changes [] = t :=
  mapRows_eq_self fun _ _ => if_neg List.not_mem_nil

/-- One row first, and then the others. -/
theorem assign_set (hv : t.Valid) (hp : t.get? id = some p) (hid : id ∉ ids) :
    (t.set id (changes.applied p)).assign changes ids = t.assign changes (id :: ids) := by
  have hset := hv.set hp ((changes.id_applied p).trans (hv.id_of_get? hp))
  refine (hset.assign changes ids).ext (hv.assign changes (id :: ids)) (fun other => ?_) rfl
  rw [get?_assign, get?_assign, get?_set]
  by_cases ho : other = id
  · subst ho
    rw [if_pos rfl, hp, Option.map_some, Option.map_some, if_neg hid, if_pos List.mem_cons_self]
  · rw [if_neg ho]
    simp only [List.mem_cons, ho, false_or]

/-! ## Revising policy rows -/

/-- **A row that stops the update would share its key in the end**: the row that it hits has that key,
also if it is updated itself. -/
theorem not_keysUnique_assign (hv : t.Valid) (hp : t.get? id = some p) (hid : id ∈ ids)
    (hrow : row ∈ hits (changes.applied p) t.rows.profiles) :
    ¬(t.assign changes ids).KeysUnique := by
  intro hk
  obtain ⟨other, -, hg, hkey, hne⟩ := hv.exists_of_mem_hits hrow
  have hpa : (t.assign changes ids).get? id = some (changes.applied p) := by
    rw [get?_assign, hp, Option.map_some, if_pos hid]
  have hrowa : ∃ r, (t.assign changes ids).get? other = some r ∧ r.key = row.key := by
    rw [get?_assign, hg, Option.map_some]
    refine ⟨_, rfl, ?_⟩
    split
    · exact Update.key_applied_of_key_eq hkey.symm
    · rfl
  obtain ⟨r, hr, hrk⟩ := hrowa
  have hsame := (hv.assign changes ids).keysUnique_iff.mp hk id other _ r hpa hr
    (hkey.symm.trans hrk.symm)
  exact hne (((changes.id_applied p).trans (hv.id_of_get? hp)).trans (congrArg some hsame))

/-- **Policy rows are revised all or not at all**: all of them if the keys are distinct afterwards, and
else some row would collide. -/
theorem reviseAll_of_dpc (changes : Update) : ∀ {ids : List RowId} {t : Table}, t.Valid →
    t.KeysUnique → ids.Nodup → (∀ id ∈ ids, ∃ p, t.get? id = some p ∧ p.owner = .dpc) →
    ((t.assign changes ids).KeysUnique ∧
      reviseAll changes ids t = .ok (ids.length, t.assign changes ids)) ∨
    (¬(t.assign changes ids).KeysUnique ∧
      ∃ e, reviseAll changes ids t = .error e ∧ e.kind = .conflict)
  | [], t, _, hk, _, _ => by
    rw [assign_nil]
    exact Or.inl ⟨hk, rfl⟩
  | id :: ids, t, hv, hk, hn, ho => by
    obtain ⟨hid, hn⟩ := List.nodup_cons.mp hn
    obtain ⟨p, hp, hpo⟩ := ho id List.mem_cons_self
    by_cases hh : hits (changes.applied p) t.rows.profiles = []
    · have hr := revise_of_new hp (hv.id_of_get? hp) hh
      have hmoves := moves_of_revise hv hp hr
      have ho' : ∀ i ∈ ids, ∃ q, (t.set id (changes.applied p)).get? i = some q ∧ q.owner = .dpc :=
        fun i hi => by
          have hne : i ≠ id := fun heq => hid (heq ▸ hi)
          rw [get?_set, if_neg hne]
          exact ho i (List.mem_cons_of_mem id hi)
      have ih := reviseAll_of_dpc changes (hmoves.valid hv) (hmoves.keysUnique hv hk) hn ho'
      rw [assign_set hv hp hid] at ih
      refine ih.imp (fun ⟨hu, hall⟩ => ⟨hu, ?_⟩) fun ⟨hu, e, hall, he⟩ => ⟨hu, e, ?_, he⟩
      · rw [reviseAll_cons_of_ok hr hall, List.length_cons, Nat.add_comm]
      · exact reviseAll_cons_of_error_tail hr hall
    · obtain ⟨e, hr, he⟩ := resolveUpdate_of_dpc hpo hh
      obtain ⟨row, hrow⟩ := List.exists_mem_of_ne_nil _ hh
      exact Or.inr ⟨not_keysUnique_assign hv hp List.mem_cons_self hrow, e,
        reviseAll_cons_of_error ids (revise_of_error hp hr), he⟩

/-! ## The selected rows -/

/-- The selected rows are updated by what they are, as well as by their ids. -/
theorem assign_matching {q : Predicate} (hv : t.Valid) (changes : Update) :
    t.assign changes ((t.matching q).filterMap (·.id)) =
      t.mapRows fun _ => changes.appliedTo (t.matching q) := by
  refine mapRows_congr fun e he => ?_
  have hids := (hv.lists_matching q).mem_ids hv (hv.mem_iff.mp he)
  rw [Update.appliedTo]
  by_cases hm : e.2 ∈ t.matching q
  · rw [if_pos hm, if_pos (hids.mpr hm)]
  · rw [if_neg hm, if_neg (mt hids.mp hm)]

/-- Where policy rows alone get other contents, keys are distinct as soon as those of policy rows
are. -/
theorem keysUnique_mapRows_iff {f : Profile → Profile} (hk : t.KeysUnique)
    (ho : ∀ r, (f r).owner = r.owner) (hf : ∀ r, r.owner = .others → f r = r) :
    (t.mapRows fun _ r => f r).KeysUnique ↔
      ((t.only .dpc).rows.profiles.map fun r => (f r).key).Nodup := by
  have hrows : (t.mapRows fun _ r => f r).rows.profiles.map Profile.key =
      t.rows.profiles.map fun r => (f r).key := by
    simp only [mapRows, Rows.profiles, List.map_map]
    rfl
  rw [KeysUnique, hrows, profiles_only]
  have hn : t.rows.profiles.Nodup := hk.of_map Profile.key
  constructor
  · exact fun h => (List.filter_sublist.map _).nodup h
  · intro h
    rw [List.nodup_map_iff_inj_on (hn.filter _)] at h
    rw [List.nodup_map_iff_inj_on hn]
    intro x hx y hy hxy
    have howner : x.owner = y.owner := by
      rw [← ho x, ← ho y]
      exact Profile.owner_eq_of_key_eq hxy
    cases hxo : x.owner with
    | dpc =>
      exact h x (List.mem_filter.mpr ⟨hx, beq_iff_eq.mpr hxo⟩) y
        (List.mem_filter.mpr ⟨hy, beq_iff_eq.mpr (howner ▸ hxo)⟩) hxy
    | others =>
      rw [hf x hxo, hf y (howner ▸ hxo)] at hxy
      exact List.inj_on_of_nodup_map hk hx hy hxy

/-- What an update of policy rows makes of the table: all of its rows are updated, or none is. -/
theorem updateWhere_of_dpc {q : Predicate} (changes : Update) (hv : t.Valid) (hk : t.KeysUnique)
    (ho : ∀ p ∈ t.matching q, p.owner = .dpc) :
    let f := changes.appliedTo (t.matching q)
    (((t.only .dpc).rows.profiles.map fun r => (f r).key).Nodup →
      t.updateWhere q changes = .ok ((t.matching q).length, t.mapRows fun _ => f)) ∧
    (¬((t.only .dpc).rows.profiles.map fun r => (f r).key).Nodup →
      t.updateWhere q changes = .ok (0, t)) := by
  intro f
  have hlists := hv.lists_matching q
  have hids : ∀ id ∈ (t.matching q).filterMap (·.id), ∃ p, t.get? id = some p ∧ p.owner = .dpc :=
    fun id hid => by
      obtain ⟨p, hm, hg⟩ := hv.exists_of_mem_matching hid
      exact ⟨p, hg, ho p hm⟩
  have hothers (r : Profile) (hr : r.owner = .others) : f r = r :=
    Update.appliedTo_of_owner_ne ho (by rw [hr]; nofun)
  have hiff := keysUnique_mapRows_iff hk (changes.owner_appliedTo (t.matching q)) hothers
  have hall := reviseAll_of_dpc changes hv hk hlists.nodup_ids hids
  rw [assign_matching hv changes, hlists.length_ids] at hall
  rcases hall with ⟨hu, hr⟩ | ⟨hu, e, hr, he⟩
  · refine ⟨fun _ => ?_, fun h => absurd (hiff.mp hu) h⟩
    rw [updateWhere, hr]
  · refine ⟨fun h => absurd (hiff.mpr h) hu, fun _ => ?_⟩
    rw [updateWhere, hr]
    exact if_pos he

end Table

namespace Registry

/-- **The effect of an update of policy rows**: if the keys of the policy rows are distinct when the
chosen ones are updated, these are updated under their old ids, and counted; otherwise nothing at all
is changed or posted, and the count is zero. Ordinary rows never change. -/
theorem update_policyRows (setup : Setup) (caller : Caller) (target : Target) (q : Predicate)
    (changes : Update) (partition : Partition) (s : State Table) (hv : s.store.Valid)
    (hk : s.store.KeysUnique)
    (ha : partitionFor setup caller target .update s.enforced = .ok partition)
    (ho : partition.owner = .dpc) (hc : changes.isEmpty = false) :
    let rows := chosen setup .dpc target q s.store
    let f := changes.appliedTo rows
    let distinct := ((s.store.only .dpc).rows.profiles.map fun r => (f r).key).Nodup
    (distinct → ∃ s', (update setup caller target q changes).perform s = (.ok rows.length, s') ∧
      (s'.store.only .dpc).rows = (s.store.only .dpc).rows.map (fun e => (e.1, f e.2)) ∧
      (s'.store.only .others).rows = (s.store.only .others).rows) ∧
    (¬distinct → (update setup caller target q changes).perform s = (.ok 0, s)) := by
  intro rows f distinct
  have hrows : s.store.matching (selected setup partition target q) = rows := by
    rw [matching_selected, ho]
  have hdpc : ∀ p ∈ rows, p.owner = .dpc := fun p hp => owner_of_mem_chosen hp
  have hstamped : stamped caller partition changes = changes := by
    unfold stamped
    rw [ho]
    rfl
  obtain ⟨hall, hnone⟩ := Table.updateWhere_of_dpc changes hv hk (hrows ▸ hdpc)
  rw [hrows] at hall hnone
  rw [perform_update hv ha hc, hstamped]
  constructor
  · intro h
    rw [perform_announcing (perform_edits_of_ok (hall h))]
    have honly (o : Owner) : (s.store.mapRows fun _ => f).only o =
        (s.store.only o).mapRows fun _ => f :=
      Table.only_mapRows (fun _ => changes.owner_appliedTo rows) o s.store
    refine ⟨_, rfl, congrArg Table.rows (honly .dpc), congrArg Table.rows ?_⟩
    rw [honly, Table.mapRows_eq_self]
    intro e he
    have hothers : e.2.owner = .others := beq_iff_eq.mp (List.mem_filter.mp he).2
    exact Update.appliedTo_of_owner_ne hdpc (by rw [hothers]; nofun)
  · intro h
    rw [perform_announcing (perform_edits_of_ok (hnone h))]
    rfl

/-- Both rows get the proxy, but they cannot both get the same name. -/
theorem update_policyRows_web_vpn :
    let s : State Table :=
      .initial {} (.ofProfiles [{ apn := "web", owner := .dpc }, { apn := "vpn", owner := .dpc }])
    let target : Target := .table .dpc none
    let proxied : Update := { proxy := some "10.0.0.1" }
    let renamed : Update := { apn := some "mms" }
    s.store.KeysUnique ∧ partitionFor {} .system target .update s.enforced = .ok ⟨.dpc, none⟩ ∧
      proxied.isEmpty = false ∧ renamed.isEmpty = false ∧
      (∃ s', (update {} .system target .always proxied).perform s = (.ok 2, s') ∧
        (s'.store.only .others).rows = (s.store.only .others).rows) ∧
      (update {} .system target .always renamed).perform s = (.ok 0, s) := by
  intro s target proxied renamed
  have hk : s.store.KeysUnique := by decide
  have ha : partitionFor {} .system target .update s.enforced = .ok ⟨.dpc, none⟩ := rfl
  have hc : proxied.isEmpty = false := by decide
  have hc' : renamed.isEmpty = false := by decide
  have hall := update_policyRows {} .system target .always proxied ⟨.dpc, none⟩ s (.ofProfiles _) hk
    ha rfl hc
  have hnone := update_policyRows {} .system target .always renamed ⟨.dpc, none⟩ s (.ofProfiles _) hk
    ha rfl hc'
  obtain ⟨s', hs', -, hothers⟩ := hall.1 (by decide)
  exact ⟨hk, ha, hc, hc', ⟨s', hs', hothers⟩, hnone.2 (by decide)⟩

end Registry

end ApnRegistry
