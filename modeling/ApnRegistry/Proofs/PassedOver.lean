import ApnRegistry.Proofs.Deletion
import ApnRegistry.Proofs.PolicyUpdate
import ApnRegistry.Proofs.QueryOutcome
import Mathlib.Tactic.ByContra

/-!
# Rows that a deletion passes over

A deletion and a query may disagree on the rows that a condition selects. The deletion looks at the rows as
they are stored, the query at their modern forms, and it may even merge rows before it looks at them. So
a query for what has just been deleted may still find rows. Whatever it finds was rewritten by the query
itself, and goes back to visible rows with integer codes that the deletion has passed over.

Results:
* `Table.exists_of_visible_refreshAll`: where the visible rows come from that are rewritten.
* `Table.get?_refreshAll_of_apart`: where modern forms have distinct keys, each row stays under its id.
* `Registry.query_after_delete`: what a query finds after a deletion, and when it finds nothing.
* `Registry.not_forall_query_after_delete_eq_nil`: it may find a row.
-/

namespace ApnRegistry

open Collision LegacyCodes

namespace Table

variable {known : List String} {t t' t'' : Table} {id other : RowId} {old modern q row : Profile}
  {found : List Profile} {done : Bool} {n : Nat}

/-! ## Where visible rows come from -/

/-- A visible row that is rewritten has the key of the modern form, and goes back to a visible row. -/
theorem Landing.origin (h : Landing t id old modern t') (hp : pending known old = some modern)
    (hq : t'.get? other = some q) (hne : t.get? other ≠ some q) (hvis : q.isVisible = true) :
    old.isVisible = true ∧ modern.key = q.key := by
  have hstatus : modern.isVisible = old.isVisible := by
    rw [Profile.isVisible, Profile.isVisible, ← modernized_of_some hp, status_modernized]
  cases h with
  | stay =>
    rw [get?_set] at hq
    split_ifs at hq
    · cases hq
      exact ⟨hstatus.symm.trans hvis, rfl⟩
    · exact absurd hq hne
  | yield =>
    rw [get?_remove] at hq
    split_ifs at hq
    exact absurd hq hne
  | merge _ _ _ key =>
    rw [get?_set, get?_remove] at hq
    split_ifs at hq
    · cases hq
      exact ⟨hstatus.symm.trans (isVisible_of_mergeOnto hvis), ((key_mergeOnto key).trans key).symm⟩
    · exact absurd hq hne

/-- **Each visible row that is rewritten** has the key of the modern form of a visible row that waited. -/
theorem exists_of_visible_refreshAll : ∀ {found : List Profile} {t : Table}, t.Valid →
    (refreshAll known found t).2.get? other = some q → t.get? other ≠ some q → q.isVisible = true →
    ∃ id w, t.get? id = some w ∧ (pending known w).isSome = true ∧ w.isVisible = true ∧
      (modernized known w).key = q.key
  | [], _, _, hq, hne, _ => absurd hq hne
  | row :: found, t, hv, hq, hne, hvis => by
    cases h : t.refresh known row with
    | error e =>
      rw [refreshAll_cons_of_error h] at hq
      exact absurd hq hne
    | ok r =>
      obtain ⟨done, t₁⟩ := r
      rw [refreshAll_cons_of_ok h] at hq
      by_cases hq₁ : t₁.get? other = some q
      · rcases landing_of_refresh hv h with rfl | ⟨id, modern, hp, hg, hland⟩
        · exact absurd hq₁ hne
        · obtain ⟨hold, hkey⟩ := hland.origin hp hq₁ hne hvis
          exact ⟨id, row, hg, by rw [hp]; rfl, hold, by rw [modernized_of_some hp, hkey]⟩
      · obtain ⟨id, w, hw, hwaits, hrest⟩ :=
          exists_of_visible_refreshAll ((moves_of_refresh hv h).valid hv) hq hq₁ hvis
        exact ⟨id, w, (refreshed_of_refresh hv h).waits id w hwaits hw, hwaits, hrest⟩

/-! ## Modern forms with distinct keys -/

/-- The table with each row in modern form, under its id. -/
def modernForm (known : List String) : Table → Table := mapRows fun _ p => modernized known p

theorem get?_modernForm (id : RowId) :
    (t.modernForm known).get? id = (t.get? id).map (modernized known) :=
  get?_mapRows _ t id

theorem Valid.modernForm (h : t.Valid) (known : List String) : (t.modernForm known).Valid :=
  h.mapRows fun _ p => id_modernized known p

/-- Where modern forms have distinct keys, a row that is stored gets its modern form and keeps its id. -/
theorem get?_refresh_of_apart (hv : t.Valid) (hu : (t.modernForm known).KeysUnique)
    (hid : row.id = some id) (hg : t.get? id = some row) (h : t.refresh known row = .ok (done, t'))
    (other : RowId) : t'.get? other = if other = id then some (modernized known row) else t.get? other := by
  cases hp : pending known row with
  | none =>
    rw [refresh, hp] at h
    cases h
    rw [modernized_of_none hp]
    split_ifs with ho
    · rw [ho, hg]
    · rfl
  | some modern =>
    have hold : modernized known row = modern := modernized_of_some hp
    have hmodernize : t.modernize row modern = .ok (done, t') := by simpa only [refresh, hp] using h
    -- A row with the key of the modern form is in modern form itself, so it is the row itself.
    have hnone {dest : RowId} {r : Profile} (hne : dest ≠ id) (hr : t.get? dest = some r) :
        r.key ≠ modern.key := fun hk => by
      refine hne ((hv.modernForm known).keysUnique_iff.mp hu dest id r modern ?_ ?_ hk)
      · rw [get?_modernForm, hr, Option.map_some, modernized_of_none (pending_of_key_eq hp hk)]
      · rw [get?_modernForm, hg, Option.map_some, hold]
    rw [hold]
    cases (landing_of_modernize hv (id_of_pending hp) hid hg hmodernize).2 with
    | stay => rw [get?_set]
    | yield _ ne there key => exact absurd key (hnone ne there)
    | merge _ ne there key => exact absurd key (hnone ne there)

/-- **Where modern forms have distinct keys**, listed rows get their modern forms, and no row moves. -/
theorem get?_refreshAll_of_apart : ∀ {found : List Profile} {t t' : Table} {n : Nat}, t.Valid →
    t.Lists found → (t.modernForm known).KeysUnique → refreshAll known found t = (.ok n, t') →
    ∀ id, t'.get? id = (t.get? id).map fun p => if p ∈ found then modernized known p else p
  | [], _, _, _, _, _, _, h, id => by
    cases h
    simp
  | row :: found, t, t', n, hv, hl, hu, h, id => by
    obtain ⟨own, hid, hg⟩ := hl.live row List.mem_cons_self
    obtain ⟨hother, hd⟩ := List.pairwise_cons.mp hl.different
    obtain ⟨done, t₁, m, hr, hm, -⟩ := exists_of_refreshAll_cons h
    have hget := get?_refresh_of_apart hv hu hid hg hr
    have hv₁ := (moves_of_refresh hv hr).valid hv
    have hlive : ∀ p ∈ found, ∃ id, p.id = some id ∧ t₁.get? id = some p := fun p hp => by
      obtain ⟨id, hpid, hpg⟩ := hl.live p (List.mem_cons_of_mem row hp)
      have hne : id ≠ own := fun heq => hother p hp (hid.trans (heq ▸ hpid.symm))
      exact ⟨id, hpid, by rw [hget, if_neg hne, hpg]⟩
    -- One row in modern form leaves the modern forms as they are.
    have hsame (i : RowId) : (t₁.modernForm known).get? i = (t.modernForm known).get? i := by
      rw [get?_modernForm, get?_modernForm, hget]
      split_ifs with hi
      · rw [hi, hg, Option.map_some, Option.map_some, modernized_of_none (pending_modernized known row)]
      · rfl
    have hu₁ : (t₁.modernForm known).KeysUnique := (hv₁.modernForm known).keysUnique_iff.mpr (by
      simpa only [hsame] using (hv.modernForm known).keysUnique_iff.mp hu)
    rw [get?_refreshAll_of_apart hv₁ ⟨hd, hlive⟩ hu₁ hm, hget]
    by_cases hi : id = own
    · have hnot : modernized known row ∉ found := fun hmem =>
        hother _ hmem (id_modernized known row).symm
      rw [hi, if_pos rfl, hg, Option.map_some, Option.map_some, if_neg hnot, if_pos List.mem_cons_self]
    · rw [if_neg hi]
      refine Option.map_congr fun p hp => ?_
      have hne : p ≠ row := fun heq => hi (Option.some.inj ((hv.id_of_get? hp).symm.trans (heq ▸ hid)))
      simp only [List.mem_cons, hne, false_or]

/-! ## After a deletion -/

namespace Deleted

variable {sought : Profile → Prop}

/-- A deletion keeps the keys of modern forms distinct. -/
theorem keysUnique_modernForm (h : Deleted sought t t') (hv : t.Valid) (hv' : t'.Valid)
    (hu : (t.modernForm known).KeysUnique) : (t'.modernForm known).KeysUnique := by
  have old (id : RowId) (m : Profile) (hm : (t'.modernForm known).get? id = some m) :
      ∃ m', (t.modernForm known).get? id = some m' ∧ m'.key = m.key := by
    rw [get?_modernForm, Option.map_eq_some_iff] at hm
    obtain ⟨q, hq, rfl⟩ := hm
    obtain ⟨p, mark, hp, rfl⟩ := h.marked id q hq
    exact ⟨modernized known p, by rw [get?_modernForm, hp, Option.map_some],
      (key_modernized_congr (p := p) (q := { p with status := mark }) rfl rfl rfl).2⟩
  refine (hv'.modernForm known).keysUnique_iff.mpr fun id id' m m' hm hm' hk => ?_
  obtain ⟨p, hp, hpk⟩ := old id m hm
  obtain ⟨p', hp', hpk'⟩ := old id' m' hm'
  exact (hv.modernForm known).keysUnique_iff.mp hu id id' p p' hp hp' (hpk.trans (hk.trans hpk'.symm))

/-- **A row that is sought and visible afterwards** has the key of a modern form that the deletion has
passed over. -/
theorem exists_of_refreshAll (h : Deleted sought t t') (hv' : t'.Valid) (hs : sought q)
    (hvis : q.isVisible = true) (hq : (refreshAll known found t').2.get? other = some q) :
    ∃ id w, t.get? id = some w ∧ w.isVisible = true ∧ (pending known w).isSome = true ∧ ¬sought w ∧
      (modernized known w).key = q.key := by
  have hne : t'.get? other ≠ some q := fun hq' => (h.spared other q hq' hvis).2 hs
  obtain ⟨id, w, hw, hwaits, hwvis, hk⟩ := exists_of_visible_refreshAll hv' hq hne hvis
  obtain ⟨hg, hns⟩ := h.spared id w hw hwvis
  exact ⟨id, w, hg, hwvis, hwaits, hns, hk⟩

/-- **Where modern forms have distinct keys**, no row is sought afterwards iff each one that is sought in
modern form was sought as it was. -/
theorem forall_not_iff_of_apart (h : Deleted sought t t') (hv : t.Valid) (hv' : t'.Valid)
    (hu : (t.modernForm known).KeysUnique) (hvis : ∀ p, sought p → p.isVisible = true)
    (hl : t'.Lists found) (hall : ∀ p ∈ t'.rows.profiles, sought (modernized known p) → p ∈ found)
    (hr : refreshAll known found t' = (.ok n, t'')) :
    (∀ p ∈ t''.rows.profiles, ¬sought p) ↔
      ∀ w ∈ t.rows.profiles, sought (modernized known w) → sought w := by
  have hv'' := hv'.refreshAll known found
  rw [hr] at hv''
  have hget := get?_refreshAll_of_apart hv' hl (h.keysUnique_modernForm hv hv' hu) hr
  constructor
  · intro hnone w hw hs
    obtain ⟨id, -, hg⟩ := hv.mem_profiles_iff.mp hw
    by_contra hns
    have hkept := h.kept id w hg hns
    have hmod : t''.get? id = some (modernized known w) := by
      rw [hget, hkept, Option.map_some, if_pos (hall w (hv'.mem_profiles hkept) hs)]
    exact hnone (modernized known w) (hv''.mem_profiles hmod) hs
  · intro hsought p hp hs
    obtain ⟨id, -, hg⟩ := hv''.mem_profiles_iff.mp hp
    rw [hget, Option.map_eq_some_iff] at hg
    obtain ⟨w, hw, rfl⟩ := hg
    split_ifs at hs with hm
    · have hwvis : w.isVisible = true := by
        rw [Profile.isVisible, ← status_modernized known w]
        exact hvis _ hs
      obtain ⟨hg, hns⟩ := h.spared id w hw hwvis
      exact hns (hsought w (hv.mem_profiles hg) hs)
    · exact (h.spared id w hw (hvis w hs)).2 hs

end Deleted

end Table

/-! ## Deletion and query -/

namespace Registry

variable {setup : Setup} {caller : Caller} {target : Target} {q : Predicate} {s s' : State Table} {n : Nat}

/-- **A deletion through the general scope deletes what a query seeks**, as it is stored. -/
theorem deleted_of_delete (hv : s.store.Valid) (hs : target.scope = .general)
    (h : (delete setup caller target q).perform s = (.ok n, s')) :
    Table.Deleted (Sought setup .others target q) s.store s'.store ∧ s'.store.Valid := by
  cases ha : partitionFor setup caller target .delete s.enforced with
  | error e =>
    rw [perform_delete_of_error ha] at h
    cases h
  | ok partition =>
    obtain ⟨hdel, hv', -⟩ := deleted_of_perform_delete hv ha h
    rw [owner_of_general hs ha] at hdel
    exact ⟨hdel.congr (fun p hp => mem_chosen_iff.trans (and_iff_right hp)) hv, hv'⟩

/-- **What a query finds after a deletion**, when both succeed, through the general scope, for one target
and condition, and rows are put into modern form when they are asked for. It finds no row that the
deletion has left, only rows that it rewrites itself. Each of them has the key of the modern form of a
visible row that the deletion has passed over, as it was stored with integer codes and was not sought like
that. Where modern forms have distinct keys, the query finds nothing iff each row that is sought in modern
form was sought as it was stored. -/
theorem query_after_delete (setup : Setup) (caller asker : Caller) (target : Target) (q : Predicate)
    (order : Order) (s s' s'' : State Table) (n : Nat) (found : List Profile) (hv : s.store.Valid)
    (hl : setup.config.lazyMccMncMigration = true) (hs : target.scope = .general)
    (hd : (delete setup caller target q).perform s = (.ok n, s'))
    (hq : (query setup asker target q order).perform s' = (.ok found, s'')) :
    let known := setup.device.known
    let sought := Sought setup .others target q
    s''.store.Listing (fun p => sought p ∧ p ∉ s'.store.rows.profiles) order found ∧
    (∀ p ∈ found, ∃ w ∈ s.store.rows.profiles, w.owner = .others ∧ w.isVisible = true ∧
      (pending known w).isSome = true ∧ ¬sought w ∧ (modernized known w).key = p.key) ∧
    ((s.store.modernForm known).KeysUnique →
      (found = [] ↔ ∀ w ∈ s.store.rows.profiles, sought (modernized known w) → sought w)) := by
  intro known sought
  obtain ⟨hdel, hv'⟩ := deleted_of_delete hv hs hd
  obtain ⟨partition, ha, hlist, -⟩ := (query_lists setup asker target q order s' hv').1 hl found s'' hq
  have ho := owner_of_general hs ha
  rw [ho] at hlist
  obtain ⟨m, hall⟩ := store_of_perform_query hv' hl ha hq
  have hv'' := hv'.refreshAll known (s'.store.scan partition.predicate order)
  rw [hall] at hv''
  refine ⟨hlist.congr fun p => (and_iff_left_of_imp fun hp hmem => ?_).symm, fun p hp => ?_, fun hu => ?_⟩
  · obtain ⟨id, -, hg⟩ := hv'.mem_profiles_iff.mp hmem
    exact (hdel.spared id p hg hp.2.1).2 hp
  · obtain ⟨hmem, hsp⟩ := (hlist.mem_iff p).mp hp
    obtain ⟨other, -, hg⟩ := hv''.mem_profiles_iff.mp hmem
    rw [← congrArg Prod.snd hall] at hg
    obtain ⟨id, w, hw, hvis, hwaits, hns, hk⟩ := hdel.exists_of_refreshAll hv' hsp hsp.2.1 hg
    refine ⟨w, hv.mem_profiles hw, ?_, hvis, hwaits, hns, hk⟩
    rw [← owner_modernized known w, Profile.owner_eq_of_key_eq hk, hsp.1]
  · have hscan : ∀ p ∈ s'.store.rows.profiles, sought (modernized known p) →
        p ∈ s'.store.scan partition.predicate order := fun p hp hsp =>
      mem_scan_predicate.mpr ⟨hp, by rw [ho, ← hsp.1, owner_modernized]⟩
    rw [← hdel.forall_not_iff_of_apart hv hv' hu (fun p hp => hp.2.1)
      ((hv'.listing_scan partition.predicate order).lists hv') hscan hall, List.eq_nil_iff_forall_not_mem]
    simp only [hlist.mem_iff, not_and]

/-- A row in modern form, and another one of the same operator that has integer codes only. -/
def mixed : State Table := .initial {} (.ofProfiles [
  { apn := "web", mcc := "999", mnc := "05", numeric := "99905" },
  { apn := "mms", legacyMcc := some 999, legacyMnc := some 5 }])

/-- The rows of this operator. -/
def ofOperator : Predicate := .equals .numeric (.text "99905")

/-- The row in modern form is deleted, the other one is passed over and found. -/
theorem delete_query_mixed : ∃ s' s'' found,
    (delete {} .system (.table .general none) ofOperator).perform mixed = (.ok 1, s') ∧
    (query {} .system (.table .general none) ofOperator .idAscending).perform s' = (.ok found, s'') ∧
    found ≠ [] := by
  have hd : ((delete {} .system (.table .general none) ofOperator).perform mixed).1 = .ok 1 := by
    decide +kernel
  have hq : ((query {} .system (.table .general none) ofOperator .idAscending).perform
      ((delete {} .system (.table .general none) ofOperator).perform mixed).2).1 =
        .ok [{ id := some ⟨2⟩, apn := "mms", mcc := "999", mnc := "05", numeric := "99905"
               legacyMcc := some 999, legacyMnc := some 5 }] := by
    decide +kernel
  exact ⟨_, _, _, Prod.ext hd rfl, Prod.ext hq rfl, List.cons_ne_nil _ _⟩

/-- It was sought in modern form only. -/
theorem exists_not_sought_mixed :
    (mixed.store.modernForm []).KeysUnique ∧ ∃ w ∈ mixed.store.rows.profiles,
      Sought {} .others (.table .general none) ofOperator (modernized [] w) ∧
        ¬Sought {} .others (.table .general none) ofOperator w := by
  have hu : (mixed.store.modernForm []).KeysUnique := by decide +kernel
  obtain ⟨s', s'', found, hd, hq, hne⟩ := delete_query_mixed
  have hall := query_after_delete {} .system .system (.table .general none) ofOperator .idAscending mixed
    s' s'' 1 found (.ofProfiles _) rfl rfl hd hq
  refine ⟨hu, ?_⟩
  simpa only [not_forall, exists_prop] using (hall.2.2 hu).not.mp hne

/-- **A query may find rows after a deletion** for the same target and condition. -/
theorem not_forall_query_after_delete_eq_nil : ¬∀ (setup : Setup) (caller : Caller) (target : Target)
    (q : Predicate) (order : Order) (s s' s'' : State Table) (n : Nat) (found : List Profile),
    s.store.Valid → setup.config.lazyMccMncMigration = true → target.scope = .general →
    (delete setup caller target q).perform s = (.ok n, s') →
    (query setup caller target q order).perform s' = (.ok found, s'') → found = [] := by
  intro hall
  obtain ⟨s', s'', found, hd, hq, hne⟩ := delete_query_mixed
  exact hne (hall {} .system (.table .general none) ofOperator .idAscending mixed s' s'' 1 found
    (.ofProfiles _) rfl rfl hd hq)

end Registry

end ApnRegistry
