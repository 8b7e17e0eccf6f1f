import ApnRegistry.Proofs.Restoration

/-!
# Seeds and the tombstones that last

A row that was deleted by hand although the factory list still has it leaves a tombstone that no restore
takes out. It hides the factory profile with its key, which is not seeded. But a restore compares keys as
the factory list has them, and only an insert, or a later query, puts profiles into modern form. So a
factory profile with integer codes may be seeded although its modern form has the key of such a tombstone.

Which profiles a restore brings in is settled by keys alone: of the seeds with one key the last one comes,
for the services of all of them, unless a row with that key has stayed.

Results:
* `Seeded.latest`, `Seeded.exists_of_waiting`, `Seeded.exists_waiting`: the profiles that wait in the end.
* `Table.mem_profiles_reseeded`: the rows after a restore.
* `Registry.tombstones_after_restore`: the tombstones that last, and when they hide what they stand for.
-/

namespace ApnRegistry

open Collision LegacyCodes

namespace Restore

variable {e : Extent} {p q w : Profile} {factory survivors done rows : List Profile}
  {s s' : Seeding} {k : Profile.Key}

/-! ## The last seed with a key -/

/-- The last profile of the list that has the key. -/
def lastWith (k : Profile.Key) (ps : List Profile) : Option Profile :=
  (ps.filter (·.key == k)).getLast?

theorem lastWith_append (k : Profile.Key) (ps : List Profile) (q : Profile) :
    lastWith k (ps ++ [q]) = if q.key = k then some q else lastWith k ps := by
  unfold lastWith
  by_cases h : q.key = k <;> simp [List.filter_append, h]

theorem mem_of_lastWith {ps : List Profile} (h : lastWith k ps = some q) : q ∈ ps ∧ q.key = k := by
  obtain ⟨hm, hk⟩ := List.mem_filter.mp (List.mem_of_getLast? h)
  exact ⟨hm, beq_iff_eq.mp hk⟩

/-- The service types of all profiles of the list that have the key, joined from left to right. Those of
a single profile stay as they are spelled. -/
def typesWith (k : Profile.Key) (ps : List Profile) : String :=
  match (ps.filter (·.key == k)).map (·.apnTypes) with
  | [] => ""
  | types :: more => more.foldl ServiceTypes.union types

theorem typesWith_append_of_ne (ps : List Profile) (h : q.key ≠ k) :
    typesWith k (ps ++ [q]) = typesWith k ps := by
  have hsame : (ps ++ [q]).filter (·.key == k) = ps.filter (·.key == k) := by
    simp [List.filter_append, h]
  rw [typesWith, hsame, ← typesWith]

theorem typesWith_append_of_mem {ps : List Profile} (h : q.key ∈ ps.map Profile.key) :
    typesWith q.key (ps ++ [q]) = ServiceTypes.union (typesWith q.key ps) q.apnTypes := by
  obtain ⟨p, hp, hk⟩ := List.mem_map.mp h
  unfold typesWith
  rw [List.filter_append, List.filter_singleton, beq_self_eq_true]
  cases hf : ps.filter (·.key == q.key) with
  | nil => exact absurd (beq_iff_eq.mpr hk) (List.filter_eq_nil_iff.mp hf p hp)
  | cons first more => simp [List.foldl_append]

theorem typesWith_append_of_notMem {ps : List Profile} (h : ∀ p ∈ ps, p.key ≠ q.key) :
    typesWith q.key (ps ++ [q]) = q.apnTypes := by
  have hnil : ps.filter (·.key == q.key) = [] :=
    List.filter_eq_nil_iff.mpr fun p hp => mt beq_iff_eq.mp (h p hp)
  rw [typesWith, List.filter_append, hnil, List.filter_singleton, beq_self_eq_true]
  rfl

/-- Whatever waits is the last seed with its key, with the service types of all seeds with that key. -/
def Seeding.Latest (done : List Profile) (s : Seeding) : Prop :=
  ∀ w ∈ s.waiting, ∃ q, lastWith w.key done = some q ∧ w = { q with apnTypes := typesWith w.key done }

/-- A profile that waits and has another key than the next seed goes on waiting. -/
theorem Seeding.Latest.append_of_ne (h : Seeding.Latest done s) (hw : w ∈ s.waiting) (hne : q.key ≠ w.key) :
    ∃ r, lastWith w.key (done ++ [q]) = some r ∧
      w = { r with apnTypes := typesWith w.key (done ++ [q]) } := by
  rw [lastWith_append, if_neg hne, typesWith_append_of_ne _ hne]
  exact h w hw

/-- **One more seed** takes the place of the one that waits with its key, or waits itself. -/
theorem Seeding.Latest.place (h : Seeding.Latest done s) (hsound : Seeding.Sound survivors s)
    (hcovers : Seeding.Covers survivors done s) (hsound' : Seeding.Sound survivors s') (hid : q.id = none)
    (hplace : s.place survivors q = .ok s') : Seeding.Latest (done ++ [q]) s' := by
  obtain ⟨i, hi, hs'⟩ | ⟨hnone, hs'⟩ | ⟨hnone, -, hs'⟩ := Seeding.waiting_cases hplace
  · obtain ⟨hlt, hkey⟩ := exists_of_placeOf hi
    have hwait := List.getElem_mem hlt
    have hland : (mergeOnto s.waiting[i] q).1 =
        { q with apnTypes := ServiceTypes.union s.waiting[i].apnTypes q.apnTypes } := by
      rw [mergeOnto_of_unedited (hcovers.unedited _ hwait), (hsound.waiting _ hwait).1, ← hid]
    intro w hw
    rw [hs', landAt_eq_set hlt] at hw
    obtain ⟨j, hj, rfl⟩ := List.getElem_of_mem hw
    rw [List.length_set] at hj
    rw [List.getElem_set]
    split_ifs with hij
    · obtain ⟨r, hr, htypes⟩ := h _ hwait
      have hdone : q.key ∈ done.map Profile.key := by
        obtain ⟨hmem, hk⟩ := mem_of_lastWith hr
        exact hkey ▸ hk ▸ List.mem_map_of_mem hmem
      have hunion : s.waiting[i].apnTypes = typesWith q.key done := by
        rw [htypes, hkey]
      rw [hland]
      refine ⟨q, ?_, ?_⟩
      · rw [lastWith_append]
        exact if_pos rfl
      · rw [hunion, ← typesWith_append_of_mem hdone]
        rfl
    · -- Keys that wait are distinct, so the seed has the key of none of the others.
      refine h.append_of_ne (List.getElem_mem hj) fun hk => hij ?_
      have hsame : s.waiting[i] = s.waiting[j] :=
        List.inj_on_of_nodup_map hsound.distinct hwait (List.getElem_mem hj) (hkey.trans hk)
      exact (hsound.distinct.of_map Profile.key).getElem_inj_iff.mp hsame
  · intro w hw
    rw [hs', List.mem_append, List.mem_singleton] at hw
    rcases hw with hw | rfl
    · exact h.append_of_ne hw fun hk => placeOf_eq_none.mp hnone w hw hk.symm
    · -- A seed with this key would wait, since no surviving row has the key.
      have hnew : ∀ p ∈ done, p.key ≠ w.key := fun p hp hk => by
        rcases hcovers.held p hp with ⟨v, hv, hvk⟩ | ⟨r, hr, hrk⟩
        · exact placeOf_eq_none.mp hnone v hv (hvk.trans hk)
        · have hw : w ∈ s'.waiting := hs' ▸ List.mem_append_right _ (List.mem_singleton_self w)
          exact hsound'.apart w hw r hr (hrk.trans hk)
      exact ⟨w, by rw [lastWith_append, if_pos rfl], by rw [typesWith_append_of_notMem hnew]⟩
  · intro w hw
    rw [hs'] at hw
    exact h.append_of_ne hw fun hk => placeOf_eq_none.mp hnone w hw hk.symm

theorem Seeded.latest (h : Seeded e factory rows s) (hid : ∀ p ∈ rows, p.id.isSome = true) :
    Seeding.Latest (seeds e factory) s :=
  (h.induction (P := fun done s => Seeding.Sound (rows.filter (!e.drops ·)) s ∧
      Seeding.Covers (rows.filter (!e.drops ·)) done s ∧ Seeding.Latest done s)
    ⟨.empty _, .empty _, fun _ hw => absurd hw List.not_mem_nil⟩
    fun _ _ _ _ ⟨hsound, hcovers, hs⟩ hadm hplace =>
      have hsound' := hsound.place (kept_survivors hid) hadm hplace
      ⟨hsound', hcovers.place rfl hplace, hs.place hsound hcovers hsound' rfl hplace⟩).2.2

/-- The profile is the last seed with its key, and no row with that key survives. -/
def IsSeeded (e : Extent) (factory rows : List Profile) (q : Profile) : Prop :=
  lastWith q.key (seeds e factory) = some q ∧ ∀ r ∈ rows, e.drops r = false → r.key ≠ q.key

/-- **What waits in the end** are these seeds, with more service types perhaps. -/
theorem Seeded.exists_of_waiting (h : Seeded e factory rows s) (hid : ∀ p ∈ rows, p.id.isSome = true)
    (hw : w ∈ s.waiting) : ∃ q types, IsSeeded e factory rows q ∧ w = { q with apnTypes := types } := by
  obtain ⟨q, hlast, htypes⟩ := h.latest hid w hw
  have hk : q.key = w.key := (mem_of_lastWith hlast).2
  refine ⟨q, _, ⟨hk ▸ hlast, fun r hr hd => ?_⟩, htypes⟩
  exact hk ▸ (h.sound hid).apart w hw r (List.mem_filter.mpr ⟨hr, by rw [hd]; rfl⟩)

/-- Each of these seeds waits in the end. -/
theorem Seeded.exists_waiting (h : Seeded e factory rows s) (hid : ∀ p ∈ rows, p.id.isSome = true)
    (hq : IsSeeded e factory rows q) : ∃ types, { q with apnTypes := types } ∈ s.waiting := by
  obtain ⟨hlast, hnone⟩ := hq
  obtain ⟨p, hp, hadm, rfl⟩ := mem_seeds.mp (mem_of_lastWith hlast).1
  obtain ⟨w, hw, hk⟩ := List.mem_map.mp ((h.mem_keys hid).mpr ⟨⟨p, hp, hadm, rfl⟩, hnone⟩)
  obtain ⟨r, hr, htypes⟩ := h.latest hid w hw
  rw [hk, hlast] at hr
  cases hr
  exact ⟨_, htypes ▸ hw⟩

/-- A seed is an ordinary row that nobody touched. -/
theorem IsSeeded.unedited (h : IsSeeded e factory rows q) : q.owner = .others ∧ q.status = .unedited := by
  obtain ⟨p, -, -, rfl⟩ := mem_seeds.mp (mem_of_lastWith h.1).1
  exact ⟨rfl, rfl⟩

/-- The row is the tombstone of an ordinary row that a restore leaves. -/
def LastingTombstone (g : Profile) : Prop := g.owner = .others ∧ g.status = .userDeletedButPresentInXml

instance (g : Profile) : Decidable (LastingTombstone g) := inferInstanceAs (Decidable (_ ∧ _))

theorem LastingTombstone.drops_eq_false (h : LastingTombstone p) : e.drops p = false := by
  rw [Extent.drops, h.2]
  exact Bool.and_false _

end Restore

namespace Table

open Restore

variable {t : Table} {e : Extent} {p q r g : Profile} {factory waiting : List Profile} {s : Seeding}
  {known : List String}

/-! ## The rows after a restore -/

/-- The rows after a restore are those that it does not drop, and what waited, under new ids. -/
theorem mem_profiles_reseeded (hv : t.Valid) : p ∈ (t.reseeded e waiting).rows.profiles ↔
    (p ∈ t.rows.profiles ∧ e.drops p = false) ∨ p ∈ (Rows.numbered t.nextId waiting).profiles := by
  rw [rows_reseeded hv, Rows.profiles_append, Rows.profiles_filter t.rows (!e.drops ·), List.mem_append,
    List.mem_filter, Bool.not_eq_true']

/-- A row that a restore brings in is a seed. -/
theorem exists_seeded_of_mem (hv : t.Valid) (hs : Seeded e factory t.rows.profiles s)
    (hr : r ∈ (Rows.numbered t.nextId s.waiting).profiles) :
    ∃ q types id, IsSeeded e factory t.rows.profiles q ∧ r = { q with apnTypes := types, id := id } := by
  obtain ⟨row, hrow, rfl⟩ := List.mem_map.mp hr
  obtain ⟨w, hw, heq⟩ := Rows.exists_of_mem_numbered hrow
  obtain ⟨q, types, hq, rfl⟩ := hs.exists_of_waiting hv.isSome_id hw
  exact ⟨q, types, some row.1, hq, heq⟩

/-- A seed is a row that the restore brings in. -/
theorem exists_mem_of_seeded (hv : t.Valid) (hs : Seeded e factory t.rows.profiles s)
    (hq : IsSeeded e factory t.rows.profiles q) :
    ∃ types id, { q with apnTypes := types, id := id } ∈ (t.reseeded e s.waiting).rows.profiles := by
  obtain ⟨types, hw⟩ := hs.exists_waiting hv.isSome_id hq
  obtain ⟨id, hm⟩ := Rows.exists_mem_numbered (n := t.nextId) hw
  exact ⟨types, some id, (mem_profiles_reseeded hv).mpr (Or.inr hm)⟩

/-- **Lasting tombstones stay**, and none comes. -/
theorem mem_reseeded_of_lasting (hv : t.Valid) (hs : Seeded e factory t.rows.profiles s)
    (hg : LastingTombstone g) :
    g ∈ (t.reseeded e s.waiting).rows.profiles ↔ g ∈ t.rows.profiles := by
  rw [mem_profiles_reseeded hv, and_iff_left hg.drops_eq_false]
  refine or_iff_left fun hm => ?_
  obtain ⟨q, types, id, hq, rfl⟩ := exists_seeded_of_mem hv hs hm
  have hstatus : q.status = .userDeletedButPresentInXml := hg.2
  rw [hq.unedited.2] at hstatus
  cases hstatus

/-- **A visible row with the key of a lasting tombstone** in its modern form is a seed with integer codes,
if the table was in modern form and had distinct keys. -/
theorem exists_seeded_of_key_eq (hv : t.Valid) (hk : t.KeysUnique) (hm : AllModern known t.rows.profiles)
    (hs : Seeded e factory t.rows.profiles s) (hr : r ∈ (t.reseeded e s.waiting).rows.profiles)
    (hvis : r.isVisible = true) (hgm : g ∈ t.rows.profiles) (hg : LastingTombstone g)
    (hkey : (modernized known r).key = g.key) :
    ∃ q m, IsSeeded e factory t.rows.profiles q ∧ pending known q = some m ∧ m.key = g.key := by
  rcases (mem_profiles_reseeded hv).mp hr with ⟨hr, -⟩ | hr
  · -- A row that has stayed shares its key with no other row.
    rw [modernized_of_none (hm r hr)] at hkey
    obtain rfl : r = g := List.inj_on_of_nodup_map hk hr hgm hkey
    rw [Profile.isVisible, hg.2] at hvis
    cases hvis
  · obtain ⟨q, types, id, hq, rfl⟩ := exists_seeded_of_mem hv hs hr
    rw [← (key_modernized_congr (p := q) (q := { q with apnTypes := types, id := id }) rfl rfl rfl).2]
      at hkey
    cases hp : pending known q with
    | none =>
      rw [modernized_of_none hp] at hkey
      exact absurd hkey.symm (hq.2 g hgm hg.drops_eq_false)
    | some m =>
      rw [modernized_of_some hp] at hkey
      exact ⟨q, m, hq, hp, hkey⟩

end Table

/-! ## The call -/

namespace Registry

open Restore

/-- **When lasting tombstones hide what they stand for**: a restore that succeeds, on a table in modern form
with distinct keys, leaves these tombstones and brings none. Afterwards no visible ordinary row has the key
of one of them, once it is in modern form, iff no factory profile with integer codes that comes has. -/
theorem tombstones_after_restore (setup : Setup) (caller : Caller) (sub : Subscription)
    (s s' : State Table) (report : Report) (hv : s.store.Valid) (hk : s.store.KeysUnique)
    (hm : AllModern setup.device.known s.store.rows.profiles)
    (h : (restoreToDefault setup caller sub).perform s = (.ok report, s')) :
    let known := setup.device.known
    let e := extentOf setup.device sub
    (∀ g, LastingTombstone g → (g ∈ s'.store.rows.profiles ↔ g ∈ s.store.rows.profiles)) ∧
    ((∀ r ∈ s'.store.rows.profiles, r.owner = .others → r.isVisible = true →
        ∀ g ∈ s.store.rows.profiles, LastingTombstone g → (modernized known r).key ≠ g.key) ↔
      ∀ q m, IsSeeded e setup.defaults s.store.rows.profiles q → pending known q = some m →
        ∀ g ∈ s.store.rows.profiles, LastingTombstone g → m.key ≠ g.key) := by
  intro known e
  obtain ⟨-, t, hr, rfl⟩ := (restoreToDefault_eq_ok hv).mp h
  obtain ⟨-, seeding, hs, -, rfl⟩ := (Table.restored_eq_ok hv).mp hr
  refine ⟨fun g hg => Table.mem_reseeded_of_lasting hv hs hg, fun hall q m hq hp g hgm hg hkey => ?_,
    fun hall r hr _ hvis g hgm hg hkey => ?_⟩
  · obtain ⟨types, id, hmem⟩ := Table.exists_mem_of_seeded hv hs hq
    have hvis : ({ q with apnTypes := types, id := id } : Profile).isVisible = true := by
      rw [Profile.isVisible, hq.unedited.2]
      rfl
    refine hall _ hmem hq.unedited.1 hvis g hgm hg ?_
    rw [← (key_modernized_congr (p := q) (q := { q with apnTypes := types, id := id }) rfl rfl rfl).2,
      modernized_of_some hp, hkey]
  · obtain ⟨q, m, hq, hp, hqk⟩ := Table.exists_seeded_of_key_eq hv hk hm hs hr hvis hgm hg hkey
    exact hall q m hq hp g hgm hg hqk

/-- A lasting tombstone. -/
def webTombstone : Profile :=
  { apn := "web", mcc := "999", mnc := "05", numeric := "99905", status := .userDeletedButPresentInXml }

/-- The factory profile that the tombstone stands for, and another one with integer codes. -/
def spelledOut : Setup :=
  { factory := [{ apn := "web", mcc := "999", mnc := "05", numeric := "99905" },
      { apn := "mms", legacyMcc := some 999, legacyMnc := some 5 }] }

/-- The other factory profile comes, the tombstone hides its own. -/
theorem tombstones_after_restore_spelledOut :
    let s : State Table := .initial spelledOut (.ofProfiles [webTombstone])
    s.store.KeysUnique ∧ AllModern spelledOut.device.known s.store.rows.profiles ∧
      ∃ s', (restoreToDefault spelledOut .system ⟨0⟩).perform s =
          (.ok { preserved := 1, seeded := 1 }, s') ∧
        ∀ r ∈ s'.store.rows.profiles, r.owner = .others → r.isVisible = true →
          ∀ g ∈ s.store.rows.profiles, LastingTombstone g →
            (modernized spelledOut.device.known r).key ≠ g.key := by
  intro s
  have hk : s.store.KeysUnique := by decide
  have hm : AllModern spelledOut.device.known s.store.rows.profiles := by decide
  have hok : ((restoreToDefault spelledOut .system ⟨0⟩).perform s).1 =
      .ok { preserved := 1, seeded := 1 } := by
    decide +kernel
  obtain ⟨s', h⟩ : ∃ s', (restoreToDefault spelledOut .system ⟨0⟩).perform s =
      (.ok { preserved := 1, seeded := 1 }, s') := ⟨_, Prod.ext hok rfl⟩
  have hseeds : ∀ q ∈ seeds (extentOf spelledOut.device ⟨0⟩) spelledOut.defaults,
      ∀ m ∈ pending spelledOut.device.known q, ∀ g ∈ s.store.rows.profiles, LastingTombstone g →
        m.key ≠ g.key := by
    decide +kernel
  exact ⟨hk, hm, s', h, (tombstones_after_restore spelledOut .system ⟨0⟩ s s' _ (.ofProfiles _) hk hm h).2.mpr
    fun q m hq hp => hseeds q (mem_of_lastWith hq.1).1 m hp⟩

/-- **A restore may bring back what a lasting tombstone stands for**: the factory profile with integer codes
is seeded, and its modern form has the key of the tombstone. -/
theorem not_forall_key_ne_of_lasting : ¬∀ (setup : Setup) (caller : Caller) (sub : Subscription)
    (s s' : State Table) (report : Report), s.store.Valid → s.store.KeysUnique →
    AllModern setup.device.known s.store.rows.profiles →
    (restoreToDefault setup caller sub).perform s = (.ok report, s') →
    ∀ r ∈ s'.store.rows.profiles, r.owner = .others → r.isVisible = true →
      ∀ g ∈ s'.store.rows.profiles, LastingTombstone g →
        (modernized setup.device.known r).key ≠ g.key := by
  intro hall
  let setup : Setup := { factory := [{ apn := "web", legacyMcc := some 999, legacyMnc := some 5 }] }
  let s : State Table := .initial setup (.ofProfiles [webTombstone])
  have hok : ((restoreToDefault setup .system ⟨0⟩).perform s).1 =
      .ok { preserved := 1, seeded := 1 } := by
    decide +kernel
  have hrows : ((restoreToDefault setup .system ⟨0⟩).perform s).2.store.rows.profiles =
      [{ webTombstone with id := some ⟨1⟩ },
        { id := some ⟨2⟩, apn := "web", legacyMcc := some 999, legacyMnc := some 5 }] := by
    decide +kernel
  obtain ⟨s', h, hrows⟩ : ∃ s', (restoreToDefault setup .system ⟨0⟩).perform s =
      (.ok { preserved := 1, seeded := 1 }, s') ∧ s'.store.rows.profiles = _ :=
    ⟨_, Prod.ext hok rfl, hrows⟩
  have hne := hall setup .system ⟨0⟩ s s' _ (.ofProfiles _) (by decide) (by decide) h
  rw [hrows] at hne
  exact hne _ (List.mem_cons_of_mem _ List.mem_cons_self) rfl rfl _ List.mem_cons_self ⟨rfl, rfl⟩
    (by decide +kernel)

end Registry

end ApnRegistry
