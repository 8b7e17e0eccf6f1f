import ApnRegistry.Proofs.ArrivalOrder
import ApnRegistry.Proofs.Reliable
import Mathlib.Logic.Equiv.Basic

/-!
# Independent inserts

Profiles with distinct keys do not get in each other's way when they are inserted at once into a table
whose keys are distinct. What becomes of a stored row depends on the profile with its key alone, and a
profile is a new row iff no row has its key. The order of the profiles shows only in the ids of the new
rows.

Results:
* `Table.enterAll_of_distinct`: the table after profiles with distinct keys.
* `Table.exists_renamed_pushAll`: new rows in another order.
* `Registry.bulkInsert_perm`: bulk inserts of the same profiles in another order.
-/

namespace ApnRegistry

open Collision

namespace Collision

variable {p row : Profile} {ps ps' : List Profile}

/-! ## What becomes of a stored row -/

/-- The profile is an ordinary one and has the key of the row. -/
def landsOn (row p : Profile) : Bool := p.owner == .others && p.key == row.key

theorem landsOn_eq_true : landsOn row p = true ↔ p.owner = .others ∧ p.key = row.key := by
  rw [landsOn, Bool.and_eq_true, beq_iff_eq, beq_iff_eq]

/-- The row once all ordinary profiles with its key have landed on it. -/
def landing (ps : List Profile) (row : Profile) : Profile := landed row (ps.filter (landsOn row))

theorem landing_of_ne (h : ∀ p ∈ ps, p.key ≠ row.key) : landing ps row = row := by
  have hnone : ps.filter (landsOn row) = [] :=
    List.filter_eq_nil_iff.mpr fun p hp hl => h p hp (landsOn_eq_true.mp hl).2
  rw [landing, hnone]
  rfl

theorem landing_cons_of_not (h : ¬(p.owner = .others ∧ p.key = row.key)) :
    landing (p :: ps) row = landing ps row := by
  rw [landing, List.filter_cons_of_neg (mt landsOn_eq_true.mp h), landing]

theorem landing_cons_of_hit (ho : p.owner = .others) (hk : row.key = p.key) :
    landing (p :: ps) row = landing ps (mergeOnto row p).1 := by
  have hsame : landsOn (mergeOnto row p).1 = landsOn row := by
    unfold landsOn
    rw [key_mergeOnto hk]
  rw [landing, List.filter_cons_of_pos (landsOn_eq_true.mpr ⟨ho, hk.symm⟩), landed_cons, landing, hsame]

theorem id_landed : ∀ (more : List Profile) (first : Profile), (landed first more).id = first.id
  | [], _ => rfl
  | p :: more, first => by
    rw [landed_cons, id_landed more, id_mergeOnto]

/-- Of profiles with distinct keys at most one lands on the row, so their order does not matter. -/
theorem landing_perm (h : ps'.Perm ps) (hn : (ps.map Profile.key).Nodup) (row : Profile) :
    landing ps' row = landing ps row := by
  have hperm : (ps'.filter (landsOn row)).Perm (ps.filter (landsOn row)) := h.filter _
  unfold landing
  match hfilter : ps.filter (landsOn row), hperm with
  | [], hperm => rw [List.perm_nil.mp hperm]
  | [p], hperm => rw [List.perm_singleton.mp hperm]
  | p :: q :: more, _ =>
    have hkey : ∀ r ∈ p :: q :: more, r.key = row.key := fun r hr =>
      (landsOn_eq_true.mp (List.mem_filter.mp (hfilter ▸ hr)).2).2
    have hkeys : ((p :: q :: more).map Profile.key).Nodup :=
      hfilter ▸ hn.sublist (List.filter_sublist.map Profile.key)
    have hne : p.key ≠ q.key := fun heq => (List.nodup_cons.mp hkeys).1 (heq ▸ List.mem_cons_self)
    refine absurd ?_ hne
    exact (hkey p List.mem_cons_self).trans (hkey q (List.mem_cons_of_mem p List.mem_cons_self)).symm

end Collision

namespace Table

variable {t t' t'' : Table} {p row : Profile} {ps fresh fresh' : List Profile} {id : RowId} {n : Nat}

/-! ## Profiles with distinct keys -/

/-- The profiles that become new rows. -/
def newcomers (t : Table) (ps : List Profile) : List Profile := ps.filter (isFree t.rows.profiles ·.key)

/-- The profile is not turned away. -/
def takes (t : Table) (p : Profile) : Bool := p.owner == .others || isFree t.rows.profiles p.key

/-- The table with the profiles landed on the rows that have their keys. -/
def withLanded (t : Table) (ps : List Profile) : Table := t.mapRows fun _ => landing ps

theorem Valid.withLanded (h : t.Valid) (ps : List Profile) : (t.withLanded ps).Valid :=
  h.mapRows fun _ _ => id_landed _ _

theorem get?_withLanded (ps : List Profile) (t : Table) (id : RowId) :
    (t.withLanded ps).get? id = (t.get? id).map (landing ps) :=
  get?_mapRows _ t id

/-- A new row changes nothing for profiles with other keys. -/
theorem isFree_push (hv : t.Valid) {k : Profile.Key} (h : p.key ≠ k) :
    isFree (t.push p).2.rows.profiles k = isFree t.rows.profiles k := by
  rw [Bool.eq_iff_iff, (hv.push p).isFree_iff, hv.isFree_iff, hv.keyNew_push, and_iff_left h]

theorem withLanded_push (hv : t.Valid) (hnew : t.KeyNew p.key) (hne : ∀ q ∈ ps, q.key ≠ p.key) :
    (t.push p).2.withLanded ps = ((t.withLanded (p :: ps)).push p).2 := by
  refine ((hv.push p).withLanded ps).ext ((hv.withLanded (p :: ps)).push p) (fun other => ?_) rfl
  rw [get?_withLanded, get?_push, get?_push, get?_withLanded]
  by_cases ho : other = ⟨t.nextId⟩
  · have hsame : landing ps { p with id := some ⟨t.nextId⟩ } = { p with id := some ⟨t.nextId⟩ } :=
      landing_of_ne hne
    rw [if_pos ho, if_pos (show other = ⟨(t.withLanded (p :: ps)).nextId⟩ from ho), Option.map_some, hsame]
    rfl
  · rw [if_neg ho, if_neg (show other ≠ ⟨(t.withLanded (p :: ps)).nextId⟩ from ho)]
    refine Option.map_congr fun row hrow => (landing_cons_of_not fun h => ?_).symm
    exact hnew other row hrow h.2.symm

/-- A row that keeps its key changes nothing for the profiles that come after it. -/
theorem isFree_set (hv : t.Valid) (hg : t.get? id = some row) (hid : p.id = some id) (hk : p.key = row.key)
    (k : Profile.Key) : isFree (t.set id p).rows.profiles k = isFree t.rows.profiles k := by
  rw [Bool.eq_iff_iff, (hv.set hg hid).isFree_iff, hv.isFree_iff]
  refine forall_congr' fun other => ?_
  rw [get?_set]
  split
  · rename_i ho
    subst ho
    simp [hg, hk]
  · rfl

theorem withLanded_set (hv : t.Valid) (hk : t.KeysUnique) (hg : t.get? id = some row)
    (ho : p.owner = .others) (hkey : row.key = p.key) :
    (t.set id (mergeOnto row p).1).withLanded ps = t.withLanded (p :: ps) := by
  have hid : (mergeOnto row p).1.id = some id := (id_mergeOnto row p).trans (hv.id_of_get? hg)
  refine ((hv.set hg hid).withLanded ps).ext (hv.withLanded (p :: ps)) (fun other => ?_) rfl
  rw [get?_withLanded, get?_set, get?_withLanded]
  split
  · rename_i heq
    subst heq
    rw [hg, Option.map_some, Option.map_some, landing_cons_of_hit ho hkey]
  · rename_i hne
    refine Option.map_congr fun other_row hrow => (landing_cons_of_not fun h => hne ?_).symm
    exact hv.keysUnique_iff.mp hk _ _ _ _ hrow hg (h.2.symm.trans hkey.symm)

/-- Which profiles are new and which are taken depends on the keys that are free. -/
theorem newcomers_congr (h : ∀ q ∈ ps, isFree t'.rows.profiles q.key = isFree t.rows.profiles q.key) :
    t'.newcomers ps = t.newcomers ps := List.filter_congr h

theorem countP_takes_congr (h : ∀ q ∈ ps, isFree t'.rows.profiles q.key = isFree t.rows.profiles q.key) :
    ps.countP t'.takes = ps.countP t.takes :=
  List.countP_congr fun q hq => by rw [takes, takes, h q hq]

/-- One profile is entered, and the others have other keys. -/
theorem exists_enter_of_distinct (hv : t.Valid) (hk : t.KeysUnique) (hid : p.id = none)
    (hne : ∀ q ∈ ps, q.key ≠ p.key) :
    ∃ o t', t.enter p = .ok (o, t') ∧ o.isSome = t.takes p ∧
      (∀ q ∈ ps, isFree t'.rows.profiles q.key = isFree t.rows.profiles q.key) ∧
      (t'.withLanded ps).pushAll (t.newcomers ps) =
        (t.withLanded (p :: ps)).pushAll (t.newcomers (p :: ps)) := by
  rcases hits_cases hv hk p with hh | ⟨row, id, hh, hrow⟩
  · -- It is a new row.
    have hfree : isFree t.rows.profiles p.key = true := (isFree_iff_hits hid).mpr hh
    refine ⟨_, _, enter_of_new hid hh, ?_, fun q hq => isFree_push hv (hne q hq).symm, ?_⟩
    · rw [takes, hfree, Bool.or_true]
      rfl
    · have hnew : t.newcomers (p :: ps) = p :: t.newcomers ps := List.filter_cons_of_pos hfree
      rw [withLanded_push hv (hv.isFree_iff.mp hfree) hne, hnew]
      rfl
  · obtain ⟨other, hother, hg, hkey, -⟩ := hv.exists_of_mem_hits (hh ▸ List.mem_singleton_self row)
    obtain rfl : other = id := Option.some.inj (hother.symm.trans hrow)
    have htaken : isFree t.rows.profiles p.key = false := by
      rw [← Bool.not_eq_true, isFree_iff_hits hid, hh]
      exact List.cons_ne_nil row []
    have hnew : t.newcomers (p :: ps) = t.newcomers ps :=
      List.filter_cons_of_neg (by rw [htaken]; exact Bool.false_ne_true)
    rw [hnew]
    cases ho : p.owner with
    | dpc =>
      -- It is turned away.
      refine ⟨_, _, enter_of_rejected ho (by rw [hh]; exact List.cons_ne_nil row []), ?_, fun _ _ => rfl, ?_⟩
      · rw [takes, ho, htaken]
        rfl
      · have hsame : t.withLanded (p :: ps) = t.withLanded ps :=
          mapRows_congr fun _ _ => landing_cons_of_not fun h => nomatch ho.symm.trans h.1
        rw [hsame]
    | others =>
      -- It lands on the row that has its key.
      have hidm : (mergeOnto row p).1.id = some other := (id_mergeOnto row p).trans hrow
      refine ⟨_, _, enter_of_hit ho hh hrow, ?_,
        fun q _ => isFree_set hv hg hidm (key_mergeOnto hkey) q.key, ?_⟩
      · rw [takes, ho]
        rfl
      · rw [withLanded_set hv hk hg ho hkey]

/-- **Profiles with distinct keys** are entered into a table whose keys are distinct: those with the key of
a row land on it, if they are ordinary ones, those with new keys are new rows in their order, and all others
are turned away. -/
theorem enterAll_of_distinct : ∀ {ps : List Profile} {t : Table}, t.Valid → t.KeysUnique →
    (∀ p ∈ ps, p.id = none) → (ps.map Profile.key).Nodup →
    ∃ ids, t.enterAll ps = .ok (ids, (t.withLanded ps).pushAll (t.newcomers ps)) ∧
      ids.countP (·.isSome) = ps.countP t.takes
  | [], t, _, _, _, _ => by
    have hsame : t.withLanded [] = t := mapRows_eq_self fun _ _ => rfl
    exact ⟨[], by rw [hsame]; rfl, rfl⟩
  | p :: ps, t, hv, hk, hids, hn => by
    obtain ⟨hid, hids⟩ := List.forall_mem_cons.mp hids
    obtain ⟨hp, hn⟩ := List.nodup_cons.mp hn
    have hne : ∀ q ∈ ps, q.key ≠ p.key := fun q hq heq => hp (heq ▸ List.mem_map_of_mem hq)
    obtain ⟨o, t₁, henter, ho, hfree, htable⟩ := exists_enter_of_distinct hv hk hid hne
    have hmoves := moves_of_enter hv hid henter
    obtain ⟨ids, hall, hcount⟩ := enterAll_of_distinct (hmoves.valid hv) (hmoves.keysUnique hv hk) hids hn
    refine ⟨o :: ids, ?_, ?_⟩
    · rw [enterAll_cons_of_ok henter hall, newcomers_congr hfree, htable]
    · rw [List.countP_cons, List.countP_cons, hcount, countP_takes_congr hfree, ho]

/-! ## New rows in another order -/

/-- The tables are the same, but for the ids from `n` on that were handed out, which are exchanged. -/
structure Renamed (n : Nat) (ρ : Equiv.Perm RowId) (t t' : Table) : Prop where
  /-- Ids below `n` are the same. -/
  old : ∀ id, id.val < n → ρ id = id
  /-- So are the ids that are still to come. -/
  coming : ∀ id, t.nextId ≤ id.val → ρ id = id
  /-- Each row stands under its new id in the other table. -/
  rows : ∀ id, t'.get? (ρ id) = (t.get? id).map fun p => { p with id := some (ρ id) }
  nextId : t'.nextId = t.nextId

namespace Renamed

variable {ρ σ : Equiv.Perm RowId}

theorem refl (hv : t.Valid) (n : Nat) : Renamed n (Equiv.refl _) t t where
  old := fun _ _ => rfl
  coming := fun _ _ => rfl
  rows := fun id => by
    cases hg : t.get? id with
    | none => exact hg
    | some p =>
      rw [Equiv.refl_apply, hg, Option.map_some, ← hv.id_of_get? hg]
  nextId := rfl

theorem mono {m : Nat} (h : Renamed m ρ t t') (hn : n ≤ m) : Renamed n ρ t t' where
  old := fun id hid => h.old id (Nat.lt_of_lt_of_le hid hn)
  coming := h.coming
  rows := h.rows
  nextId := h.nextId

theorem trans (h : Renamed n ρ t t') (h' : Renamed n σ t' t'') : Renamed n (ρ.trans σ) t t'' where
  old := fun id hid => by rw [Equiv.trans_apply, h.old id hid, h'.old id hid]
  coming := fun id hid => by
    rw [Equiv.trans_apply, h.coming id hid, h'.coming id (h.nextId ▸ hid)]
  rows := fun id => by
    rw [Equiv.trans_apply, h'.rows, h.rows, Option.map_map]
    rfl
  nextId := h'.nextId.trans h.nextId

/-- One more new row. -/
theorem push (h : Renamed n ρ t t') (p : Profile) : Renamed n ρ (t.push p).2 (t'.push p).2 where
  old := h.old
  coming := fun id hid => h.coming id (Nat.le_of_succ_le hid)
  rows := fun id => by
    have hnext : ρ ⟨t.nextId⟩ = ⟨t.nextId⟩ := h.coming _ (Nat.le_refl _)
    rw [get?_push, get?_push, h.nextId]
    by_cases hid : id = ⟨t.nextId⟩
    · rw [if_pos hid, hid, hnext, if_pos rfl]
      rfl
    · rw [if_neg hid, if_neg fun heq => hid (ρ.injective (heq.trans hnext.symm)), h.rows]
  nextId := congrArg Nat.succ h.nextId

theorem pushAll : ∀ (fresh : List Profile) {t t' : Table}, Renamed n ρ t t' →
    Renamed n ρ (t.pushAll fresh) (t'.pushAll fresh)
  | [], _, _, h => h
  | p :: fresh, _, _, h => pushAll fresh (h.push p)

/-- Two new rows in either order. -/
theorem swap (hv : t.Valid) (p q : Profile) :
    Renamed t.nextId (Equiv.swap ⟨t.nextId⟩ ⟨t.nextId + 1⟩) ((t.push p).2.push q).2
      ((t.push q).2.push p).2 := by
  have hne : (⟨t.nextId⟩ : RowId) ≠ ⟨t.nextId + 1⟩ := fun h =>
    Nat.ne_of_lt (Nat.lt_succ_self _) (congrArg RowId.val h)
  have hother {id : RowId} (h : id.val ≠ t.nextId) (h' : id.val ≠ t.nextId + 1) :
      Equiv.swap (⟨t.nextId⟩ : RowId) ⟨t.nextId + 1⟩ id = id :=
    Equiv.swap_apply_of_ne_of_ne (fun heq => h (congrArg RowId.val heq))
      fun heq => h' (congrArg RowId.val heq)
  refine ⟨fun id hid => hother (by omega) (by omega), fun id hid => ?_, fun id => ?_, rfl⟩
  · rw [nextId_push, nextId_push] at hid
    exact hother (by omega) (by omega)
  · rw [get?_push, get?_push, get?_push, get?_push, nextId_push, nextId_push]
    by_cases hfirst : id = ⟨t.nextId⟩
    · rw [hfirst, Equiv.swap_apply_left, if_pos rfl, if_neg hne, if_pos rfl]
      rfl
    · by_cases hsecond : id = ⟨t.nextId + 1⟩
      · rw [hsecond, Equiv.swap_apply_right, if_neg hne, if_pos rfl, if_pos rfl]
        rfl
      · rw [Equiv.swap_apply_of_ne_of_ne hfirst hsecond, if_neg hsecond, if_neg hfirst, if_neg hsecond,
          if_neg hfirst]
        exact (Renamed.refl hv 0).rows id

end Renamed

/-- **New rows in another order** are the same under other ids. -/
theorem exists_renamed_pushAll (h : fresh'.Perm fresh) (hv : t.Valid) :
    ∃ ρ, Renamed t.nextId ρ (t.pushAll fresh) (t.pushAll fresh') := by
  induction h generalizing t with
  | nil => exact ⟨_, .refl hv _⟩
  | cons p _ ih =>
    obtain ⟨ρ, hρ⟩ := ih (hv.push p)
    exact ⟨ρ, hρ.mono (Nat.le_succ _)⟩
  | swap p q more => exact ⟨_, (Renamed.swap hv p q).pushAll more⟩
  | trans _ _ ih ih' =>
    obtain ⟨ρ, hρ⟩ := ih hv
    obtain ⟨σ, hσ⟩ := ih' hv
    exact ⟨_, hσ.trans hρ⟩

/-- **Profiles with distinct keys, in another order**, lead to the same table under other ids. The rows that
were there before are the same. -/
theorem exists_enterAll_perm {ids : List (Option RowId)} (hv : t.Valid) (hk : t.KeysUnique)
    (hids : ∀ p ∈ ps, p.id = none) (hn : (ps.map Profile.key).Nodup) (hperm : ps'.Perm ps)
    (h : t.enterAll ps = .ok (ids, t')) :
    ∃ ids' t'' ρ, t.enterAll ps' = .ok (ids', t'') ∧ ids'.countP (·.isSome) = ids.countP (·.isSome) ∧
      Renamed t.nextId ρ t' t'' ∧
      ∀ id p, t.get? id = some p → ∃ q, t'.get? id = some q ∧ t''.get? id = some q := by
  obtain ⟨ids₁, hall, hcount⟩ := enterAll_of_distinct hv hk hids hn
  obtain ⟨ids₂, hall', hcount'⟩ := enterAll_of_distinct hv hk (fun p hp => hids p (hperm.subset hp))
    ((hperm.map Profile.key).nodup_iff.mpr hn)
  rw [h] at hall
  obtain ⟨rfl, rfl⟩ := Prod.mk.inj (Except.ok.inj hall)
  have hlanded : t.withLanded ps' = t.withLanded ps := mapRows_congr fun _ _ => landing_perm hperm hn _
  rw [hlanded] at hall'
  obtain ⟨ρ, hρ⟩ := exists_renamed_pushAll (hperm.filter (isFree t.rows.profiles ·.key)) (hv.withLanded ps)
  refine ⟨ids₂, _, ρ, hall', ?_, hρ, fun id p hg => ⟨landing ps p, ?_⟩⟩
  · rw [hcount', hcount, hperm.countP_eq]
  · have hlt : id.val < (t.withLanded ps).nextId := hv.lt_nextId hg
    have hold (fresh : List Profile) : ((t.withLanded ps).pushAll fresh).get? id = some (landing ps p) := by
      rw [get?_pushAll fresh (hv.withLanded ps), if_pos hlt, get?_withLanded, hg]
      rfl
    exact ⟨hold _, hold _⟩

end Table

/-! ## The call -/

namespace Registry

open Table

/-- **Independent inserts commute.** If profiles with distinct keys in their final form are inserted at once
into a table whose keys are distinct, and that succeeds, it also does in any other order of the profiles,
with the same count. The tables are the same but for the ids of the new rows, and the rows that were there
before have the same id and the same content in both. -/
theorem bulkInsert_perm (setup : Setup) (caller : Caller) (target : Target) (ps ps' : List Profile)
    (s s₁ : State Table) (n : Nat) (hv : s.store.Valid) (hk : s.store.KeysUnique)
    (hkeys : ∀ partition, partitionFor setup caller target .insert s.enforced = .ok partition →
      ((ps.map (normalized setup partition target.subscription?)).map Profile.key).Nodup)
    (hperm : ps'.Perm ps) (h : (bulkInsert setup caller target ps).perform s = (.ok n, s₁)) :
    ∃ s₂, (bulkInsert setup caller target ps').perform s = (.ok n, s₂) ∧
      (∀ id p, s.store.get? id = some p → ∃ q, s₁.store.get? id = some q ∧ s₂.store.get? id = some q) ∧
      ∃ ρ, Renamed s.store.nextId ρ s₁.store s₂.store := by
  cases ha : partitionFor setup caller target .insert s.enforced with
  | error e =>
    rw [perform_bulkInsert_of_error (perform_insertProfiles_of_error ha)] at h
    cases h
  | ok partition =>
    cases target with
    | row scope id =>
      rw [perform_bulkInsert_of_error (perform_insertProfiles_row ha)] at h
      cases h
    | table scope subscription =>
      have hids : ∀ q ∈ ps.map (normalized setup partition subscription), q.id = none := fun q hq => by
        obtain ⟨p, -, rfl⟩ := List.mem_map.mp hq
        exact id_normalized ..
      obtain ⟨ids, t, hall⟩ := exists_enterAll hv hk hids
      obtain ⟨ids', t', ρ, hall', hcount, hρ, hold⟩ :=
        exists_enterAll_perm hv hk hids (hkeys partition ha) (hperm.map _) hall
      obtain ⟨board, hbulk⟩ := perform_bulkInsert hv ha hall
      obtain ⟨board', hbulk'⟩ := perform_bulkInsert hv ha hall'
      rw [h] at hbulk
      obtain ⟨hcounted, rfl⟩ := Prod.mk.inj hbulk
      rw [hcount, ← hcounted] at hbulk'
      exact ⟨_, hbulk', hold, ρ, hρ⟩

/-- Of three profiles one lands on a row and two are new. The other way round the two change ids. -/
theorem bulkInsert_perm_reversed :
    let s : State Table := .initial {} (.ofProfiles [{ apn := "web" }])
    let ps : List Profile := [{ apn := "mms" }, { apn := "web", name := "Web" }, { apn := "dun" }]
    let call (ps : List Profile) : Action Table Nat := bulkInsert {} .system (.table .general none) ps
    s.store.Valid ∧ s.store.KeysUnique ∧ ∃ s₁ s₂ : State Table,
      (call ps).perform s = (.ok 3, s₁) ∧ (call ps.reverse).perform s = (.ok 3, s₂) ∧
      s₁.store.rows.profiles.map (·.apn) = ["web", "mms", "dun"] ∧
      (∀ id p, s.store.get? id = some p → ∃ q, s₁.store.get? id = some q ∧ s₂.store.get? id = some q) ∧
      ∃ ρ, Renamed s.store.nextId ρ s₁.store s₂.store := by
  intro s ps call
  have hv : s.store.Valid := .ofProfiles _
  have hk : s.store.KeysUnique := by decide
  have hkeys : ∀ partition,
      partitionFor {} .system (.table .general none) .insert s.enforced = .ok partition →
      ((ps.map (normalized {} partition none)).map Profile.key).Nodup := by
    rintro partition ha
    cases ha
    decide +kernel
  have hok : ((call ps).perform s).1 = .ok 3 := by decide +kernel
  have hrows : ((call ps).perform s).2.store.rows.profiles.map (·.apn) = ["web", "mms", "dun"] := by
    decide +kernel
  have h : (call ps).perform s = (.ok 3, ((call ps).perform s).2) := Prod.ext hok rfl
  obtain ⟨s₂, h₂, hold, hρ⟩ := bulkInsert_perm {} .system (.table .general none) ps ps.reverse s _ 3 hv hk
    hkeys (List.reverse_perm ps) h
  exact ⟨hv, hk, _, s₂, h, h₂, hrows, hold, hρ⟩

end Registry

end ApnRegistry
