import ApnRegistry.Proofs.Extents
import ApnRegistry.Proofs.Restoration

/-!
# Restoring twice

Whatever a restore seeds lies in its extent and is unedited, so the next restore takes it out, and
the rows that survive are the same as before. Hence it places the same seeds again, under the next
ids.

Results:
* `Rows.rename`: rows under other ids; `Rows.rename_numbered`: new rows, numbered from further on.
* `Table.restored_again`: the second restore of a table.
* `Registry.restoreToDefault_twice`: the second call leads to the same table, up to the ids of the
  seeded rows.
-/

namespace ApnRegistry

/-- The ids from `n` on, raised by `k`. -/
def RowId.raise (n k : Nat) (id : RowId) : RowId := if id.val < n then id else ⟨id.val + k⟩

theorem RowId.raise_of_lt {n k : Nat} {id : RowId} (h : id.val < n) : id.raise n k = id := if_pos h

theorem RowId.raise_of_le {n k : Nat} {id : RowId} (h : n ≤ id.val) :
    id.raise n k = ⟨id.val + k⟩ :=
  if_neg (Nat.not_lt.mpr h)

theorem RowId.raise_lt_raise (n k : Nat) {a b : RowId} (h : a.val < b.val) :
    (a.raise n k).val < (b.raise n k).val := by
  unfold raise
  split
  · split
    · exact h
    · exact Nat.lt_add_right k h
  · rename_i ha
    have hb : ¬b.val < n := fun hb => ha (Nat.lt_trans h hb)
    rw [if_neg hb]
    exact Nat.add_lt_add_right h k

namespace Rows

variable {ρ : RowId → RowId} {rows : Rows}

/-- The rows under other ids. -/
def rename (ρ : RowId → RowId) (rows : Rows) : Rows :=
  rows.map fun e => (ρ e.1, { e.2 with id := some (ρ e.1) })

theorem rename_cons (ρ : RowId → RowId) (e : RowId × Profile) (rows : Rows) :
    rename ρ (e :: rows) = (ρ e.1, { e.2 with id := some (ρ e.1) }) :: rows.rename ρ := rfl

theorem rename_append (ρ : RowId → RowId) (rows more : Rows) :
    rename ρ (rows ++ more) = rows.rename ρ ++ more.rename ρ :=
  List.map_append

/-- Rows that keep their ids stay as they are. -/
theorem rename_eq_self (hn : ∀ e ∈ rows, e.2.id = some e.1) (hρ : ∀ e ∈ rows, ρ e.1 = e.1) :
    rows.rename ρ = rows := by
  refine (List.map_congr_left fun e he => ?_).trans (List.map_id rows)
  rw [hρ e he, ← hn e he]
  rfl

/-- New rows, numbered from further on. -/
theorem rename_numbered {k : Nat} : ∀ {n : Nat} (ps : List Profile),
    (∀ id, n ≤ id.val → ρ id = ⟨id.val + k⟩) → rename ρ (numbered n ps) = numbered (n + k) ps
  | _, [], _ => rfl
  | n, p :: ps, h => by
    have hrest := rename_numbered ps fun id hid => h id (Nat.le_of_succ_le hid)
    have hnext : n + 1 + k = n + k + 1 := by omega
    rw [hnext] at hrest
    rw [numbered, rename_cons, hrest, h ⟨n⟩ (Nat.le_refl n)]
    rfl

end Rows

namespace Restore

variable {e : Extent} {p row : Profile} {factory rows : List Profile} {engine : Mvno.Engine}
  {s : Seeding}

/-- Asking about a row with the key of a seed fails only if asking about its factory profile did. -/
theorem refusalOfRow_of_seed (hadm : e.admits p = true) (hkey : (seed p).key = row.key)
    (h : e.refusalOfDefault engine p = none) : e.refusalOfRow engine row = none := by
  have hdefault : e.answerOnDefault engine p = .ok true :=
    answered_eq_ok.mpr ⟨by rw [h, ite_self], hadm⟩
  have hrow : e.answerOnRow engine row = .ok true :=
    (answerOnRow_congr hkey).symm.trans (answerOnRow_seed_of_admitted hdefault)
  exact (answered_eq_ok.mp hrow).1

/-- **A seeded row is dropped** by another restore of the extent, once it is stored. -/
theorem Seeded.drops (h : Seeded e factory rows s) {w : Profile} (hw : w ∈ s.waiting)
    (hkey : row.key = w.key) (hid : row.id.isSome = true) (hstatus : row.status = w.status) :
    e.drops row = true := by
  obtain ⟨q, hq, hk⟩ := h.covers.origin w hw
  obtain ⟨p, -, hadm, rfl⟩ := mem_seeds.mp hq
  have hcontains : e.contains row = true :=
    (contains_of_key_eq e (hkey.trans hk.symm)).trans (contains_seed hadm)
  rw [Extent.drops, hcontains, hid, hstatus, h.covers.unedited w hw]
  rfl

end Restore

namespace Table

open Restore

variable {t t' : Table} {e : Extent} {factory : List Profile} {engine : Mvno.Engine} {s : Seeding}

/-! ## The table after a restore -/

theorem nextId_reseeded (e : Extent) (waiting : List Profile) (t : Table) :
    (t.reseeded e waiting).nextId = t.nextId + waiting.length := by
  rw [reseeded, nextId_pushAll, nextId_removeAll]

theorem drops_of_mem_numbered (hs : Seeded e factory t.rows.profiles s) {r : RowId × Profile}
    (hr : r ∈ Rows.numbered t.nextId s.waiting) : e.drops r.2 = true := by
  obtain ⟨w, hw, hrw⟩ := Rows.exists_of_mem_numbered hr
  rw [hrw]
  exact hs.drops hw rfl rfl rfl

/-- The next restore keeps the rows that this one has kept. -/
theorem filter_not_drops_reseeded (hv : t.Valid) (hs : Seeded e factory t.rows.profiles s) :
    (t.reseeded e s.waiting).rows.filter (!e.drops ·.2) = t.rows.filter (!e.drops ·.2) := by
  have hnone : (Rows.numbered t.nextId s.waiting).filter (!e.drops ·.2) = [] :=
    List.filter_eq_nil_iff.mpr fun r hr => by simp [drops_of_mem_numbered hs hr]
  rw [rows_reseeded hv, List.filter_append, hnone, List.append_nil, List.filter_filter]
  exact List.filter_congr fun r _ => Bool.and_self _

/-- The next restore takes out what this one has seeded. -/
theorem filter_drops_reseeded (hv : t.Valid) (hs : Seeded e factory t.rows.profiles s) :
    (t.reseeded e s.waiting).rows.filter (e.drops ·.2) = Rows.numbered t.nextId s.waiting := by
  have hkept : (t.rows.filter (!e.drops ·.2)).filter (e.drops ·.2) = [] := by
    rw [List.filter_filter]
    exact List.filter_eq_nil_iff.mpr fun r _ => by simp
  rw [rows_reseeded hv, List.filter_append, hkept, List.nil_append]
  exact List.filter_eq_self.mpr fun r hr => drops_of_mem_numbered hs hr

theorem survivors_reseeded (hv : t.Valid) (hs : Seeded e factory t.rows.profiles s) :
    (t.reseeded e s.waiting).rows.profiles.filter (!e.drops ·) =
      t.rows.profiles.filter (!e.drops ·) := by
  rw [← Rows.profiles_filter _ (!e.drops ·), ← Rows.profiles_filter _ (!e.drops ·),
    filter_not_drops_reseeded hv hs]

/-- No pattern is refused that was not refused before. -/
theorem refusal_reseeded (hv : t.Valid) (hs : Seeded e factory t.rows.profiles s)
    (h : refusal engine t.rows.profiles factory e = none) :
    refusal engine (t.reseeded e s.waiting).rows.profiles factory e = none := by
  obtain ⟨hrows, hfactory⟩ := refusal_eq_none.mp h
  refine refusal_eq_none.mpr ⟨fun r hr => ?_, hfactory⟩
  rw [rows_reseeded hv, Rows.profiles_append] at hr
  rcases List.mem_append.mp hr with hr | hr
  · obtain ⟨r', hr', rfl⟩ := List.mem_map.mp hr
    exact hrows _ (List.mem_map_of_mem (List.mem_filter.mp hr').1)
  · obtain ⟨r', hr', rfl⟩ := List.mem_map.mp hr
    obtain ⟨w, hw, hrw⟩ := Rows.exists_of_mem_numbered hr'
    obtain ⟨q, hq, hk⟩ := hs.covers.origin w hw
    obtain ⟨d, hd, hadm, rfl⟩ := mem_seeds.mp hq
    refine refusalOfRow_of_seed hadm (hk.trans ?_) (hfactory d hd)
    rw [hrw]
    rfl

/-- **The next restore** takes out and seeds what this one has seeded, under the next ids. -/
theorem restored_again {report : Report} (hv : t.Valid)
    (h : t.restored engine factory e = .ok (report, t')) :
    ∃ t'', t'.restored engine factory e =
        .ok ({ report with deleted := report.seeded }, t'') ∧
      t''.rows = t'.rows.rename (RowId.raise t.nextId report.seeded) := by
  obtain ⟨hrefusal, s, hs, rfl, rfl⟩ := (restored_eq_ok hv).mp h
  have hv' := hv.reseeded e s.waiting
  have hs' : Seeded e factory (t.reseeded e s.waiting).rows.profiles s := by
    rw [Seeded, survivors_reseeded hv hs]
    exact hs
  have hreport : (planOf e (t.reseeded e s.waiting).rows.profiles s).report =
      { (planOf e t.rows.profiles s).report with deleted := s.waiting.length } := by
    rw [planOf, survivors_reseeded hv hs, ← Rows.profiles_filter _ e.drops,
      filter_drops_reseeded hv hs, Rows.profiles, List.length_map, Rows.length_numbered]
    rfl
  refine ⟨_, (restored_eq_ok hv').mpr ⟨refusal_reseeded hv hs hrefusal, s, hs', hreport, rfl⟩, ?_⟩
  have hkept : Rows.rename (RowId.raise t.nextId s.waiting.length) (t.rows.filter (!e.drops ·.2)) =
      t.rows.filter (!e.drops ·.2) :=
    Rows.rename_eq_self (fun r hr => hv.named r (List.mem_filter.mp hr).1)
      fun r hr => RowId.raise_of_lt (hv.bounded r (List.mem_filter.mp hr).1).2
  have hnew : Rows.rename (RowId.raise t.nextId s.waiting.length)
      (Rows.numbered t.nextId s.waiting) =
        Rows.numbered (t.nextId + s.waiting.length) s.waiting :=
    Rows.rename_numbered _ fun _ => RowId.raise_of_le
  show _ = Rows.rename (RowId.raise t.nextId s.waiting.length) (t.reseeded e s.waiting).rows
  rw [rows_reseeded hv', nextId_reseeded, filter_not_drops_reseeded hv hs, rows_reseeded hv,
    Rows.rename_append, hkept, hnew]

end Table

/-! ## The call -/

namespace Registry

/-- **A restore is repeated without effect**, but for new ids of the rows that it seeds: these are
taken out and seeded again in the same order, and all other rows stay as they are. -/
theorem restoreToDefault_twice (setup : Setup) (caller : Caller) (sub : Subscription)
    (s s' : State Table) (report : Restore.Report) (hv : s.store.Valid)
    (h : (restoreToDefault setup caller sub).perform s = (.ok report, s')) :
    ∃ s'' ρ, (restoreToDefault setup caller sub).perform s' = (.ok {
        deleted := report.seeded
        preserved := report.preserved
        seeded := report.seeded }, s'') ∧
      (∀ id, (s.store.get? id).isSome → ρ id = id) ∧
      (∀ a b : RowId, a.val < b.val → (ρ a).val < (ρ b).val) ∧
      s''.store.rows = s'.store.rows.rename ρ := by
  obtain ⟨ha, t, hr, rfl⟩ := (restoreToDefault_eq_ok hv).mp h
  have hv' : t.Valid := (Table.moves_of_restored hv hr).valid hv
  obtain ⟨t', hr', hrows⟩ := Table.restored_again hv hr
  refine ⟨afterRestore setup sub (afterRestore setup sub s t) t',
    RowId.raise s.store.nextId report.seeded,
    (restoreToDefault_eq_ok hv').mpr ⟨ha, t', hr', rfl⟩, fun id hid => ?_,
    fun a b => RowId.raise_lt_raise _ _, hrows⟩
  obtain ⟨p, hp⟩ := Option.isSome_iff_exists.mp hid
  exact RowId.raise_of_lt (hv.lt_nextId hp)

/-- The first restore takes an unedited row out and seeds two; the second one replaces these two. -/
theorem restoreToDefault_twice_web_mms :
    let setup : Setup := { factory := [{ apn := "web" }, { apn := "mms" }] }
    let s : State Table :=
      .initial setup (.ofProfiles [{ apn := "old" }, { apn := "vpn", owner := .dpc }])
    ∃ s' s'' ρ,
      (restoreToDefault setup .system ⟨0⟩).perform s =
        (.ok { deleted := 1, preserved := 0, seeded := 2 }, s') ∧
      (restoreToDefault setup .system ⟨0⟩).perform s' =
        (.ok { deleted := 2, preserved := 0, seeded := 2 }, s'') ∧
      (∀ id, (s.store.get? id).isSome → ρ id = id) ∧
      (∀ a b : RowId, a.val < b.val → (ρ a).val < (ρ b).val) ∧
      s''.store.rows = s'.store.rows.rename ρ := by
  intro setup s
  have h : (restoreToDefault setup .system ⟨0⟩).perform s =
      (.ok { deleted := 1, preserved := 0, seeded := 2 },
        ((restoreToDefault setup .system ⟨0⟩).perform s).2) := by
    refine Prod.ext ?_ rfl
    decide +kernel
  obtain ⟨s'', ρ, h', hold, hmono, hrows⟩ :=
    restoreToDefault_twice setup .system ⟨0⟩ s _ _ (.ofProfiles _) h
  exact ⟨_, s'', ρ, h, h', hold, hmono, hrows⟩

end Registry

end ApnRegistry
