import ApnRegistry.Proofs.Authorization
import ApnRegistry.Proofs.InMemory
import ApnRegistry.Proofs.Moves
import ApnRegistry.Proofs.Overlay

/-!
# Updates: the revision and the table it is a revision of

`Table.revise` updates one row by looking at the table itself, and `Table.reviseAll` one after the
other. A revision works on a copy of the locked shards. It is an overlay without new rows, and with
every row it does what `revise` does to the table that the overlay stands for: a row is hit by rows
of its own shard only.

Results:
* `Table.moves_of_reviseAll`: the rows that are moved.
* `Revision.foldlM_reviseAll`: the revision does what the table does.
* `perform_update`: an update of a table in memory revises the selected rows one by one; if a policy
  row would collide, nothing is changed.
-/

namespace ApnRegistry

open Collision

namespace Table

variable {t t' : Table} {changes : Update} {p row : Profile} {id : RowId} {n : Nat} {e : Error}

/-- Updates the row under the id, if it is there, and tells how many rows that were. A row that
collides with another is merged onto that one, and goes. -/
def revise (changes : Update) (t : Table) (id : RowId) : Except Error (Nat × Table) :=
  match t.get? id with
  | none => .ok (0, t)
  | some current =>
    match resolveUpdate current changes t.rows.profiles with
    | .error e => .error e
    | .ok r =>
      let t := r.removed.foldl remove t
      match r.stored.id with
      | some stored => .ok (1, t.set stored r.stored)
      | none => .ok (1, t)

/-- Updates rows one by one and counts them. -/
def reviseAll (changes : Update) : List RowId → Table → Except Error (Nat × Table)
  | [], t => .ok (0, t)
  | id :: ids, t => do
    let (n, t) ← t.revise changes id
    let (m, t) ← reviseAll changes ids t
    return (n + m, t)

theorem revise_of_none (h : t.get? id = none) : t.revise changes id = .ok (0, t) := by
  simp only [revise, h]

theorem revise_of_error (hp : t.get? id = some p)
    (hr : resolveUpdate p changes t.rows.profiles = .error e) : t.revise changes id = .error e := by
  simp only [revise, hp, hr]

/-- A row whose new key no other row has is overwritten. -/
theorem revise_of_new (hp : t.get? id = some p) (hid : p.id = some id)
    (hh : hits (changes.applied p) t.rows.profiles = []) :
    t.revise changes id = .ok (1, t.set id (changes.applied p)) := by
  have ha : (changes.applied p).id = some id := hid
  simp only [revise, hp, resolveUpdate_of_nil hh, ha, List.foldl_nil]

/-- An ordinary row whose new key one other row has is merged onto that one. -/
theorem revise_of_hit {other : RowId} (hp : t.get? id = some p) (hid : p.id = some id)
    (ho : p.owner = .others) (hh : hits (changes.applied p) t.rows.profiles = [row])
    (hrow : row.id = some other) :
    t.revise changes id =
      .ok (1, (t.remove id).set other (updateOnto row (changes.applied p) changes).1) := by
  have hu : (updateOnto row (changes.applied p) changes).1.id = some other :=
    (id_updateOnto row _ changes).trans hrow
  simp only [revise, hp, resolveUpdate_of_singleton hid ho hh, hu, List.foldl_cons, List.foldl_nil]

theorem reviseAll_cons_of_ok {m : Nat} {ids : List RowId} {t'' : Table}
    (h : t.revise changes id = .ok (n, t')) (hs : reviseAll changes ids t' = .ok (m, t'')) :
    reviseAll changes (id :: ids) t = .ok (n + m, t'') := by
  simp only [reviseAll, h, hs, bind, Except.bind, pure, Except.pure]

theorem reviseAll_cons_of_error (ids : List RowId) (h : t.revise changes id = .error e) :
    reviseAll changes (id :: ids) t = .error e := by
  simp only [reviseAll, h, bind, Except.bind]

theorem reviseAll_cons_of_error_tail {ids : List RowId} (h : t.revise changes id = .ok (n, t'))
    (hs : reviseAll changes ids t' = .error e) : reviseAll changes (id :: ids) t = .error e := by
  simp only [reviseAll, h, hs, bind, Except.bind]

/-! ## What an update moves -/

/-- What an update decides for a row: the row is overwritten, or merged onto the one row that it hits,
or the update fails. -/
theorem resolveUpdate_cases (p : Profile) (changes : Update) (rows : List Profile) :
    hits (changes.applied p) rows = [] ∨
    (∃ row, hits (changes.applied p) rows = [row] ∧ p.owner = .others) ∨
    ∃ e, resolveUpdate p changes rows = .error e := by
  cases hh : hits (changes.applied p) rows with
  | nil => exact Or.inl rfl
  | cons row more =>
    right
    cases ho : p.owner with
    | others =>
      cases more with
      | nil => exact Or.inl ⟨row, rfl, rfl⟩
      | cons row' more =>
        right
        simp only [resolveUpdate, hh, ho]
        exact ⟨_, rfl⟩
    | dpc =>
      right
      cases more with
      | nil =>
        simp only [resolveUpdate, hh, ho, if_true]
        exact ⟨_, rfl⟩
      | cons row' more =>
        simp only [resolveUpdate, hh, ho, if_true]
        exact ⟨_, rfl⟩

/-- **A revised row moves within its own shard.** -/
theorem moves_of_revise (hv : t.Valid) (hp : t.get? id = some p)
    (h : t.revise changes id = .ok (n, t')) : Moves (fun s => s = p.shard) t t' := by
  have hid := hv.id_of_get? hp
  rcases resolveUpdate_cases p changes t.rows.profiles with hh | ⟨row, hh, ho⟩ | ⟨e, hr⟩
  · rw [revise_of_new hp hid hh] at h
    cases h
    exact Move.moves (.rewrite hp hid rfl rfl (Or.inr (hv.keyFree_of_hits hid hh)))
  · obtain ⟨other, hrow, hg, hk, hne⟩ := hv.exists_of_mem_hits (hh ▸ List.mem_singleton_self row)
    have hother : other ≠ id := fun heq => hne (heq ▸ hid)
    have hshard : row.shard = p.shard := Update.shard_eq_of_key_eq hk
    have hkey : (updateOnto row (changes.applied p) changes).1.key = row.key := key_updateOnto hk
    have hg' : (t.remove id).get? other = some row := by
      rw [get?_remove, if_neg hother, hg]
    rw [revise_of_hit hp hid ho hh hrow] at h
    cases h
    have hdrop : Moves (fun s => s = p.shard) t (t.remove id) := Move.moves (.drop hp rfl)
    exact hdrop.tail (.rewrite hg' ((id_updateOnto row _ changes).trans hrow)
      (Profile.shard_eq_of_key_eq hkey) hshard (Or.inl hkey))
  · rw [revise_of_error hp hr] at h
    cases h

theorem moves_of_reviseAll {S : Shard → Prop} : ∀ {ids : List RowId} {t : Table} {n : Nat}, t.Valid →
    (∀ id ∈ ids, ∀ p, t.get? id = some p → S p.shard) → reviseAll changes ids t = .ok (n, t') →
    Moves S t t'
  | [], t, _, _, _, h => by
    cases h
    exact Moves.refl _
  | id :: ids, t, _, hv, hS, h => by
    cases hr : t.revise changes id with
    | error e =>
      rw [reviseAll_cons_of_error ids hr] at h
      cases h
    | ok r =>
      obtain ⟨m, t₁⟩ := r
      have h₁ : Moves S t t₁ := by
        cases hp : t.get? id with
        | none =>
          rw [revise_of_none hp] at hr
          cases hr
          exact Moves.refl _
        | some p =>
          refine (moves_of_revise hv hp hr).mono fun s hs => ?_
          exact hs ▸ hS id List.mem_cons_self p hp
      cases hall : reviseAll changes ids t₁ with
      | error e =>
        rw [reviseAll_cons_of_error_tail hr hall] at h
        cases h
      | ok r =>
        obtain ⟨k, t₂⟩ := r
        rw [reviseAll_cons_of_ok hr hall] at h
        cases h
        refine h₁.trans (moves_of_reviseAll (h₁.valid hv) (fun other hother p hp => ?_) hall)
        -- A row outside of `S` would have been there before.
        by_contra hs
        exact hs (hS other (List.mem_cons_of_mem id hother) p ((h₁.get?_iff hv hs).mp hp))

end Table

namespace Registry

namespace Revision

variable {t : Table} {f : Profile → Bool} {v v' : Revision} {changes : Update} {id : RowId}
  {p row : Profile}

/-- The revision as an overlay. -/
def overlay (v : Revision) : Overlay :=
  { working := v.working, touched := v.touched, gone := v.removed }

/-- The table that the revision leads to. -/
def table (t : Table) (v : Revision) : Table := v.overlay.table t

theorem batch_eq (v : Revision) : v.batch = v.overlay.batch := (List.append_nil _).symm

/-! ## One row in the revision -/

theorem step_of_none (h : v.working.get? id = none) : v.step changes id = .ok v := by
  simp only [step, h]

theorem step_of_error {e : Error} (hp : v.working.get? id = some p)
    (hr : resolveUpdate p changes (v.working.profiles.filter (·.shard == p.shard)) = .error e) :
    v.step changes id = .error e := by
  simp only [step, hp, hr, bind, Except.bind]

theorem step_of_new (hp : v.working.get? id = some p) (hid : p.id = some id)
    (hh : hits (changes.applied p) (v.working.profiles.filter (·.shard == p.shard)) = []) :
    v.step changes id = .ok {
      working := v.working.put id (changes.applied p)
      touched := v.touched ++ [id]
      removed := v.removed
      affected := v.affected + 1 } := by
  have ha : (changes.applied p).id = some id := hid
  simp only [step, hp, resolveUpdate_of_nil hh, ha, bind, Except.bind, pure, Except.pure, List.foldl_nil,
    List.append_nil]

theorem step_of_hit {other : RowId} (hp : v.working.get? id = some p) (hid : p.id = some id)
    (ho : p.owner = .others)
    (hh : hits (changes.applied p) (v.working.profiles.filter (·.shard == p.shard)) = [row])
    (hrow : row.id = some other) :
    v.step changes id = .ok {
      working := (v.working.erase id).put other (updateOnto row (changes.applied p) changes).1
      touched := v.touched ++ [other]
      removed := v.removed ++ [id]
      affected := v.affected + 1 } := by
  have hu : (updateOnto row (changes.applied p) changes).1.id = some other :=
    (id_updateOnto row _ changes).trans hrow
  simp only [step, hp, resolveUpdate_of_singleton hid ho hh, hu, bind, Except.bind, pure, Except.pure,
    List.foldl_cons, List.foldl_nil]

/-! ## The revision and its table -/

/-- The revision is a sound overlay of the locked shards. -/
structure Sound (t : Table) (f : Profile → Bool) (v : Revision) : Prop where
  overlay : v.overlay.Sound t f
  sharded : ∀ p q : Profile, p.shard = q.shard → f p = f q

/-- What a row would hit in the table once it is updated, it would hit in the revision. -/
theorem Sound.hits_table (h : Sound t f v) (changes : Update) (hp : v.working.get? id = some p) :
    hits (changes.applied p) (v.working.profiles.filter (·.shard == p.shard)) =
      hits (changes.applied p) (v.table t).rows.profiles := by
  have hf : ∀ q : Profile, q.key = (changes.applied p).key → f q = true := fun q hk =>
    (h.sharded q p (Update.shard_eq_of_key_eq hk)).trans (h.overlay.named id p hp).2
  rw [table, h.overlay.hits_table hf, hits_filter]
  · exact (List.append_nil _).symm
  · exact fun q _ hk => beq_iff_eq.mpr (Update.shard_eq_of_key_eq hk)

/-- The revision and the table agree on one more row: both fail, or the revision goes on to a revision
of the next table. -/
def Agree (t : Table) (f : Profile → Bool) (v : Revision) (changes : Update) (id : RowId) : Prop :=
  (∃ e, v.step changes id = .error e ∧ (v.table t).revise changes id = .error e) ∨
    ∃ v' n, v.step changes id = .ok v' ∧ Sound t f v' ∧ v'.affected = v.affected + n ∧
      (v.table t).revise changes id = .ok (n, v'.table t)

/-- **The revision does what the table would do** with one more row of the locked shards. -/
theorem Sound.agree (h : Sound t f v) (changes : Update) (hlt : id.val < t.nextId)
    (hf : ∀ p, t.get? id = some p → f p = true) : Agree t f v changes id := by
  have hread : (v.table t).get? id = v.working.get? id := h.overlay.get?_table_of_inside hlt hf
  cases hp : v.working.get? id with
  | none =>
    exact Or.inr ⟨v, 0, step_of_none hp, h, rfl, Table.revise_of_none (hread.trans hp)⟩
  | some p =>
    have hpt := hread.trans hp
    obtain ⟨hid, hfp⟩ := h.overlay.named id p hp
    have hhits := h.hits_table changes hp
    rcases Table.resolveUpdate_cases p changes (v.table t).rows.profiles with
      hh | ⟨row, hh, ho⟩ | ⟨e, hr⟩
    · obtain ⟨hs, ht⟩ := h.overlay.put hp (p := changes.applied p) hid
        ((h.sharded _ p (changes.shard_applied p)).trans hfp)
      refine Or.inr ⟨_, 1, step_of_new hp hid (hhits.trans hh), ⟨hs, h.sharded⟩, rfl, ?_⟩
      rw [Table.revise_of_new hpt hid hh]
      exact congrArg Except.ok (Prod.ext rfl ht.symm)
    · have hmem : row ∈ hits (changes.applied p) v.working.profiles := by
        have hm : row ∈ hits (changes.applied p) (v.working.profiles.filter (·.shard == p.shard)) := by
          rw [hhits, hh]
          exact List.mem_singleton_self row
        obtain ⟨hrow, hrest⟩ := mem_hits.mp hm
        exact mem_hits.mpr ⟨(List.mem_filter.mp hrow).1, hrest⟩
      obtain ⟨other, hrow, hg, hk, hne⟩ := h.overlay.exists_of_hits hmem
      have hother : other ≠ id := fun heq => hne (heq ▸ hid)
      have hkey : (updateOnto row (changes.applied p) changes).1.key = row.key := key_updateOnto hk
      obtain ⟨he, hte⟩ := h.overlay.erase hp
      have hg' : (v.overlay.erase id).working.get? other = some row := by
        rw [Overlay.erase, Rows.get?_erase, if_neg hother]
        exact hg
      obtain ⟨hs, ht⟩ := he.put hg' ((id_updateOnto row _ changes).trans hrow)
        ((h.overlay.respects _ _ hkey).trans (h.overlay.named other row hg).2)
      refine Or.inr ⟨_, 1, step_of_hit hp hid ho (hhits.trans hh) hrow, ⟨hs, h.sharded⟩, rfl, ?_⟩
      rw [Table.revise_of_hit hpt hid ho hh hrow, table, ← hte]
      exact congrArg Except.ok (Prod.ext rfl ht.symm)
    · exact Or.inl ⟨e, step_of_error hp ((resolveUpdate_congr hhits).trans hr),
        Table.revise_of_error hpt hr⟩

/-- **A whole revision does what the table does** when it revises the rows one by one. -/
theorem foldlM_reviseAll (changes : Update) : ∀ {ids : List RowId} {v : Revision}, Sound t f v →
    (∀ id ∈ ids, id.val < t.nextId ∧ ∀ p, t.get? id = some p → f p = true) →
    (∃ e, ids.foldlM (step changes) v = .error e ∧
      Table.reviseAll changes ids (v.table t) = .error e) ∨
    ∃ v' n, ids.foldlM (step changes) v = .ok v' ∧ Sound t f v' ∧ v'.affected = v.affected + n ∧
      Table.reviseAll changes ids (v.table t) = .ok (n, v'.table t)
  | [], v, h, _ => Or.inr ⟨v, 0, rfl, h, rfl, rfl⟩
  | id :: ids, v, h, hids => by
    obtain ⟨hlt, hf⟩ := hids id List.mem_cons_self
    rw [List.foldlM_cons]
    rcases h.agree changes hlt hf with ⟨e, hstep, hrevise⟩ | ⟨v₁, n, hstep, h₁, hn, hrevise⟩
    · exact Or.inl ⟨e, by rw [hstep]; rfl, Table.reviseAll_cons_of_error ids hrevise⟩
    · rw [hstep]
      rcases foldlM_reviseAll changes h₁ fun other ho => hids other (List.mem_cons_of_mem id ho) with
        ⟨e, hfold, hall⟩ | ⟨v₂, m, hfold, h₂, hm, hall⟩
      · exact Or.inl ⟨e, hfold, Table.reviseAll_cons_of_error_tail hrevise hall⟩
      · refine Or.inr ⟨v₂, n + m, hfold, h₂, ?_, Table.reviseAll_cons_of_ok hrevise hall⟩
        rw [hm, hn, Nat.add_assoc]

end Revision

end Registry

/-- The ids of the selected rows are those under which they are stored. -/
theorem Table.Valid.exists_of_mem_matching {t : Table} {q : Predicate} {id : RowId} (hv : t.Valid)
    (hid : id ∈ (t.matching q).filterMap (·.id)) : ∃ p ∈ t.matching q, t.get? id = some p := by
  obtain ⟨p, hm, hp⟩ := List.mem_filterMap.mp hid
  obtain ⟨id', hid', hg⟩ := hv.mem_profiles_iff.mp (mem_matching.mp hm).1
  rw [hp, Option.some.injEq] at hid'
  exact ⟨p, hm, hid' ▸ hg⟩

/-- Updates the visible rows that a condition selects and counts them, or changes nothing if a policy
row would collide. -/
def Table.updateWhere (q : Predicate) (changes : Update) (t : Table) : Except Error (Nat × Table) :=
  match reviseAll changes ((t.matching q).filterMap (·.id)) t with
  | .error e => if e.kind = .conflict then .ok (0, t) else .error e
  | .ok r => .ok r

/-- An update moves rows within the shards of the rows that it selects. -/
theorem Table.moves_of_updateWhere {t t' : Table} {q : Predicate} {changes : Update} {n : Nat}
    {S : Shard → Prop} (hv : t.Valid) (hS : ∀ p ∈ t.matching q, S p.shard)
    (h : t.updateWhere q changes = .ok (n, t')) : Moves S t t' := by
  unfold updateWhere at h
  split at h
  · split at h
    · cases h
      exact Moves.refl t
    · cases h
  · rename_i r hr
    cases h
    refine moves_of_reviseAll hv (fun id hid p hp => ?_) hr
    obtain ⟨r, hm, hg⟩ := hv.exists_of_mem_matching hid
    rw [hp, Option.some.injEq] at hg
    exact hg ▸ hS r hm

namespace Registry

variable {setup : Setup} {caller : Caller} {target : Target} {q : Predicate} {changes : Update}
  {partition : Partition} {s : State Table}

theorem perform_update_of_error {e : Error}
    (ha : partitionFor setup caller target .update s.enforced = .error e) :
    (update setup caller target q changes).perform s = (.error e, s) := by
  rw [update, Action.perform_bind, perform_authorizeRows_eq, ha]

theorem perform_update_of_isEmpty
    (ha : partitionFor setup caller target .update s.enforced = .ok partition)
    (hc : changes.isEmpty = true) :
    (update setup caller target q changes).perform s = (.ok 0, s) := by
  rw [update, Action.perform_bind, perform_authorizeRows_eq, ha]
  show (if changes.isEmpty = true then _ else _ : Action Table Nat).perform s = _
  rw [if_pos hc]
  rfl

/-- Revising a copy of the rows in the shards of the selected ones, and carrying the revision out. -/
theorem perform_revision (subscription : Option Subscription) (hv : s.store.Valid) :
    (do
      let locked ← rows (inShards (Ascending.ofList ((s.store.matching q).map Profile.shard)))
        .idAscending
      match Revision.ofRows changes locked ((s.store.matching q).filterMap (·.id)) with
      | .error e => if e.kind = .conflict then return 0 else throw e
      | .ok revision =>
        let _ ← write revision.batch
        if 0 < revision.affected then publish (.apnTable subscription)
        return revision.affected : Action Table Nat).perform s =
    (announcing subscription (edits (Table.updateWhere q changes))).perform s := by
  let shards := Ascending.ofList ((s.store.matching q).map Profile.shard)
  let f := (inShards shards).holds
  have hsharded (p q : Profile) (h : p.shard = q.shard) : f p = f q := by
    rw [Bool.eq_iff_iff, holds_inShards, holds_inShards, h]
  have hids : ∀ id ∈ (s.store.matching q).filterMap (·.id), id.val < s.store.nextId ∧
      ∀ p, s.store.get? id = some p → f p = true := by
    intro id hid
    obtain ⟨r, hm, hg⟩ := hv.exists_of_mem_matching hid
    refine ⟨hv.lt_nextId hg, fun p hp => ?_⟩
    rw [hp, Option.some.injEq] at hg
    subst hg
    exact (holds_inShards _ _).mpr (Ascending.mem_ofList.mpr (List.mem_map_of_mem hm))
  have hstart : Revision.Sound s.store f
      { working := Rows.ofProfiles (s.store.rows.profiles.filter f) } :=
    ⟨.copy hv fun _ _ => holds_inShards_congr, hsharded⟩
  have htable : Revision.table s.store
      { working := Rows.ofProfiles (s.store.rows.profiles.filter f) } = s.store :=
    Overlay.table_copy _ _
  rw [announcing, Action.perform_bind, Action.perform_bind, perform_rows, Table.scan_idAscending]
  rcases Revision.foldlM_reviseAll changes hstart hids with
    ⟨e, hfold, hall⟩ | ⟨v, n, hfold, hs, hn, hall⟩
  · have hrows : Revision.ofRows changes (s.store.rows.profiles.filter f)
        ((s.store.matching q).filterMap (·.id)) = .error e := hfold
    rw [htable] at hall
    simp only [shards, f] at hrows
    simp only [hrows]
    by_cases hconf : e.kind = .conflict
    · have hedit : s.store.updateWhere q changes = .ok (0, s.store) := by
        simp only [Table.updateWhere, hall, hconf, if_true]
      rw [if_pos hconf, perform_edits_of_ok hedit]
      rfl
    · have hedit : s.store.updateWhere q changes = .error e := by
        simp only [Table.updateWhere, hall, hconf, if_false]
      rw [if_neg hconf, perform_edits_of_error hedit]
      rfl
  · have hrows : Revision.ofRows changes (s.store.rows.profiles.filter f)
        ((s.store.matching q).filterMap (·.id)) = .ok v := hfold
    rw [htable] at hall
    obtain rfl : v.affected = n := hn.trans (Nat.zero_add n)
    have hedit : s.store.updateWhere q changes = .ok (v.affected, v.table s.store) := by
      simp only [Table.updateWhere, hall]
    have hwrite := perform_write (s := s) hs.overlay.apply_batch
    simp only [shards, f] at hrows
    simp only [hrows]
    rw [Action.perform_bind, Revision.batch_eq, hwrite, perform_edits_of_ok hedit]
    rfl

/-- **An update of a table in memory revises the selected rows one by one.** -/
theorem perform_update (hv : s.store.Valid)
    (ha : partitionFor setup caller target .update s.enforced = .ok partition)
    (hc : changes.isEmpty = false) :
    (update setup caller target q changes).perform s =
      (announcing target.subscription? (edits (Table.updateWhere
        (selected setup partition target q) (stamped caller partition changes)))).perform s := by
  rw [update, Action.perform_bind, perform_authorizeRows_eq, ha]
  show (if changes.isEmpty = true then _ else lockMatching _ (7 + 1) >>= _ : Action Table Nat).perform s
    = _
  rw [hc, if_neg Bool.false_ne_true, Action.perform_bind, perform_lockMatching]
  by_cases hm : s.store.matching (selected setup partition target q) = []
  · have hedit : s.store.updateWhere (selected setup partition target q)
        (stamped caller partition changes) = .ok (0, s.store) := by
      rw [Table.updateWhere, hm]
      rfl
    rw [if_pos hm, announcing, Action.perform_bind, perform_edits_of_ok hedit]
    rfl
  · rw [if_neg hm]
    exact perform_revision target.subscription? hv

end Registry

end ApnRegistry
