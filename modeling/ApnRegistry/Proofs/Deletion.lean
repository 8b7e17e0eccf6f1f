import ApnRegistry.Proofs.Authorization
import ApnRegistry.Proofs.Batch
import ApnRegistry.Proofs.InMemory
import ApnRegistry.Proofs.Moves

/-!
# Deletions

A deletion treats every selected row by itself: `Table.bury` takes a policy row or an edited row out,
and makes a tombstone of any other. Its batch names each row once, so it succeeds and does the same.

Results:
* `Table.get?_buryAll`, `Table.deleted_buryAll`: the rows that a deletion leaves.
* `Table.moves_of_deleteWhere`: the rows that it moves.
* `perform_delete`: a deletion from a table in memory deletes the selected rows one by one.
* `deleted_of_perform_delete`: a deletion that succeeds leaves no visible row that it sought.
-/

namespace ApnRegistry

namespace Table

variable {t : Table} {mark : EditStatus} {p q : Profile} {ps : List Profile} {id : RowId}

/-- Deletes the row, as a tombstone unless it is a policy row or an edited one. -/
def bury (mark : EditStatus) (t : Table) (p : Profile) : Table :=
  match p.id with
  | none => t
  | some id =>
    if p.owner == .dpc || p.status.isEdited then t.remove id
    else t.set id { p with status := mark }

/-- Deletes the visible rows that a condition selects and counts them. -/
def deleteWhere (q : Predicate) (mark : EditStatus) (t : Table) : Except Error (Nat × Table) :=
  .ok ((t.matching q).length, (t.matching q).foldl (bury mark) t)

theorem Valid.lists_matching (h : t.Valid) (q : Predicate) : t.Lists (t.matching q) :=
  (h.lists.filter q.holds).filter Profile.isVisible

/-! ## One row -/

theorem bury_of_id (hid : p.id = some id) : t.bury mark p =
    if p.owner == .dpc || p.status.isEdited then t.remove id
    else t.set id { p with status := mark } := by
  simp only [bury, hid]

theorem deletion_of_id (hid : p.id = some id) : Registry.deletion mark p = some
    (if p.owner == .dpc || p.status.isEdited then .delete id
    else .replace { p with status := mark }) := by
  simp only [Registry.deletion, hid, Option.map_some]

/-- What a deletion leaves of a row. -/
def buried (mark : EditStatus) (p : Profile) : Option Profile :=
  if p.owner == .dpc || p.status.isEdited then none else some { p with status := mark }

theorem get?_bury (hp : p.id = some id) (other : RowId) :
    (t.bury mark p).get? other = if other = id then buried mark p else t.get? other := by
  rw [bury_of_id hp, buried]
  split
  · rw [get?_remove]
  · rw [get?_set]

/-- What is left of a row is the row with the mark of a tombstone. -/
theorem eq_of_buried (h : buried mark p = some q) : q = { p with status := mark } := by
  unfold buried at h
  split at h
  · cases h
  · exact (Option.some.inj h).symm

theorem move_bury (hid : p.id = some id) (hp : t.get? id = some p) :
    Move (fun s => s = p.shard) t (t.bury mark p) := by
  rw [bury_of_id hid]
  split
  · exact .drop hp rfl
  · exact .rewrite hp hid rfl rfl (Or.inl rfl)

/-- The change that deletes a row of the table can be carried out. -/
theorem exists_step_bury (mark : EditStatus) (done : Batch.Outcome) (hid : p.id = some id) (hp : t.get? id = some p) :
    ∃ change done', Registry.deletion mark p = some change ∧
      t.step done change = .ok (t.bury mark p, done') := by
  have hl : (t.get? id).isSome := by
    rw [hp]
    rfl
  have hid' : ({ p with status := mark } : Profile).id = some id := hid
  rw [deletion_of_id hid, bury_of_id hid]
  split
  · exact ⟨_, _, rfl, step_delete hl⟩
  · exact ⟨_, _, rfl, step_replace hid' hl⟩

theorem Lists.tail_bury (h : t.Lists (p :: ps)) (mark : EditStatus) : (t.bury mark p).Lists ps where
  different := (List.pairwise_cons.mp h.different).2
  live := fun r hr => by
    obtain ⟨id, hid, -⟩ := h.live p List.mem_cons_self
    obtain ⟨other, hother, hg⟩ := h.live r (List.mem_cons_of_mem p hr)
    have hne : other ≠ id := fun heq =>
      (List.pairwise_cons.mp h.different).1 r hr (hid.trans (heq ▸ hother.symm))
    exact ⟨other, hother, by rw [get?_bury hid, if_neg hne, hg]⟩

/-! ## All rows -/

theorem steps_bury (mark : EditStatus) : ∀ {ps : List Profile} {t : Table} (done : Batch.Outcome),
    t.Lists ps → ∃ done', t.steps done (ps.filterMap (Registry.deletion mark)) =
      .ok (ps.foldl (bury mark) t, done') ∧
        (ps.filterMap (Registry.deletion mark)).length = ps.length
  | [], _, done, _ => ⟨done, rfl, rfl⟩
  | p :: ps, t, done, h => by
    obtain ⟨id, hid, hp⟩ := h.live p List.mem_cons_self
    obtain ⟨change, done₁, hchange, hstep⟩ := exists_step_bury mark done hid hp
    obtain ⟨done₂, hsteps, hlen⟩ := steps_bury mark done₁ (h.tail_bury mark)
    refine ⟨done₂, ?_, ?_⟩
    · rw [List.filterMap_cons_some hchange, steps_cons_of_ok _ hstep, hsteps]
      rfl
    · rw [List.filterMap_cons_some hchange, List.length_cons, hlen, List.length_cons]

theorem moves_of_bury {S : Shard → Prop} : ∀ {ps : List Profile} {t : Table}, t.Lists ps →
    (∀ p ∈ ps, S p.shard) → Moves S t (ps.foldl (bury mark) t)
  | [], t, _, _ => Moves.refl t
  | p :: ps, t, h, hS => by
    obtain ⟨id, hid, hp⟩ := h.live p List.mem_cons_self
    have hmove : Move S t (t.bury mark p) :=
      (move_bury hid hp).mono fun s hs => hs ▸ hS p List.mem_cons_self
    exact hmove.moves.trans
      (moves_of_bury (h.tail_bury mark) fun r hr => hS r (List.mem_cons_of_mem p hr))

/-- **Reading after a deletion**: deleted rows are gone or tombstones, all others are as they were. -/
theorem get?_buryAll (mark : EditStatus) : ∀ {ps : List Profile} {t : Table}, t.Valid → t.Lists ps →
    ∀ id, (ps.foldl (bury mark) t).get? id =
      (t.get? id).bind fun p => if p ∈ ps then buried mark p else some p
  | [], t, _, _, id => by
    cases h : t.get? id <;> simp [h]
  | p :: ps, t, hv, hl, id => by
    obtain ⟨own, hid, hp⟩ := hl.live p List.mem_cons_self
    have hother : ∀ r ∈ ps, p.id ≠ r.id := (List.pairwise_cons.mp hl.different).1
    rw [List.foldl_cons, get?_buryAll mark ((move_bury hid hp).valid hv) (hl.tail_bury mark), get?_bury hid]
    by_cases h : id = own
    · subst h
      rw [if_pos rfl, hp, Option.bind_some, if_pos List.mem_cons_self]
      -- What is left of the row has its id, so it is none of those that follow.
      cases hb : buried mark p with
      | none => rfl
      | some r =>
        have hr : r ∉ ps := fun hm => hother r hm (by rw [eq_of_buried hb])
        rw [Option.bind_some, if_neg hr]
    · rw [if_neg h]
      refine Option.bind_congr fun q hq => ?_
      have hne : q ≠ p := fun heq => h (Option.some.inj ((hv.id_of_get? hq).symm.trans (heq ▸ hid)))
      simp only [List.mem_cons, hne, false_or]

/-- What the deletion of the rows of which `P` is true leaves of a table. -/
structure Deleted (P : Profile → Prop) (t t' : Table) : Prop where
  /-- All other rows stay. -/
  kept : ∀ id p, t.get? id = some p → ¬P p → t'.get? id = some p
  /-- A row that is left and visible is one of those. -/
  spared : ∀ id p, t'.get? id = some p → p.isVisible = true → t.get? id = some p ∧ ¬P p
  /-- Whatever is left was there before, up to its status. -/
  marked : ∀ id q, t'.get? id = some q → ∃ p mark, t.get? id = some p ∧ q = { p with status := mark }

theorem Deleted.congr {P P' : Profile → Prop} {t' : Table} (h : Deleted P t t')
    (hP : ∀ p ∈ t.rows.profiles, P p ↔ P' p) (hv : t.Valid) : Deleted P' t t' where
  kept := fun id p hg hp => h.kept id p hg fun hP' => hp ((hP p (hv.mem_profiles hg)).mp hP')
  spared := fun id p hg hvis => by
    obtain ⟨hg, hp⟩ := h.spared id p hg hvis
    exact ⟨hg, fun hP' => hp ((hP p (hv.mem_profiles hg)).mpr hP')⟩
  marked := h.marked

/-- **The listed rows are deleted**, by a mark that hides them. -/
theorem deleted_buryAll (hv : t.Valid) (hl : t.Lists ps) (hmark : mark.isDeleted = true) :
    Deleted (· ∈ ps) t (ps.foldl (bury mark) t) where
  kept := fun id p hg hp => by
    rw [get?_buryAll mark hv hl, hg, Option.bind_some, if_neg hp]
  spared := fun id q hq hvis => by
    rw [get?_buryAll mark hv hl, Option.bind_eq_some_iff] at hq
    obtain ⟨p, hg, hq⟩ := hq
    split at hq
    · rw [eq_of_buried hq, Profile.isVisible, hmark] at hvis
      cases hvis
    · rename_i hp
      cases hq
      exact ⟨hg, hp⟩
  marked := fun id q hq => by
    rw [get?_buryAll mark hv hl, Option.bind_eq_some_iff] at hq
    obtain ⟨p, hg, hq⟩ := hq
    split at hq
    · exact ⟨p, mark, hg, eq_of_buried hq⟩
    · cases hq
      exact ⟨q, q.status, hg, rfl⟩

/-- A deletion moves rows of the shards of the rows that it selects. -/
theorem moves_of_deleteWhere {t' : Table} {q : Predicate} {n : Nat} {S : Shard → Prop}
    (hv : t.Valid) (hS : ∀ p ∈ t.matching q, S p.shard)
    (h : t.deleteWhere q mark = .ok (n, t')) : Moves S t t' := by
  cases h
  exact moves_of_bury (hv.lists_matching q) hS

end Table

namespace Registry

variable {setup : Setup} {caller : Caller} {target : Target} {q : Predicate} {partition : Partition}
  {s : State Table}

theorem perform_delete_of_error {e : Error}
    (ha : partitionFor setup caller target .delete s.enforced = .error e) :
    (delete setup caller target q).perform s = (.error e, s) := by
  rw [delete, Action.perform_bind, perform_authorizeRows_eq, ha]

/-- **A deletion from a table in memory deletes the selected rows one by one.** -/
theorem perform_delete (hv : s.store.Valid)
    (ha : partitionFor setup caller target .delete s.enforced = .ok partition) :
    (delete setup caller target q).perform s =
      (announcing target.subscription? (edits (Table.deleteWhere
        (selected setup partition target q) (tombstone caller)))).perform s := by
  rw [delete, Action.perform_bind, perform_authorizeRows_eq, ha]
  show (lockMatching _ (7 + 1) >>= _ : Action Table Nat).perform s = _
  rw [Action.perform_bind, perform_lockMatching, announcing, Action.perform_bind]
  by_cases hm : s.store.matching (selected setup partition target q) = []
  · have hedit : s.store.deleteWhere (selected setup partition target q) (tombstone caller) =
        .ok (0, s.store) := by
      rw [Table.deleteWhere, hm]
      rfl
    rw [if_pos hm, perform_edits_of_ok hedit]
    rfl
  · obtain ⟨done, hsteps, hlen⟩ := Table.steps_bury (tombstone caller) {}
      (hv.lists_matching (selected setup partition target q))
    have hwrite := perform_write (s := s) hsteps
    have hedit : s.store.deleteWhere (selected setup partition target q) (tombstone caller) = _ := rfl
    rw [if_neg hm, perform_edits_of_ok hedit]
    show (write _ >>= _ : Action Table Nat).perform s = _
    rw [Action.perform_bind, hwrite, hlen]

/-- Any mark of a deletion hides a row. -/
theorem isDeleted_tombstone (caller : Caller) : (tombstone caller).isDeleted = true := by
  unfold tombstone
  split
  · rfl
  · rfl

/-- **A deletion that succeeds deletes the chosen rows**, and changes no flag. -/
theorem deleted_of_perform_delete {n : Nat} {s' : State Table} (hv : s.store.Valid)
    (ha : partitionFor setup caller target .delete s.enforced = .ok partition)
    (h : (delete setup caller target q).perform s = (.ok n, s')) :
    Table.Deleted (· ∈ chosen setup partition.owner target q s.store) s.store s'.store ∧
      s'.store.Valid ∧ s'.enforced = s.enforced := by
  have hlists := hv.lists_matching (selected setup partition target q)
  have hmoves : Table.Moves (fun _ => True) s.store
      ((s.store.matching (selected setup partition target q)).foldl (Table.bury (tombstone caller))
        s.store) := Table.moves_of_bury hlists fun _ _ => trivial
  rw [perform_delete hv ha, perform_announcing (perform_edits_of_ok rfl)] at h
  cases h
  rw [← matching_selected]
  exact ⟨Table.deleted_buryAll hv hlists (isDeleted_tombstone caller), hmoves.valid hv, rfl⟩

end Registry

end ApnRegistry
