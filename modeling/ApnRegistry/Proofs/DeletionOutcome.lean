import ApnRegistry.Proofs.Deletion

/-!
# The outcome of a deletion

A deletion treats the rows that it chooses one by one, and each by what it was before: policy rows and
edited rows go, any other row becomes a tombstone. Neither can be chosen again, since what is left of a
chosen row is hidden, and all other rows are as they were. So the same deletion finds nothing any more.

Results:
* `Table.Burial`: the table before a deletion and the table after it, compared.
* `Table.burial_buryAll`: what the deletion of listed rows makes of a table.
* `Registry.chosen_of_burial`: no row is chosen twice.
* `Registry.delete_chosen`: the call.
-/

namespace ApnRegistry

namespace Table

variable {t t' : Table} {mark : EditStatus} {p : Profile} {ps : List Profile} {id : RowId}

/-- What the deletion of the listed rows makes of a table. -/
structure Burial (mark : EditStatus) (ps : List Profile) (t t' : Table) : Prop where
  /-- Policy rows and edited rows are gone. -/
  gone : ∀ id p, t.get? id = some p → p ∈ ps →
    p.owner = .dpc ∨ p.status = .userEdited ∨ p.status = .carrierEdited → t'.get? id = none
  /-- Any other listed row gets the mark, and keeps its id and all the rest. -/
  marked : ∀ id p, t.get? id = some p → p ∈ ps →
    ¬(p.owner = .dpc ∨ p.status = .userEdited ∨ p.status = .carrierEdited) →
    t'.get? id = some { p with status := mark }
  /-- Rows that are not listed stay as they are. -/
  kept : ∀ id p, t.get? id = some p → p ∉ ps → t'.get? id = some p
  /-- No row comes. -/
  none_new : ∀ id, t.get? id = none → t'.get? id = none
  /-- No id is handed out. -/
  nextId : t'.nextId = t.nextId

/-- A row that a deletion takes out: a policy row, or an edited one. -/
theorem buried_eq_none_iff : buried mark p = none ↔
    p.owner = .dpc ∨ p.status = .userEdited ∨ p.status = .carrierEdited := by
  have hedited : p.status.isEdited = true ↔ p.status = .userEdited ∨ p.status = .carrierEdited := by
    cases p.status <;> simp [EditStatus.isEdited]
  rw [buried, ← hedited, ← beq_iff_eq (a := p.owner), ← Bool.or_eq_true]
  split
  · rename_i h
    exact iff_of_true rfl h
  · rename_i h
    exact iff_of_false (Option.some_ne_none _) h

theorem nextId_buryAll (mark : EditStatus) (ps : List Profile) (t : Table) :
    (ps.foldl (bury mark) t).nextId = t.nextId := by
  have hone (t : Table) (p : Profile) : (t.bury mark p).nextId = t.nextId := by
    unfold bury
    split
    · rfl
    · split
      · rfl
      · rfl
  induction ps generalizing t with
  | nil => rfl
  | cons p ps ih => rw [List.foldl_cons, ih, hone]

/-- **Listed rows are buried**, each by what it was. -/
theorem burial_buryAll (mark : EditStatus) (hv : t.Valid) (hl : t.Lists ps) :
    Burial mark ps t (ps.foldl (bury mark) t) where
  gone := fun id p hg hm hgone => by
    rw [get?_buryAll mark hv hl, hg, Option.bind_some, if_pos hm, buried_eq_none_iff]
    exact hgone
  marked := fun id p hg hm hstays => by
    obtain ⟨q, hq⟩ := Option.ne_none_iff_exists'.mp (mt buried_eq_none_iff.mp hstays)
    rw [get?_buryAll mark hv hl, hg, Option.bind_some, if_pos hm, hq, eq_of_buried hq]
  kept := fun id p hg hm => by
    rw [get?_buryAll mark hv hl, hg, Option.bind_some, if_neg hm]
  none_new := fun id hg => by
    rw [get?_buryAll mark hv hl, hg, Option.bind_none]
  nextId := nextId_buryAll mark ps t

/-- A row that is visible after a deletion was there before, and was not listed. -/
theorem Burial.of_visible (h : Burial mark ps t t') (hmark : mark.isDeleted = true)
    (hg : t'.get? id = some p) (hvis : p.isVisible = true) : t.get? id = some p ∧ p ∉ ps := by
  cases hold : t.get? id with
  | none =>
    rw [h.none_new id hold] at hg
    cases hg
  | some q =>
    by_cases hm : q ∈ ps
    · by_cases hgone : q.owner = .dpc ∨ q.status = .userEdited ∨ q.status = .carrierEdited
      · rw [h.gone id q hold hm hgone] at hg
        cases hg
      · rw [h.marked id q hold hm hgone] at hg
        cases hg
        rw [Profile.isVisible, hmark] at hvis
        cases hvis
    · rw [h.kept id q hold hm] at hg
      cases hg
      exact ⟨rfl, hm⟩

end Table

namespace Registry

variable {setup : Setup} {caller : Caller} {target : Target} {q : Predicate} {partition : Partition}
  {owner : Owner} {mark : EditStatus} {t t' : Table} {s : State Table}

/-- **No row is chosen twice**: after the deletion of the chosen rows none is left to choose. -/
theorem chosen_of_burial (h : Table.Burial mark (chosen setup owner target q t) t t')
    (hv : t.Valid) (hv' : t'.Valid) (hmark : mark.isDeleted = true) :
    chosen setup owner target q t' = [] := by
  refine List.eq_nil_iff_forall_not_mem.mpr fun p hp => ?_
  obtain ⟨hrow, hsought⟩ := List.mem_filter.mp hp
  obtain ⟨id, -, hg⟩ := hv'.mem_profiles_iff.mp hrow
  have hvis : p.isVisible = true := by
    simp only [Bool.and_eq_true] at hsought
    exact hsought.1.1.1
  obtain ⟨hold, hnot⟩ := h.of_visible hmark hg hvis
  exact hnot (List.mem_filter.mpr ⟨hv.mem_profiles hold, hsought⟩)

/-- A deletion that chooses nothing changes nothing. -/
theorem perform_delete_of_nil (hv : s.store.Valid)
    (ha : partitionFor setup caller target .delete s.enforced = .ok partition)
    (hnone : chosen setup partition.owner target q s.store = []) :
    (delete setup caller target q).perform s = (.ok 0, s) := by
  have hedit : s.store.deleteWhere (selected setup partition target q) (tombstone caller) =
      .ok (0, s.store) := by
    rw [Table.deleteWhere, matching_selected, hnone]
    rfl
  rw [perform_delete hv ha, perform_announcing (perform_edits_of_ok hedit)]
  rfl

/-- **What a granted deletion does**: it counts the rows that it chooses, the visible rows of its partition
that the target addresses and the condition selects. Policy rows and edited rows among them are gone, the
other ones are tombstones under their old ids, with the mark of the caller, and all other rows stay. The same
deletion again counts nothing and changes nothing. -/
theorem delete_chosen (setup : Setup) (caller : Caller) (target : Target) (q : Predicate)
    (partition : Partition) (s : State Table) (hv : s.store.Valid)
    (ha : partitionFor setup caller target .delete s.enforced = .ok partition) :
    let rows := chosen setup partition.owner target q s.store
    let mark : EditStatus := if caller.isCarrier then .carrierDeleted else .userDeleted
    ∃ s', (delete setup caller target q).perform s = (.ok rows.length, s') ∧
      Table.Burial mark rows s.store s'.store ∧
      (delete setup caller target q).perform s' = (.ok 0, s') := by
  intro rows mark
  have hrows : s.store.matching (selected setup partition target q) = rows := matching_selected ..
  have hlists : s.store.Lists rows := hrows ▸ hv.lists_matching _
  have hedit : s.store.deleteWhere (selected setup partition target q) (tombstone caller) =
      .ok (rows.length, rows.foldl (Table.bury mark) s.store) := by
    rw [Table.deleteWhere, hrows]
    rfl
  have hburial := Table.burial_buryAll mark hv hlists
  have hmoves : Table.Moves (fun _ => True) s.store (rows.foldl (Table.bury mark) s.store) :=
    Table.moves_of_bury hlists fun _ _ => trivial
  rw [perform_delete hv ha, perform_announcing (perform_edits_of_ok hedit)]
  refine ⟨_, rfl, hburial, perform_delete_of_nil (hmoves.valid hv) ha ?_⟩
  exact chosen_of_burial hburial hv (hmoves.valid hv) (isDeleted_tombstone caller)

/-- A carrier deletes through the general scope. The row that nobody touched becomes a tombstone, the edited
row goes, and the policy row and the row of another operator stay. -/
theorem delete_chosen_carrier :
    let s : State Table := .initial {} (.ofProfiles [{ apn := "web", numeric := "26201" },
      { apn := "mms", numeric := "26201", status := .userEdited },
      { apn := "web", numeric := "26201", owner := .dpc }, { apn := "web", numeric := "31026" }])
    let caller : Caller := { uid := 1001, permissions := [.writeApnSettings, .carrierPrivileges] }
    let target : Target := .table .general none
    let q : Predicate := .equals .numeric (.text "26201")
    partitionFor {} caller target .delete s.enforced = .ok ⟨.others, none⟩ ∧
      ∃ s', (delete {} caller target q).perform s = (.ok 2, s') ∧
        s'.store.rows.map (fun r => (r.1.val, r.2.apn, r.2.status)) =
          [(1, "web", .carrierDeleted), (3, "web", .unedited), (4, "web", .unedited)] ∧
        Table.Burial .carrierDeleted (chosen {} .others target q s.store) s.store s'.store ∧
        (delete {} caller target q).perform s' = (.ok 0, s') := by
  intro s caller target q
  have ha : partitionFor {} caller target .delete s.enforced = .ok ⟨.others, none⟩ := rfl
  obtain ⟨s', h, hburial, hagain⟩ := delete_chosen {} caller target q ⟨.others, none⟩ s (.ofProfiles _) ha
  have hrows : ((delete {} caller target q).perform s).2.store.rows.map
      (fun r => (r.1.val, r.2.apn, r.2.status)) =
        [(1, "web", .carrierDeleted), (3, "web", .unedited), (4, "web", .unedited)] := by
    decide +kernel
  rw [h] at hrows
  have hcount : (chosen {} .others target q s.store).length = 2 := by
    decide +kernel
  exact ⟨ha, s', by rw [h, hcount], hrows, hburial, hagain⟩

end Registry

end ApnRegistry
