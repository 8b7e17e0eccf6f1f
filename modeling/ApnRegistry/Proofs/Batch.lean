import ApnRegistry.Proofs.Table

/-!
# What a batch leads to

Most batches delete some rows, overwrite others and enter new ones, in this order. `edit` is the
table that such a batch leads to, `apply_edit` says when it gets there, and `get?_edit` reads it.

Results:
* `apply_edit`: the batch succeeds when the rows it names are there, each deleted once and none of
  them overwritten, and its new profiles carry no ids; the new rows get the next ids in order.
* `get?_edit`, `Valid.edit`: the rows afterwards.
* `rows_removeAll`, `rows_pushAll`: which rows are left, and how new rows are numbered, in order.
-/

namespace ApnRegistry

/-- The profiles under ascending ids from `n` on. -/
def Rows.numbered : Nat → List Profile → Rows
  | _, [] => []
  | n, p :: ps => (⟨n⟩, { p with id := some ⟨n⟩ }) :: numbered (n + 1) ps

namespace Rows

theorem le_of_mem_numbered {e : RowId × Profile} :
    ∀ {n : Nat} {ps : List Profile}, e ∈ numbered n ps → n ≤ e.1.val
  | _, [], h => absurd h List.not_mem_nil
  | n, p :: ps, h => by
    rcases List.mem_cons.mp h with rfl | h
    · exact Nat.le_refl n
    · exact Nat.le_of_succ_le (le_of_mem_numbered h)

/-- Each profile has got an id of its own. -/
theorem exists_of_mem_numbered {e : RowId × Profile} :
    ∀ {n : Nat} {ps : List Profile}, e ∈ numbered n ps →
      ∃ p ∈ ps, e.2 = { p with id := some e.1 }
  | _, [], h => absurd h List.not_mem_nil
  | _, p :: _, h => by
    rcases List.mem_cons.mp h with rfl | h
    · exact ⟨p, List.mem_cons_self, rfl⟩
    · obtain ⟨q, hq, he⟩ := exists_of_mem_numbered h
      exact ⟨q, List.mem_cons_of_mem p hq, he⟩

theorem exists_mem_numbered {p : Profile} : ∀ {n : Nat} {ps : List Profile}, p ∈ ps →
    ∃ id, { p with id := some id } ∈ (numbered n ps).profiles
  | n, q :: ps, h => by
    rcases List.mem_cons.mp h with rfl | h
    · exact ⟨⟨n⟩, List.mem_cons_self⟩
    · obtain ⟨id, hm⟩ := exists_mem_numbered (n := n + 1) h
      exact ⟨id, List.mem_cons_of_mem _ hm⟩

theorem length_numbered : ∀ (n : Nat) (ps : List Profile), (numbered n ps).length = ps.length
  | _, [] => rfl
  | n, _ :: ps => congrArg Nat.succ (length_numbered (n + 1) ps)

theorem map_key_numbered : ∀ (n : Nat) (ps : List Profile),
    (numbered n ps).profiles.map Profile.key = ps.map Profile.key
  | _, [] => rfl
  | n, p :: ps => congrArg (List.cons p.key) (map_key_numbered (n + 1) ps)

theorem sorted_numbered : ∀ (n : Nat) (ps : List Profile), Sorted (numbered n ps)
  | _, [] => List.Pairwise.nil
  | n, _ :: ps => sorted_cons.mpr ⟨fun _ he => le_of_mem_numbered he, sorted_numbered (n + 1) ps⟩

theorem get?_numbered (id : RowId) : ∀ (n : Nat) (ps : List Profile), get? (numbered n ps) id =
    if id.val < n then none else (ps[id.val - n]?).map fun p => { p with id := some id }
  | n, [] => by
    rw [List.getElem?_nil]
    exact (ite_self none).symm
  | n, p :: ps => by
    rw [numbered, get?, get?_numbered id (n + 1) ps]
    by_cases hid : (⟨n⟩ : RowId) = id
    · subst hid
      simp
    · have hne : n ≠ id.val := fun h => hid (congrArg RowId.mk h)
      rw [if_neg hid]
      rcases Nat.lt_or_gt_of_ne hne with hlt | hgt
      · obtain ⟨k, hk⟩ : ∃ k, id.val - n = k + 1 := ⟨id.val - n - 1, by omega⟩
        have hk' : id.val - (n + 1) = k := by omega
        rw [if_neg (by omega), if_neg (by omega), hk, hk', List.getElem?_cons_succ]
      · rw [if_pos (by omega), if_pos hgt]

end Rows

namespace Table

variable {t t' : Table} {id : RowId} {p : Profile}

/-- The table without the rows under the ids. -/
def removeAll (t : Table) (gone : List RowId) : Table := gone.foldl remove t

/-- The table with each profile under its id. -/
def setAll (t : Table) (changed : Rows) : Table := changed.foldl (fun t e => t.set e.1 e.2) t

/-- The table with the profiles as new rows. -/
def pushAll (t : Table) (fresh : List Profile) : Table := fresh.foldl (fun t p => (t.push p).2) t

/-- The ids of the next `n` new rows. -/
def nextIds (t : Table) (n : Nat) : List RowId := (List.range n).map fun i => ⟨t.nextId + i⟩

/-- The table after deleting, overwriting and entering rows. -/
def edit (t : Table) (gone : List RowId) (changed : Rows) (fresh : List Profile) : Table :=
  ((t.removeAll gone).setAll changed).pushAll fresh

/-! ## Reading -/

theorem get?_removeAll (gone : List RowId) (t : Table) (id : RowId) :
    (t.removeAll gone).get? id = if id ∈ gone then none else t.get? id := by
  induction gone generalizing t with
  | nil => rfl
  | cons g gone ih =>
    show ((t.remove g).removeAll gone).get? id = _
    rw [ih, get?_remove]
    by_cases hg : id = g
    · simp [hg]
    · simp [hg]

theorem get?_setAll {changed : Rows} (hs : changed.Sorted) (t : Table) (id : RowId) :
    (t.setAll changed).get? id = (changed.get? id).or (t.get? id) := by
  induction changed generalizing t with
  | nil => rfl
  | cons e changed ih =>
    obtain ⟨hlt, hs⟩ := Rows.sorted_cons.mp hs
    show ((t.set e.1 e.2).setAll changed).get? id = _
    rw [ih hs, get?_set, Rows.get?]
    by_cases he : id = e.1
    · subst he
      have : Rows.get? changed e.1 = none :=
        Rows.get?_eq_none_of_forall_ne fun e' he' heq => Nat.lt_irrefl _ (heq ▸ hlt e' he')
      rw [this, if_pos rfl, if_pos rfl]
      rfl
    · rw [if_neg he, if_neg (Ne.symm he)]

theorem nextId_removeAll (gone : List RowId) (t : Table) : (t.removeAll gone).nextId = t.nextId := by
  induction gone generalizing t with
  | nil => rfl
  | cons g gone ih => exact ih (t.remove g)

theorem nextId_setAll (changed : Rows) (t : Table) : (t.setAll changed).nextId = t.nextId := by
  induction changed generalizing t with
  | nil => rfl
  | cons e changed ih => exact ih (t.set e.1 e.2)

theorem nextId_pushAll (fresh : List Profile) (t : Table) :
    (t.pushAll fresh).nextId = t.nextId + fresh.length := by
  induction fresh generalizing t with
  | nil => rfl
  | cons p fresh ih =>
    show ((t.push p).2.pushAll fresh).nextId = _
    rw [ih, nextId_push, List.length_cons]
    omega

theorem get?_pushAll (fresh : List Profile) {t : Table} (h : t.Valid) (id : RowId) :
    (t.pushAll fresh).get? id =
      if id.val < t.nextId then t.get? id
      else (fresh[id.val - t.nextId]?).map fun p => { p with id := some id } := by
  induction fresh generalizing t with
  | nil =>
    split
    · rfl
    · rename_i hid
      exact h.get?_eq_none (Nat.not_lt.mp hid)
  | cons p fresh ih =>
    show ((t.push p).2.pushAll fresh).get? id = _
    rw [ih (h.push p), get?_push, nextId_push]
    rcases Nat.lt_trichotomy id.val t.nextId with hlt | heq | hgt
    · have hne : id ≠ ⟨t.nextId⟩ := fun h => Nat.ne_of_lt hlt (congrArg RowId.val h)
      rw [if_pos (Nat.lt_succ_of_lt hlt), if_pos hlt, if_neg hne]
    · obtain rfl : id = ⟨t.nextId⟩ := congrArg RowId.mk heq
      simp
    · obtain ⟨k, hk⟩ : ∃ k, id.val - t.nextId = k + 1 := ⟨id.val - t.nextId - 1, by omega⟩
      have hk' : id.val - (t.nextId + 1) = k := by omega
      rw [if_neg (by omega), if_neg (by omega), hk, hk', List.getElem?_cons_succ]

theorem Valid.removeAll (h : t.Valid) (gone : List RowId) : (t.removeAll gone).Valid := by
  induction gone generalizing t with
  | nil => exact h
  | cons g gone ih => exact ih (h.remove g)

theorem Valid.setAll {changed : Rows} (h : t.Valid)
    (hc : ∀ e ∈ changed, e.2.id = some e.1 ∧ (t.get? e.1).isSome) : (t.setAll changed).Valid := by
  induction changed generalizing t with
  | nil => exact h
  | cons e changed ih =>
    obtain ⟨hid, hsome⟩ := hc e List.mem_cons_self
    obtain ⟨q, hq⟩ := Option.isSome_iff_exists.mp hsome
    refine ih (h.set hq hid) fun e' he' => ?_
    obtain ⟨hid', hsome'⟩ := hc e' (List.mem_cons_of_mem e he')
    refine ⟨hid', ?_⟩
    rw [get?_set]
    split
    · rfl
    · exact hsome'

theorem Valid.pushAll (h : t.Valid) (fresh : List Profile) : (t.pushAll fresh).Valid := by
  induction fresh generalizing t with
  | nil => exact h
  | cons p fresh ih => exact ih (h.push p)

/-! ## The rows, in order -/

theorem rows_removeAll (gone : List RowId) (t : Table) :
    (t.removeAll gone).rows = t.rows.filter fun e => decide (e.1 ∉ gone) := by
  induction gone generalizing t with
  | nil => exact (List.filter_eq_self.mpr fun _ _ => by simp).symm
  | cons g gone ih =>
    show ((t.remove g).removeAll gone).rows = _
    rw [ih, remove, Rows.erase, List.filter_filter]
    refine List.filter_congr fun e _ => ?_
    by_cases he : e.1 = g
    · simp [he]
    · simp [he]

/-- New rows come after all others. -/
theorem rows_pushAll (fresh : List Profile) {t : Table} (h : t.Valid) :
    (t.pushAll fresh).rows = t.rows ++ Rows.numbered t.nextId fresh := by
  induction fresh generalizing t with
  | nil => exact (List.append_nil _).symm
  | cons p fresh ih =>
    have hpush : (t.push p).2.rows = t.rows ++ [(⟨t.nextId⟩, { p with id := some ⟨t.nextId⟩ })] :=
      Rows.put_eq_append fun e he => (h.bounded e he).2
    show ((t.push p).2.pushAll fresh).rows = _
    rw [ih (h.push p), hpush, List.append_assoc]
    rfl

section Edit

variable {gone : List RowId} {changed : Rows} {fresh : List Profile}

/-- The rows that a batch names are there, and none is named twice. -/
structure Editable (t : Table) (gone : List RowId) (changed : Rows) : Prop where
  sorted : changed.Sorted
  nodup : gone.Nodup
  gone_live : ∀ id ∈ gone, (t.get? id).isSome
  changed_live : ∀ e ∈ changed, e.2.id = some e.1 ∧ e.1 ∉ gone ∧ (t.get? e.1).isSome

theorem Editable.live_removeAll (he : Editable t gone changed) :
    ∀ e ∈ changed, e.2.id = some e.1 ∧ ((t.removeAll gone).get? e.1).isSome := by
  intro e hm
  obtain ⟨hid, hg, hl⟩ := he.changed_live e hm
  rw [get?_removeAll, if_neg hg]
  exact ⟨hid, hl⟩

theorem Valid.edit (h : t.Valid) (he : Editable t gone changed) (fresh : List Profile) :
    (t.edit gone changed fresh).Valid :=
  ((h.removeAll gone).setAll he.live_removeAll).pushAll fresh

@[simp] theorem nextId_edit (t : Table) (gone : List RowId) (changed : Rows) (fresh : List Profile) :
    (t.edit gone changed fresh).nextId = t.nextId + fresh.length := by
  rw [Table.edit, nextId_pushAll, nextId_setAll, nextId_removeAll]

/-- **Reading after an edit**: old ids find what was written last, new ids the new profiles. -/
theorem get?_edit (h : t.Valid) (he : Editable t gone changed) (fresh : List Profile) (id : RowId) :
    (t.edit gone changed fresh).get? id =
      if id.val < t.nextId then (changed.get? id).or (if id ∈ gone then none else t.get? id)
      else (fresh[id.val - t.nextId]?).map fun p => { p with id := some id } := by
  have hv := (h.removeAll gone).setAll he.live_removeAll
  rw [Table.edit, get?_pushAll fresh hv, nextId_setAll, nextId_removeAll, get?_setAll he.sorted,
    get?_removeAll]

end Edit

/-! ## Carrying a batch out -/

theorem steps_append_of_ok {done done' : Batch.Outcome} {start : Batch} (batch : Batch)
    (h : t.steps done start = .ok (t', done')) :
    t.steps done (start ++ batch) = t'.steps done' batch := by
  induction start generalizing t done with
  | nil => cases h; rfl
  | cons change start ih =>
    obtain ⟨t₁, done₁, hstep, hsteps⟩ := steps_cons_eq_ok_iff.mp h
    rw [List.cons_append, steps_cons_of_ok _ hstep]
    exact ih hsteps

theorem steps_delete (gone : List RowId) {t : Table} (done : Batch.Outcome) (hn : gone.Nodup)
    (hg : ∀ id ∈ gone, (t.get? id).isSome) :
    t.steps done (gone.map .delete) =
      .ok (t.removeAll gone, { done with deleted := done.deleted + gone.length }) := by
  induction gone generalizing t done with
  | nil => rfl
  | cons g gone ih =>
    obtain ⟨hnot, hn⟩ := List.nodup_cons.mp hn
    rw [List.map_cons, steps_cons_of_ok _ (step_delete (hg g List.mem_cons_self)), ih _ hn]
    · rw [List.length_cons, Nat.add_assoc, Nat.add_comm 1]
      rfl
    · intro id hid
      have hne : id ≠ g := fun h => hnot (h ▸ hid)
      rw [get?_remove, if_neg hne]
      exact hg id (List.mem_cons_of_mem g hid)

theorem steps_replace (changed : Rows) {t : Table} (done : Batch.Outcome)
    (hc : ∀ e ∈ changed, e.2.id = some e.1 ∧ (t.get? e.1).isSome) :
    t.steps done (changed.map fun e => .replace e.2) =
      .ok (t.setAll changed, { done with replaced := done.replaced + changed.length }) := by
  induction changed generalizing t done with
  | nil => rfl
  | cons e changed ih =>
    obtain ⟨hid, hl⟩ := hc e List.mem_cons_self
    rw [List.map_cons, steps_cons_of_ok _ (step_replace hid hl), ih]
    · rw [List.length_cons, Nat.add_assoc, Nat.add_comm 1]
      rfl
    · intro e' he'
      obtain ⟨hid', hl'⟩ := hc e' (List.mem_cons_of_mem e he')
      refine ⟨hid', ?_⟩
      rw [get?_set]
      split
      · rfl
      · exact hl'

theorem nextIds_succ (t : Table) (p : Profile) (n : Nat) :
    t.nextIds (n + 1) = ⟨t.nextId⟩ :: (t.push p).2.nextIds n := by
  simp only [nextIds, List.range_succ_eq_map, List.map_cons, List.map_map, nextId_push, Nat.add_zero]
  congr 1
  refine List.map_congr_left fun i _ => congrArg RowId.mk ?_
  show t.nextId + (i + 1) = t.nextId + 1 + i
  omega

theorem steps_insert (fresh : List Profile) (t : Table) (done : Batch.Outcome)
    (hf : ∀ p ∈ fresh, p.id = none) :
    t.steps done (fresh.map .insert) =
      .ok (t.pushAll fresh,
        { done with inserted := done.inserted ++ t.nextIds fresh.length }) := by
  induction fresh generalizing t done with
  | nil => simp [steps, pushAll, nextIds]
  | cons p fresh ih =>
    rw [List.map_cons, steps_cons_of_ok _ (step_insert (hf p List.mem_cons_self)),
      ih _ _ fun q hq => hf q (List.mem_cons_of_mem p hq), List.length_cons, nextIds_succ t p]
    simp [pushAll]

/-- **A batch of deletions, overwritings and new rows leads to the edited table.** -/
theorem apply_edit {gone : List RowId} {changed : Rows} {fresh : List Profile}
    (he : Editable t gone changed) (hf : ∀ p ∈ fresh, p.id = none) :
    t.apply (gone.map .delete ++ changed.map (fun e => .replace e.2) ++ fresh.map .insert) =
      .ok (t.edit gone changed fresh, {
        inserted := t.nextIds fresh.length
        replaced := changed.length
        deleted := gone.length }) := by
  have hdel := steps_delete gone {} he.nodup he.gone_live
  have hrep := steps_replace changed { deleted := 0 + gone.length } he.live_removeAll
  have hins := steps_insert fresh ((t.removeAll gone).setAll changed)
    { replaced := 0 + changed.length, deleted := 0 + gone.length } hf
  have hnext : ((t.removeAll gone).setAll changed).nextIds fresh.length = t.nextIds fresh.length := by
    rw [nextIds, nextIds, nextId_setAll, nextId_removeAll]
  rw [apply, List.append_assoc, steps_append_of_ok _ hdel, steps_append_of_ok _ hrep, hins, hnext]
  simp [edit]

end Table

end ApnRegistry
