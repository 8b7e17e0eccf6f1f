import ApnRegistry.Proofs.Ascending
import ApnRegistry.Proofs.Batch
import ApnRegistry.Proofs.Keys

/-!
# Working copies

A call that changes many rows works on a copy of those rows of a table that meet a condition, and
sends one batch at the end. An `Overlay` is such a copy in the making: the rows as they are by now,
the ids of the rows that were written or taken out, and the new rows, which have no ids yet. It
stands for the `table` that its batch leads to.

Results, for an overlay that is `Sound`:
* `apply_batch`: the batch succeeds, and leads to the table.
* `rows_filter`: the rows of the table that meet the condition are those of the copy and the new
  ones.
* `put`, `erase`, `push`, `amend`: each operation on the copy keeps it sound, and does to the table
  what the operation of the same name does to a table.
-/

namespace ApnRegistry

/-- A copy of some rows of a table, with what was done to it. -/
structure Overlay where
  /-- The copied rows, as they are by now. -/
  working : Rows
  /-- The rows that were written. -/
  touched : List RowId := []
  /-- The rows that were taken out. -/
  gone : List RowId := []
  /-- The new rows. -/
  fresh : List Profile := []

namespace Overlay

variable {o : Overlay} {t : Table} {f : Profile → Bool} {id : RowId} {p q : Profile}

/-- The rows that were written and are still there. -/
def changed (o : Overlay) : Rows := o.working.filter (o.touched.contains ·.1)

/-- The changes that carry the copy over: first the rows that go, then those that changed, then the
new ones. -/
def batch (o : Overlay) : Batch :=
  (Ascending.ofList o.gone).map .delete ++ o.changed.map (fun e => .replace e.2) ++
    o.fresh.map .insert

/-- The table that the batch leads to. -/
def table (t : Table) (o : Overlay) : Table := t.edit (Ascending.ofList o.gone) o.changed o.fresh

/-- The row gets another content. -/
def put (o : Overlay) (id : RowId) (p : Profile) : Overlay :=
  { o with working := o.working.put id p, touched := o.touched ++ [id] }

/-- The row is taken out. -/
def erase (o : Overlay) (id : RowId) : Overlay :=
  { o with working := o.working.erase id, gone := o.gone ++ [id] }

/-- There is one more new row. -/
def push (o : Overlay) (p : Profile) : Overlay := { o with fresh := o.fresh ++ [p] }

/-- The new row at a place gets another content. -/
def amend (o : Overlay) (i : Nat) (p : Profile) : Overlay := { o with fresh := o.fresh.set i p }

/-- The overlay is a copy of those rows of the table that meet the condition, with changes that can
be carried over. Whether a row meets the condition depends on its key. -/
structure Sound (t : Table) (f : Profile → Bool) (o : Overlay) : Prop where
  valid : t.Valid
  respects : ∀ p q : Profile, p.key = q.key → f p = f q
  sorted : o.working.Sorted
  named : ∀ id p, o.working.get? id = some p → p.id = some id ∧ f p = true
  live : ∀ id, (o.working.get? id).isSome → (t.get? id).isSome
  untouched : ∀ id, id ∉ o.touched → id ∉ o.gone → o.working.get? id = (t.get? id).filter f
  written : ∀ id ∈ o.touched, id ∉ o.gone → (o.working.get? id).isSome
  gone : ∀ id ∈ o.gone, o.working.get? id = none ∧ (t.get? id).isSome
  fresh : ∀ p ∈ o.fresh, p.id = none ∧ f p = true

/-- A copy to which nothing was done stands for the table itself. -/
theorem table_copy (t : Table) (working : Rows) : table t { working := working } = t := by
  have hc : changed { working := working } = [] := List.filter_eq_nil_iff.mpr fun _ _ => nofun
  rw [table, hc]
  rfl

theorem Sound.copy (h : t.Valid) (hf : ∀ p q : Profile, p.key = q.key → f p = f q) :
    Sound t f { working := Rows.ofProfiles (t.rows.profiles.filter f) } := by
  have hw : Rows.ofProfiles (t.rows.profiles.filter f) = t.rows.filter (f ·.2) := by
    rw [← Rows.profiles_filter]
    exact (h.sorted.filter _).ofProfiles_profiles fun e he => h.named e (List.mem_filter.mp he).1
  have hg (id : RowId) : Rows.get? (t.rows.filter (f ·.2)) id = (t.get? id).filter f :=
    h.sorted.get?_filter f id
  rw [hw]
  exact {
    valid := h
    respects := hf
    sorted := h.sorted.filter _
    named := fun id p hp => by
      rw [hg, Option.filter_eq_some_iff] at hp
      exact ⟨h.id_of_get? hp.1, hp.2⟩
    live := fun id hs => by
      obtain ⟨p, hp⟩ := Option.isSome_iff_exists.mp hs
      rw [hg, Option.filter_eq_some_iff] at hp
      rw [hp.1]
      rfl
    untouched := fun id _ _ => hg id
    written := fun _ h => absurd h List.not_mem_nil
    gone := fun _ h => absurd h List.not_mem_nil
    fresh := fun _ h => absurd h List.not_mem_nil }

namespace Sound

variable (h : Sound t f o)

include h

theorem editable : t.Editable (Ascending.ofList o.gone) o.changed where
  sorted := h.sorted.filter _
  nodup := Ascending.nodup_ofList o.gone
  gone_live := fun id hid => (h.gone id (Ascending.mem_ofList.mp hid)).2
  changed_live := fun e he => by
    have hg := h.sorted.mem_iff_get?.mp (List.mem_filter.mp he).1
    refine ⟨(h.named _ _ hg).1, fun hm => ?_, h.live _ (by rw [hg]; rfl)⟩
    rw [(h.gone _ (Ascending.mem_ofList.mp hm)).1] at hg
    cases hg

theorem valid_table : (o.table t).Valid := h.valid.edit h.editable o.fresh

omit h in
@[simp] theorem nextId_table : (o.table t).nextId = t.nextId + o.fresh.length := Table.nextId_edit ..

/-- **The batch of a sound overlay succeeds**, and leads to the table that the overlay stands for. -/
theorem apply_batch : t.apply o.batch = .ok (o.table t, {
    inserted := t.nextIds o.fresh.length
    replaced := o.changed.length
    deleted := (Ascending.ofList o.gone).length }) :=
  Table.apply_edit h.editable fun p hp => (h.fresh p hp).1

/-- An old row of the table: it is gone, or was written, or is as it was. -/
theorem get?_table (id : RowId) : (o.table t).get? id =
    if id.val < t.nextId then
      if id ∈ o.gone then none else if id ∈ o.touched then o.working.get? id else t.get? id
    else (o.fresh[id.val - t.nextId]?).map fun p => { p with id := some id } := by
  rw [Overlay.table, Table.get?_edit h.valid h.editable, changed, Rows.get?_filter_id]
  split
  · by_cases hg : id ∈ o.gone
    · simp [hg, (h.gone id hg).1]
    · by_cases ht : id ∈ o.touched
      · obtain ⟨p, hp⟩ := Option.isSome_iff_exists.mp (h.written id ht hg)
        simp [hg, ht, hp]
      · simp [hg, ht]
  · rfl

/-- What the table holds of the rows that meet the condition, it holds of the copy. -/
theorem get?_table_of_lt (hid : id.val < t.nextId) :
    ((o.table t).get? id).filter f = o.working.get? id := by
  rw [h.get?_table, if_pos hid]
  split
  · rename_i hg
    rw [(h.gone id hg).1]
    rfl
  · rename_i hg
    split
    · cases hw : o.working.get? id with
      | none => rfl
      | some p => rw [Option.filter, if_pos (h.named id p hw).2]
    · rename_i ht
      exact (h.untouched id ht hg).symm

/-- A row that met the condition is in the table what it is in the copy. -/
theorem get?_table_of_inside (hid : id.val < t.nextId) (hf : ∀ p, t.get? id = some p → f p = true) :
    (o.table t).get? id = o.working.get? id := by
  rw [h.get?_table, if_pos hid]
  split
  · rename_i hg
    exact (h.gone id hg).1.symm
  · rename_i hg
    split
    · rfl
    · rename_i ht
      rw [h.untouched id ht hg]
      cases hp : t.get? id with
      | none => rfl
      | some p => rw [Option.filter, if_pos (hf p hp)]

/-- **The rows of the table that meet the condition** are those of the copy, and then the new ones. -/
theorem rows_filter : (o.table t).rows.filter (f ·.2) = o.working ++ Rows.numbered t.nextId o.fresh := by
  have hsorted : Rows.Sorted (o.working ++ Rows.numbered t.nextId o.fresh) := by
    refine List.pairwise_append.mpr ⟨h.sorted, Rows.sorted_numbered _ _, fun e he e' he' => ?_⟩
    have hlive := h.live e.1 (by rw [h.sorted.mem_iff_get?.mp he]; rfl)
    obtain ⟨q, hq⟩ := Option.isSome_iff_exists.mp hlive
    exact Nat.lt_of_lt_of_le (h.valid.lt_nextId hq) (Rows.le_of_mem_numbered he')
  refine (h.valid_table.sorted.filter _).ext hsorted fun id => ?_
  rw [h.valid_table.sorted.get?_filter, Rows.get?_append, Rows.get?_numbered]
  show ((o.table t).get? id).filter f = _
  by_cases hid : id.val < t.nextId
  · rw [h.get?_table_of_lt hid, if_pos hid, Option.or_none]
  · have hw : o.working.get? id = none := by
      cases hw : o.working.get? id with
      | none => rfl
      | some p =>
        have hl := h.live id (by rw [hw]; rfl)
        rw [h.valid.get?_eq_none (Nat.not_lt.mp hid)] at hl
        cases hl
    rw [h.get?_table, if_neg hid, hw, if_neg hid, Option.none_or]
    cases hq : o.fresh[id.val - t.nextId]? with
    | none => rfl
    | some q =>
      have hf : f { q with id := some id } = true :=
        (h.respects { q with id := some id } q rfl).trans (h.fresh q (List.mem_of_getElem? hq)).2
      show Option.filter f (some _) = _
      rw [Option.filter, if_pos hf]
      rfl

/-- What a profile hits in the table, it hits among the copied rows or among the new ones. -/
theorem hits_table (hp : ∀ q : Profile, q.key = p.key → f q = true) :
    Collision.hits p (o.table t).rows.profiles = Collision.hits p o.working.profiles ++
      Collision.hits p (Rows.numbered t.nextId o.fresh).profiles := by
  have hrows : (o.table t).rows.profiles.filter f =
      o.working.profiles ++ (Rows.numbered t.nextId o.fresh).profiles := by
    rw [← Rows.profiles_filter, h.rows_filter, Rows.profiles_append]
  rw [← Collision.hits_append, ← hrows]
  exact (Collision.hits_filter fun q _ hk => hp q hk).symm

/-- A copied row that is hit stands under its own id. -/
theorem exists_of_hits (hq : q ∈ Collision.hits p o.working.profiles) :
    ∃ id, q.id = some id ∧ o.working.get? id = some q ∧ q.key = p.key ∧ p.id ≠ some id := by
  obtain ⟨hm, hid, hk⟩ := Collision.mem_hits.mp hq
  obtain ⟨id, hg⟩ := h.sorted.mem_profiles_iff.mp hm
  have hqid := (h.named id q hg).1
  refine ⟨id, hqid, hg, hk, ?_⟩
  rcases hid with hn | hne
  · rw [hn]
    nofun
  · exact fun heq => hne (hqid.trans heq.symm)

/-! ## The operations -/

theorem lt_nextId (hw : o.working.get? id = some q) : id.val < t.nextId := by
  obtain ⟨r, hr⟩ := Option.isSome_iff_exists.mp (h.live id (by rw [hw]; rfl))
  exact h.valid.lt_nextId hr

theorem not_mem_gone (hw : o.working.get? id = some q) : id ∉ o.gone := by
  intro hm
  rw [(h.gone id hm).1] at hw
  cases hw

/-- A row of the copy is not gone, and stands in the table as it is. -/
theorem get?_of_working (hw : o.working.get? id = some q) : (o.table t).get? id = some q := by
  have hf := h.get?_table_of_lt (h.lt_nextId hw)
  rw [hw, Option.filter_eq_some_iff] at hf
  exact hf.1

theorem sound_put (hw : o.working.get? id = some q) (hid : p.id = some id) (hp : f p = true) :
    Sound t f (o.put id p) where
  valid := h.valid
  respects := h.respects
  sorted := h.sorted.put id p
  named := fun other r hr => by
    rw [Overlay.put, Rows.get?_put] at hr
    split at hr
    · rename_i heq
      cases hr
      exact ⟨heq ▸ hid, hp⟩
    · exact h.named other r hr
  live := fun other hl => by
    rw [Overlay.put, Rows.get?_put] at hl
    split at hl
    · rename_i heq
      exact heq ▸ h.live id (by rw [hw]; rfl)
    · exact h.live other hl
  untouched := fun other ht hg => by
    obtain ⟨ht, hne⟩ := not_or.mp (mt List.mem_append.mpr ht)
    rw [Overlay.put, Rows.get?_put, if_neg fun heq => hne (List.mem_singleton.mpr heq)]
    exact h.untouched other ht hg
  written := fun other ht hg => by
    rw [Overlay.put, Rows.get?_put]
    split
    · rfl
    · rename_i hne
      rcases List.mem_append.mp ht with ht | ht
      · exact h.written other ht hg
      · exact absurd (List.mem_singleton.mp ht) hne
  gone := fun other hg => by
    have hne : other ≠ id := fun heq => h.not_mem_gone hw (heq ▸ hg)
    rw [Overlay.put, Rows.get?_put, if_neg hne]
    exact h.gone other hg
  fresh := h.fresh

/-- A row of the copy is overwritten. -/
theorem put (hw : o.working.get? id = some q) (hid : p.id = some id) (hp : f p = true) :
    Sound t f (o.put id p) ∧ (o.put id p).table t = (o.table t).set id p := by
  have hs := h.sound_put hw hid hp
  refine ⟨hs, hs.valid_table.ext (h.valid_table.set (h.get?_of_working hw) hid) (fun other => ?_) ?_⟩
  · rw [Table.get?_set, hs.get?_table, h.get?_table]
    show (if _ then if other ∈ o.gone then _ else if other ∈ o.touched ++ [id] then
      Rows.get? (Rows.put o.working id p) other else _ else _) = _
    rw [Rows.get?_put]
    by_cases heq : other = id
    · subst heq
      simp [h.lt_nextId hw, h.not_mem_gone hw]
    · simp [heq, Overlay.put]
  · rw [Table.nextId_set, nextId_table, nextId_table]
    rfl

theorem sound_erase (hw : o.working.get? id = some q) : Sound t f (o.erase id) where
  valid := h.valid
  respects := h.respects
  sorted := h.sorted.erase id
  named := fun other r hr => by
    rw [Overlay.erase, Rows.get?_erase] at hr
    split at hr
    · cases hr
    · exact h.named other r hr
  live := fun other hl => by
    rw [Overlay.erase, Rows.get?_erase] at hl
    split at hl
    · cases hl
    · exact h.live other hl
  untouched := fun other ht hg => by
    obtain ⟨hg, hne⟩ := not_or.mp (mt List.mem_append.mpr hg)
    rw [Overlay.erase, Rows.get?_erase, if_neg fun heq => hne (List.mem_singleton.mpr heq)]
    exact h.untouched other ht hg
  written := fun other ht hg => by
    obtain ⟨hg, hne⟩ := not_or.mp (mt List.mem_append.mpr hg)
    rw [Overlay.erase, Rows.get?_erase, if_neg fun heq => hne (List.mem_singleton.mpr heq)]
    exact h.written other ht hg
  gone := fun other hg => by
    rw [Overlay.erase, Rows.get?_erase]
    rcases List.mem_append.mp hg with hg | hg
    · exact ⟨by rw [(h.gone other hg).1, ite_self], (h.gone other hg).2⟩
    · obtain rfl := List.mem_singleton.mp hg
      exact ⟨if_pos rfl, h.live other (by rw [hw]; rfl)⟩
  fresh := h.fresh

/-- A row of the copy goes. -/
theorem erase (hw : o.working.get? id = some q) :
    Sound t f (o.erase id) ∧ (o.erase id).table t = (o.table t).remove id := by
  have hs := h.sound_erase hw
  refine ⟨hs, hs.valid_table.ext (h.valid_table.remove id) (fun other => ?_) ?_⟩
  · rw [Table.get?_remove, hs.get?_table, h.get?_table]
    show (if _ then if other ∈ o.gone ++ [id] then _ else if other ∈ o.touched then
      Rows.get? (Rows.erase o.working id) other else _ else _) = _
    rw [Rows.get?_erase]
    by_cases heq : other = id
    · subst heq
      simp [h.lt_nextId hw]
    · simp [heq, Overlay.erase]
  · rw [Table.nextId_remove, nextId_table, nextId_table]
    rfl

/-- A new row comes. -/
theorem push (hid : p.id = none) (hp : f p = true) :
    Sound t f (o.push p) ∧ (o.push p).table t = ((o.table t).push p).2 := by
  refine ⟨{ h with fresh := fun q hq => ?_ }, ?_⟩
  · rcases List.mem_append.mp hq with hq | hq
    · exact h.fresh q hq
    · obtain rfl := List.mem_singleton.mp hq
      exact ⟨hid, hp⟩
  · show Table.pushAll _ (o.fresh ++ [p]) = _
    rw [Table.pushAll, List.foldl_append]
    rfl

/-- A new row gets another content. -/
theorem amend {i : Nat} (hi : i < o.fresh.length) (hid : p.id = none) (hp : f p = true) :
    Sound t f (o.amend i p) ∧ (o.amend i p).table t =
      (o.table t).set ⟨t.nextId + i⟩ { p with id := some ⟨t.nextId + i⟩ } := by
  have hs : Sound t f (o.amend i p) := { h with
    fresh := fun q hq => by
      rcases List.mem_or_eq_of_mem_set hq with hq | rfl
      · exact h.fresh q hq
      · exact ⟨hid, hp⟩ }
  have hold : (o.table t).get? ⟨t.nextId + i⟩ =
      some { o.fresh[i] with id := some ⟨t.nextId + i⟩ } := by
    rw [h.get?_table, if_neg (Nat.not_lt.mpr (Nat.le_add_right _ _)), Nat.add_sub_cancel_left,
      List.getElem?_eq_getElem hi]
    rfl
  refine ⟨hs, hs.valid_table.ext (h.valid_table.set hold rfl) (fun other => ?_) ?_⟩
  · rw [Table.get?_set, hs.get?_table, h.get?_table]
    show (if _ then _ else ((o.fresh.set i p)[other.val - t.nextId]?).map _) = _
    by_cases heq : other = ⟨t.nextId + i⟩
    · subst heq
      rw [if_pos rfl, if_neg (Nat.not_lt.mpr (Nat.le_add_right _ _)), Nat.add_sub_cancel_left,
        List.getElem?_set_self hi]
      rfl
    · rw [if_neg heq]
      by_cases hlt : other.val < t.nextId
      · rw [if_pos hlt, if_pos hlt]
        rfl
      · have hne : i ≠ other.val - t.nextId := fun hi' =>
          heq (congrArg RowId.mk (by omega : other.val = t.nextId + i))
        rw [if_neg hlt, if_neg hlt, List.getElem?_set_ne hne]
  · rw [Table.nextId_set, nextId_table, nextId_table, Overlay.amend, List.length_set]

end Sound

end Overlay

end ApnRegistry
