import ApnRegistry.RowStore
import ApnRegistry.Proofs.Rows

/-!
# What every table keeps

A table is *valid* when its rows stand in ascending order under the ids they carry, and all ids
lie from 1 up to below the next one.

Results:
* `Valid.empty`, `Valid.apply` and one lemma for each operation: an empty table is valid and every
  operation keeps it so, a whole batch included. There are no other tables.
* `Valid.ext`: a valid table is fixed by what is read from it and by its next id.
* `get?_set`, `get?_remove`, `get?_push`: what is read after an operation.
* `step_cases`: what one change of a batch does.
-/

namespace ApnRegistry

namespace Table

variable {t t' : Table} {id other : RowId} {p q : Profile}

/-- What every table keeps: order, rows that carry the id they stand under, and ids that were
handed out. -/
structure Valid (t : Table) : Prop where
  sorted : t.rows.Sorted
  named : ∀ e ∈ t.rows, e.2.id = some e.1
  bounded : ∀ e ∈ t.rows, 1 ≤ e.1.val ∧ e.1.val < t.nextId
  positive : 1 ≤ t.nextId

/-- The table with the profile under the id. -/
def set (t : Table) (id : RowId) (p : Profile) : Table := { t with rows := t.rows.put id p }

/-! ## Reading -/

theorem get?_set (t : Table) (id : RowId) (p : Profile) (other : RowId) :
    (t.set id p).get? other = if other = id then some p else t.get? other :=
  Rows.get?_put t.rows id p other

theorem get?_remove (t : Table) (id other : RowId) :
    (t.remove id).get? other = if other = id then none else t.get? other :=
  Rows.get?_erase t.rows id other

theorem get?_push (t : Table) (p : Profile) (other : RowId) :
    (t.push p).2.get? other =
      if other = ⟨t.nextId⟩ then some { p with id := some ⟨t.nextId⟩ } else t.get? other :=
  Rows.get?_put t.rows ⟨t.nextId⟩ _ other

@[simp] theorem nextId_set (t : Table) (id : RowId) (p : Profile) : (t.set id p).nextId = t.nextId :=
  rfl

@[simp] theorem nextId_remove (t : Table) (id : RowId) : (t.remove id).nextId = t.nextId := rfl

@[simp] theorem nextId_push (t : Table) (p : Profile) : (t.push p).2.nextId = t.nextId + 1 := rfl

@[simp] theorem fst_push (t : Table) (p : Profile) : (t.push p).1 = ⟨t.nextId⟩ := rfl

namespace Valid

theorem mem_iff (h : t.Valid) : (id, p) ∈ t.rows ↔ t.get? id = some p :=
  h.sorted.mem_iff_get?

theorem id_of_get? (h : t.Valid) (hg : t.get? id = some p) : p.id = some id :=
  h.named _ (Rows.mem_of_get? hg)

theorem lt_nextId (h : t.Valid) (hg : t.get? id = some p) : id.val < t.nextId :=
  (h.bounded _ (Rows.mem_of_get? hg)).2

theorem get?_eq_none (h : t.Valid) (hid : t.nextId ≤ id.val) : t.get? id = none := by
  cases hg : t.get? id with
  | none => rfl
  | some p => exact absurd (h.lt_nextId hg) (Nat.not_lt.mpr hid)

/-- A stored profile is found under the id that it carries. -/
theorem mem_profiles_iff (h : t.Valid) :
    p ∈ t.rows.profiles ↔ ∃ id, p.id = some id ∧ t.get? id = some p := by
  rw [h.sorted.mem_profiles_iff]
  exact exists_congr fun id => ⟨fun hg => ⟨h.id_of_get? hg, hg⟩, fun hg => hg.2⟩

theorem mem_profiles (h : t.Valid) (hg : t.get? id = some p) : p ∈ t.rows.profiles :=
  h.mem_profiles_iff.mpr ⟨id, h.id_of_get? hg, hg⟩

theorem isSome_id (h : t.Valid) : ∀ p ∈ t.rows.profiles, p.id.isSome = true := by
  intro p hp
  obtain ⟨id, hid, -⟩ := h.mem_profiles_iff.mp hp
  rw [hid]
  rfl

theorem mem_keys (h : t.Valid) {k : Profile.Key} :
    k ∈ t.rows.profiles.map Profile.key ↔ ∃ id p, t.get? id = some p ∧ p.key = k := by
  rw [List.mem_map]
  constructor
  · rintro ⟨p, hp, hk⟩
    obtain ⟨id, -, hg⟩ := h.mem_profiles_iff.mp hp
    exact ⟨id, p, hg, hk⟩
  · rintro ⟨id, p, hg, hk⟩
    exact ⟨p, h.mem_profiles hg, hk⟩

/-- **Valid tables are fixed by their readings** and by the next id. -/
theorem ext (h : t.Valid) (h' : t'.Valid) (hg : ∀ id, t.get? id = t'.get? id)
    (hn : t.nextId = t'.nextId) : t = t' := by
  obtain ⟨rows, nextId⟩ := t
  obtain ⟨rows', nextId'⟩ := t'
  obtain rfl : rows = rows' := h.sorted.ext h'.sorted hg
  obtain rfl : nextId = nextId' := hn
  rfl

/-! ## The operations keep a table valid -/

theorem empty : ({} : Table).Valid where
  sorted := List.Pairwise.nil
  named := fun _ h => absurd h List.not_mem_nil
  bounded := fun _ h => absurd h List.not_mem_nil
  positive := Nat.le_refl 1

theorem set (h : t.Valid) (hq : t.get? id = some q) (hp : p.id = some id) : (t.set id p).Valid where
  sorted := h.sorted.put id p
  named := fun e he => by
    rcases Rows.mem_put he with rfl | he
    · exact hp
    · exact h.named e he
  bounded := fun e he => by
    rcases Rows.mem_put he with rfl | he
    · exact h.bounded (id, q) (Rows.mem_of_get? hq)
    · exact h.bounded e he
  positive := h.positive

/-- Rows may always be left out. -/
theorem filter (h : t.Valid) (f : RowId × Profile → Bool) :
    ({ t with rows := t.rows.filter f } : Table).Valid where
  sorted := h.sorted.filter f
  named := fun e he => h.named e (List.mem_filter.mp he).1
  bounded := fun e he => h.bounded e (List.mem_filter.mp he).1
  positive := h.positive

theorem remove (h : t.Valid) (id : RowId) : (t.remove id).Valid := h.filter _

theorem push (h : t.Valid) (p : Profile) : (t.push p).2.Valid where
  sorted := h.sorted.put _ _
  named := fun e he => by
    rcases Rows.mem_put he with rfl | he
    · rfl
    · exact h.named e he
  bounded := fun e he => by
    rcases Rows.mem_put he with rfl | he
    · exact ⟨h.positive, Nat.lt_succ_self _⟩
    · exact ⟨(h.bounded e he).1, Nat.lt_succ_of_lt (h.bounded e he).2⟩
  positive := Nat.le_succ_of_le h.positive

end Valid

/-- Stores a profile: in the place of the row that it names, or else as a new row. -/
def settle (t : Table) (p : Profile) : RowId × Table :=
  match p.id with
  | some id => (id, t.set id p)
  | none => t.push p

theorem settle_of_none (h : p.id = none) : t.settle p = t.push p := by
  simp only [settle, h]

theorem settle_of_some (h : p.id = some id) : t.settle p = (id, t.set id p) := by
  simp only [settle, h]

theorem insert_of_none (h : p.id = none) : t.insert p = .ok (t.push p) := by
  simp only [insert, h]

theorem replace_of_some (hp : p.id = some id) (hq : (t.get? id).isSome) :
    t.replace p = .ok (t.set id p) := by
  simp only [replace, hp]
  rw [if_pos hq, set]

theorem delete_of_some (hq : (t.get? id).isSome) : t.delete id = .ok (t.remove id) := by
  rw [delete, if_pos hq]

theorem insert_eq_ok_iff : t.insert p = .ok (id, t') ↔
    p.id = none ∧ id = ⟨t.nextId⟩ ∧ t' = (t.push p).2 := by
  cases hp : p.id with
  | some other => simp [insert, hp]
  | none => simp [insert_of_none hp, Prod.ext_iff, eq_comm]

theorem replace_eq_ok_iff : t.replace p = .ok t' ↔
    ∃ id, p.id = some id ∧ (t.get? id).isSome ∧ t' = t.set id p := by
  cases hp : p.id with
  | none => simp [replace, hp]
  | some id =>
    by_cases hid : (t.get? id).isSome
    · rw [replace_of_some hp hid]
      constructor
      · intro h
        cases h
        exact ⟨id, rfl, hid, rfl⟩
      · rintro ⟨_, heq, -, rfl⟩
        rw [Option.some.inj heq]
    · simp [replace, hp, hid]

theorem delete_eq_ok_iff : t.delete id = .ok t' ↔ (t.get? id).isSome ∧ t' = t.remove id := by
  by_cases hid : (t.get? id).isSome
  · simp [delete_of_some hid, hid, eq_comm]
  · simp [delete, hid]

theorem Valid.insert (h : t.Valid) (hi : t.insert p = .ok (id, t')) : t'.Valid := by
  obtain ⟨-, -, rfl⟩ := insert_eq_ok_iff.mp hi
  exact h.push p

theorem Valid.replace (h : t.Valid) (hr : t.replace p = .ok t') : t'.Valid := by
  obtain ⟨id, hp, hid, rfl⟩ := replace_eq_ok_iff.mp hr
  obtain ⟨q, hq⟩ := Option.isSome_iff_exists.mp hid
  exact h.set hq hp

theorem Valid.deleteMatching (h : t.Valid) (q : Predicate) : (t.deleteMatching q).2.Valid :=
  h.filter _

theorem Valid.ofProfiles (ps : List Profile) : (ofProfiles ps).Valid := by
  suffices ∀ t : Table, t.Valid → (ps.foldl (fun t p => (t.push p).2) t).Valid from this {} .empty
  induction ps with
  | nil => exact fun t h => h
  | cons p ps ih => exact fun t h => ih _ (h.push p)

/-! ## Carrying changes out -/

section Steps

variable {done done' : Batch.Outcome} {change : Change} {batch : Batch}

theorem step_insert (h : p.id = none) : t.step done (.insert p) =
    .ok ((t.push p).2, { done with inserted := done.inserted ++ [⟨t.nextId⟩] }) := by
  rw [step, insert_of_none h]
  rfl

theorem step_replace (hp : p.id = some id) (hid : (t.get? id).isSome) :
    t.step done (.replace p) = .ok (t.set id p, { done with replaced := done.replaced + 1 }) := by
  rw [step, replace_of_some hp hid]
  rfl

theorem step_delete (hid : (t.get? id).isSome) :
    t.step done (.delete id) = .ok (t.remove id, { done with deleted := done.deleted + 1 }) := by
  rw [step, delete_of_some hid]
  rfl

/-- **What one change does**, if it is carried out. -/
theorem step_cases (h : t.step done change = .ok (t', done')) :
    (∃ p, change = .insert p ∧ p.id = none ∧ t' = (t.push p).2 ∧
      done' = { done with inserted := done.inserted ++ [⟨t.nextId⟩] }) ∨
    (∃ id p, change = .replace p ∧ p.id = some id ∧ (t.get? id).isSome ∧ t' = t.set id p ∧
      done' = { done with replaced := done.replaced + 1 }) ∨
    ∃ id, change = .delete id ∧ (t.get? id).isSome ∧ t' = t.remove id ∧
      done' = { done with deleted := done.deleted + 1 } := by
  cases change with
  | insert p =>
    cases hi : t.insert p with
    | error e =>
      rw [step, hi] at h
      cases h
    | ok r =>
      obtain ⟨hp, -, -⟩ := insert_eq_ok_iff.mp hi
      rw [step_insert hp] at h
      cases h
      exact Or.inl ⟨p, rfl, hp, rfl, rfl⟩
  | replace p =>
    cases hr : t.replace p with
    | error e =>
      rw [step, hr] at h
      cases h
    | ok r =>
      obtain ⟨id, hp, hid, -⟩ := replace_eq_ok_iff.mp hr
      rw [step_replace hp hid] at h
      cases h
      exact Or.inr (Or.inl ⟨id, p, rfl, hp, hid, rfl, rfl⟩)
  | delete id =>
    cases hd : t.delete id with
    | error e =>
      rw [step, hd] at h
      cases h
    | ok r =>
      obtain ⟨hid, -⟩ := delete_eq_ok_iff.mp hd
      rw [step_delete hid] at h
      cases h
      exact Or.inr (Or.inr ⟨id, rfl, hid, rfl, rfl⟩)

theorem steps_cons_of_ok (batch : Batch) (h : t.step done change = .ok (t', done')) :
    t.steps done (change :: batch) = t'.steps done' batch := by
  rw [steps, h]
  rfl

theorem steps_cons_eq_ok_iff : t.steps done (change :: batch) = .ok (t', done') ↔
    ∃ t₁ done₁, t.step done change = .ok (t₁, done₁) ∧ t₁.steps done₁ batch = .ok (t', done') := by
  rw [steps]
  constructor
  · intro h
    cases hc : t.step done change with
    | error e =>
      rw [hc] at h
      cases h
    | ok r =>
      rw [hc] at h
      exact ⟨r.1, r.2, rfl, h⟩
  · rintro ⟨t₁, done₁, hstep, hsteps⟩
    rw [hstep]
    exact hsteps

theorem Valid.step (h : t.Valid) (hs : t.step done change = .ok (t', done')) : t'.Valid := by
  obtain ⟨p, rfl, hp, rfl, -⟩ | ⟨id, p, rfl, hp, hid, rfl, -⟩ | ⟨id, rfl, -, rfl, -⟩ := step_cases hs
  · exact h.push p
  · exact h.replace (replace_of_some hp hid)
  · exact h.remove id

theorem Valid.steps : ∀ {batch : Batch} {t : Table} {done : Batch.Outcome}, t.Valid →
    t.steps done batch = .ok (t', done') → t'.Valid
  | [], _, _, h, hs => by
    cases hs
    exact h
  | _ :: _, _, _, h, hs => by
    obtain ⟨t₁, done₁, hstep, hsteps⟩ := steps_cons_eq_ok_iff.mp hs
    exact (h.step hstep).steps hsteps

/-- A batch leaves a table valid. -/
theorem Valid.apply (h : t.Valid) (ha : t.apply batch = .ok (t', done)) : t'.Valid :=
  h.steps ha

end Steps

/-! ## Rows of a table -/

/-- The profiles are different rows of the table. -/
structure Lists (t : Table) (ps : List Profile) : Prop where
  different : ps.Pairwise fun p q => p.id ≠ q.id
  live : ∀ p ∈ ps, ∃ id, p.id = some id ∧ t.get? id = some p

theorem Valid.lists (h : t.Valid) : t.Lists t.rows.profiles where
  different := by
    refine List.pairwise_map.mpr (List.Pairwise.imp_of_mem (fun {a b} ha hb hlt heq => ?_) h.sorted)
    rw [h.named a ha, h.named b hb, Option.some.injEq] at heq
    exact Nat.ne_of_lt hlt (congrArg RowId.val heq)
  live := fun _ hp => h.mem_profiles_iff.mp hp

theorem Lists.filter {ps : List Profile} (h : t.Lists ps) (f : Profile → Bool) : t.Lists (ps.filter f) where
  different := h.different.filter f
  live := fun p hp => h.live p (List.mem_filter.mp hp).1

theorem Lists.nodup_ids {ps : List Profile} (h : t.Lists ps) : (ps.filterMap (·.id)).Nodup := by
  rw [List.Nodup, List.pairwise_filterMap]
  exact h.different.imp fun {p q} hne a ha b hb heq => hne (ha.trans (heq ▸ hb.symm))

/-- The ids of listed rows are those under which they are stored. -/
theorem Lists.mem_ids {ps : List Profile} (h : t.Lists ps) (hv : t.Valid) (hp : t.get? id = some p) :
    id ∈ ps.filterMap (·.id) ↔ p ∈ ps := by
  rw [List.mem_filterMap]
  constructor
  · rintro ⟨q, hq, hid⟩
    obtain ⟨id', hid', hg⟩ := h.live q hq
    obtain rfl : id = id' := Option.some.inj (hid.symm.trans hid')
    rwa [Option.some.inj (hp.symm.trans hg)]
  · exact fun hm => ⟨p, hm, hv.id_of_get? hp⟩

theorem Lists.length_ids {ps : List Profile} (h : t.Lists ps) :
    (ps.filterMap (·.id)).length = ps.length := by
  rw [List.length_filterMap_eq_countP, List.countP_eq_length]
  intro p hp
  obtain ⟨id, hid, -⟩ := h.live p hp
  rw [hid]
  rfl

end Table

end ApnRegistry
