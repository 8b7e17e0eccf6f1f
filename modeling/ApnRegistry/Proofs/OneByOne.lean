import ApnRegistry.Proofs.AllOrNothing
import ApnRegistry.Proofs.TableCalls

/-!
# A batch and its changes one by one

A batch is carried out as a whole. The same changes can be made on a copy one by one, each by the call for
it: a new row is inserted, a row is replaced, a row that is there is removed (`OneByOne`). The batch
succeeds iff each of these calls does, and then leads to the same table. Whether they do can be told from
ids alone (`Batch.Runnable`): a new profile carries none, and any other change names a row that is live by
then, maybe one that the batch itself inserted.

Results:
* `apply_eq_ok_iff`: a batch that succeeds.
* `exists_oneByOne_iff`: when the changes can be made.
* `OneByOne.size_add`: how many rows there are afterwards.
* `apply_one_by_one`: batches on any table there is, those that fail included.
-/

namespace ApnRegistry

/-- The change overwrites a row. -/
def Change.isReplace : Change → Bool
  | .replace _ => true
  | _ => false

/-- The changes can be made one after the other, where the given rows are live and the next new row gets
the given number. -/
def Batch.Runnable (live : RowId → Prop) (next : Nat) : Batch → Prop
  | [] => True
  | .insert p :: batch => p.id = none ∧ Runnable (fun id => live id ∨ id = ⟨next⟩) (next + 1) batch
  | .replace p :: batch => (∃ id, p.id = some id ∧ live id) ∧ Runnable live next batch
  | .delete id :: batch => live id ∧ Runnable (fun other => live other ∧ other ≠ id) next batch

namespace Table

variable {t t' : Table} {id : RowId} {batch : Batch} {ids : List RowId} {done' : Batch.Outcome}

/-- **The changes one by one**: each call succeeds on the table that the one before it left, and the new
rows get the ids, in order. -/
inductive OneByOne : Table → Batch → List RowId → Table → Prop
  | done (t : Table) : OneByOne t [] [] t
  | insert {t t₁ t' : Table} {p : Profile} {id : RowId} {batch : Batch} {ids : List RowId}
      (stored : t.insert p = .ok (id, t₁)) (more : OneByOne t₁ batch ids t') :
      OneByOne t (.insert p :: batch) (id :: ids) t'
  | replace {t t₁ t' : Table} {p : Profile} {batch : Batch} {ids : List RowId}
      (stored : t.replace p = .ok t₁) (more : OneByOne t₁ batch ids t') :
      OneByOne t (.replace p :: batch) ids t'
  | delete {t t' : Table} {id : RowId} {batch : Batch} {ids : List RowId}
      (live : t.Live id) (more : OneByOne (t.remove id) batch ids t') :
      OneByOne t (.delete id :: batch) ids t'

/-! ## Success -/

/-- What the outcome counts after more changes. -/
def counting (done : Batch.Outcome) (batch : Batch) (ids : List RowId) : Batch.Outcome where
  inserted := done.inserted ++ ids
  replaced := done.replaced + batch.countP Change.isReplace
  deleted := done.deleted + batch.countP Change.isDelete

theorem steps_of_oneByOne (h : t.OneByOne batch ids t') (done : Batch.Outcome) :
    t.steps done batch = .ok (t', counting done batch ids) := by
  induction h generalizing done with
  | done t => simp [steps, counting]
  | insert stored more ih =>
    obtain ⟨hp, rfl, rfl⟩ := insert_eq_ok_iff.mp stored
    rw [steps_cons_of_ok _ (step_insert hp), ih]
    simp [counting, Change.isReplace, Change.isDelete]
  | replace stored more ih =>
    obtain ⟨id, hp, hid, rfl⟩ := replace_eq_ok_iff.mp stored
    rw [steps_cons_of_ok _ (step_replace hp hid), ih]
    simp [counting, List.countP_cons, Change.isReplace, Change.isDelete, Nat.add_assoc, Nat.add_comm 1]
  | delete live more ih =>
    rw [steps_cons_of_ok _ (step_delete live), ih]
    simp [counting, List.countP_cons, Change.isReplace, Change.isDelete, Nat.add_assoc, Nat.add_comm 1]

/-- What a batch does, it does by these calls. -/
theorem exists_oneByOne_of_steps : ∀ {batch : Batch} {t : Table} {done : Batch.Outcome},
    t.steps done batch = .ok (t', done') → ∃ ids, t.OneByOne batch ids t'
  | [], _, _, h => by
    cases h
    exact ⟨[], .done _⟩
  | change :: batch, t, done, h => by
    obtain ⟨t₁, done₁, hstep, hsteps⟩ := steps_cons_eq_ok_iff.mp h
    obtain ⟨ids, more⟩ := exists_oneByOne_of_steps hsteps
    obtain ⟨p, rfl, hp, rfl, -⟩ | ⟨id, p, rfl, hp, hid, rfl, -⟩ | ⟨id, rfl, hid, rfl, -⟩ := step_cases hstep
    · exact ⟨_, .insert (insert_of_none hp) more⟩
    · exact ⟨_, .replace (replace_of_some hp hid) more⟩
    · exact ⟨_, .delete hid more⟩

/-- **A batch that succeeds** makes its changes one by one, and counts them. -/
theorem apply_eq_ok_iff {outcome : Batch.Outcome} : t.apply batch = .ok (t', outcome) ↔
    t.OneByOne batch outcome.inserted t' ∧ outcome.replaced = batch.countP Change.isReplace ∧
      outcome.deleted = batch.countP Change.isDelete := by
  have hstart (ids : List RowId) : counting {} batch ids =
      ⟨ids, batch.countP Change.isReplace, batch.countP Change.isDelete⟩ := by
    simp [counting]
  constructor
  · intro h
    obtain ⟨ids, hids⟩ := exists_oneByOne_of_steps h
    have hsteps : t.apply batch = _ := steps_of_oneByOne hids {}
    rw [h, hstart] at hsteps
    cases hsteps
    exact ⟨hids, rfl, rfl⟩
  · rintro ⟨hids, hreplaced, hdeleted⟩
    have hsteps : t.apply batch = _ := steps_of_oneByOne hids {}
    rw [hsteps, hstart, ← hreplaced, ← hdeleted]

theorem OneByOne.unique {t₁ t₂ : Table} {ids₁ ids₂ : List RowId} (h₁ : t.OneByOne batch ids₁ t₁)
    (h₂ : t.OneByOne batch ids₂ t₂) : ids₁ = ids₂ ∧ t₁ = t₂ := by
  have heq := (steps_of_oneByOne h₁ {}).symm.trans (steps_of_oneByOne h₂ {})
  obtain ⟨rfl, hcounts⟩ := Prod.mk.inj (Except.ok.inj heq)
  exact ⟨congrArg Batch.Outcome.inserted hcounts, rfl⟩

/-! ## When the changes can be made -/

/-- **When the changes can be made**, can be told from ids alone. -/
theorem exists_oneByOne_iff : ∀ {batch : Batch} {t : Table},
    (∃ ids t', t.OneByOne batch ids t') ↔ batch.Runnable t.Live t.nextId
  | [], t => ⟨fun _ => trivial, fun _ => ⟨[], t, .done t⟩⟩
  | .insert p :: batch, t => by
    have ih : (∃ ids t', (t.push p).2.OneByOne batch ids t') ↔ _ := exists_oneByOne_iff
    rw [live_push] at ih
    constructor
    · rintro ⟨_, t', h⟩
      cases h with
      | insert stored more =>
        obtain ⟨hid, -, rfl⟩ := insert_eq_ok_iff.mp stored
        exact ⟨hid, ih.mp ⟨_, t', more⟩⟩
    · rintro ⟨hid, hmore⟩
      obtain ⟨ids, t', more⟩ := ih.mpr hmore
      exact ⟨_, t', .insert (insert_of_none hid) more⟩
  | .replace p :: batch, t => by
    -- the table that is left is named by the id in `p`, which only the two sides provide
    constructor
    · rintro ⟨ids, t', h⟩
      cases h with
      | replace stored more =>
        obtain ⟨id, hp, hid, rfl⟩ := replace_eq_ok_iff.mp stored
        have hmore := exists_oneByOne_iff.mp ⟨ids, t', more⟩
        rw [live_set hid] at hmore
        exact ⟨⟨id, hp, hid⟩, hmore⟩
    · rintro ⟨⟨id, hp, hid⟩, hmore⟩
      rw [← live_set hid p] at hmore
      obtain ⟨ids, t', more⟩ := exists_oneByOne_iff.mpr hmore
      exact ⟨ids, t', .replace (replace_of_some hp hid) more⟩
  | .delete id :: batch, t => by
    have ih : (∃ ids t', (t.remove id).OneByOne batch ids t') ↔ _ := exists_oneByOne_iff
    rw [live_remove] at ih
    constructor
    · rintro ⟨ids, t', h⟩
      cases h with
      | delete live more => exact ⟨live, ih.mp ⟨ids, t', more⟩⟩
    · rintro ⟨live, hmore⟩
      obtain ⟨ids, t', more⟩ := ih.mpr hmore
      exact ⟨ids, t', .delete live more⟩

/-! ## Rows and ids afterwards -/

theorem Valid.size_push (h : t.Valid) (p : Profile) : (t.push p).2.size = t.size + 1 := by
  have hput : (t.push p).2.rows = t.rows ++ [(⟨t.nextId⟩, { p with id := some ⟨t.nextId⟩ })] :=
    Rows.put_eq_append fun e he => (h.bounded e he).2
  rw [size, hput, List.length_append, size, List.length_singleton]

theorem Valid.size_set (h : t.Valid) (hid : t.Live id) (p : Profile) : (t.set id p).size = t.size :=
  h.sorted.length_put hid p

theorem Valid.size_remove (h : t.Valid) (hid : t.Live id) : (t.remove id).size + 1 = t.size :=
  h.sorted.length_erase hid

/-- **How many rows there are** after the changes. -/
theorem OneByOne.size_add (h : t.OneByOne batch ids t') (hv : t.Valid) :
    t'.size + batch.countP Change.isDelete = t.size + ids.length := by
  induction h with
  | done t => rfl
  | insert stored more ih =>
    obtain ⟨-, -, rfl⟩ := insert_eq_ok_iff.mp stored
    rw [List.countP_cons_of_neg (by simp [Change.isDelete]), ih (hv.push _), hv.size_push,
      List.length_cons, Nat.add_assoc, Nat.add_comm 1]
  | replace stored more ih =>
    -- taken before `stored` is used up, as only it says that the profile carries its id
    have hv₁ := hv.replace stored
    obtain ⟨id, -, hid, rfl⟩ := replace_eq_ok_iff.mp stored
    rw [List.countP_cons_of_neg (by simp [Change.isDelete]), ih hv₁, hv.size_set hid]
  | delete live more ih =>
    rw [List.countP_cons_of_pos rfl, ← Nat.add_assoc, ih (hv.remove _), ← hv.size_remove live,
      Nat.add_right_comm]

theorem Call.after_apply (batch : Batch) (t : Table) :
    (Call.apply batch).after t = (RowStore.apply batch t).2 := by
  rw [after, perform, rowStore_apply]
  cases t.apply batch <;> rfl

/-- **What a batch that succeeds does** to the table that the calls have led to. -/
structure Carried (calls : List Call) (batch : Batch) (outcome : Batch.Outcome) (t' : Table) :
    Prop where
  /-- The changes one by one lead to the same table, and the new rows get the same ids. -/
  oneByOne : (run calls {}).OneByOne batch outcome.inserted t'
  unique : ∀ ids copy, (run calls {}).OneByOne batch ids copy → ids = outcome.inserted ∧ copy = t'
  /-- Later new rows get higher ids. -/
  increasing : outcome.inserted.Pairwise fun a b => a.val < b.val
  /-- No new id was live at any time before. -/
  fresh : ∀ id ∈ outcome.inserted, ∀ past, past <+: calls → ¬(run past {}).Live id
  inserted : outcome.inserted.length = batch.countP Change.isInsert
  replaced : outcome.replaced = batch.countP Change.isReplace
  deleted : outcome.deleted = batch.countP Change.isDelete
  size : t'.size + outcome.deleted = (run calls {}).size + outcome.inserted.length

theorem carried_of_apply {calls : List Call} {outcome : Batch.Outcome}
    (h : (run calls {}).apply batch = .ok (t', outcome)) : Carried calls batch outcome t' := by
  obtain ⟨hone, hreplaced, hdeleted⟩ := apply_eq_ok_iff.mp h
  obtain ⟨n, hnext, hinserted⟩ := inserted_of_apply h
  have hlength := length_inserted_steps h
  exact {
    oneByOne := hone
    unique := fun ids copy hcopy => hcopy.unique hone
    increasing := hinserted ▸ pairwise_nextIds _ n
    fresh := fun id hid past hpast => by
      rw [hinserted, mem_nextIds] at hid
      exact not_live_run hpast hid.1
    inserted := by rw [hlength, List.length_nil, Nat.zero_add]
    replaced := hreplaced
    deleted := hdeleted
    size := hdeleted ▸ hone.size_add (valid_run calls) }

/-- **Batches on any table there is.** A batch succeeds iff its changes can be made one by one, which can be
told from ids alone, and then does the same, with new ids that no row ever had. A batch that fails changes
nothing: whatever is called afterwards does what it does without the batch. -/
theorem apply_one_by_one (calls : List Call) (batch : Batch) :
    let t := run calls {}
    ((∃ outcome t', RowStore.apply batch t = (.ok outcome, t')) ↔ ∃ ids t', t.OneByOne batch ids t') ∧
      ((∃ ids t', t.OneByOne batch ids t') ↔ batch.Runnable t.Live t.nextId) ∧
      (∀ outcome t', RowStore.apply batch t = (.ok outcome, t') → Carried calls batch outcome t') ∧
      ∀ e t', RowStore.apply batch t = (.error e, t') → t' = t ∧
        ∀ more, run (calls ++ .apply batch :: more) {} = run (calls ++ more) {} := by
  intro t
  refine ⟨⟨?_, ?_⟩, exists_oneByOne_iff,
    fun outcome t' h => carried_of_apply (rowStore_apply_eq_ok.mp h), fun e t' h => ?_⟩
  · rintro ⟨outcome, t', h⟩
    exact ⟨_, t', (apply_eq_ok_iff.mp (rowStore_apply_eq_ok.mp h)).1⟩
  · rintro ⟨ids, t', h⟩
    exact ⟨counting {} batch ids, t', rowStore_apply_eq_ok.mpr (steps_of_oneByOne h {})⟩
  · have hsame : (RowStore.apply batch t).2 = t := snd_apply_of_error (congrArg Prod.fst h)
    refine ⟨(congrArg Prod.snd h).symm.trans hsame, fun more => ?_⟩
    have hafter : (Call.apply batch).after t = t := (Call.after_apply batch t).trans hsame
    rw [run_append, run_append]
    exact congrArg (run more) hafter

/-- On a table that has lost its first row, a batch overwrites and deletes rows that it has itself inserted.
Then one batch fails after its first new row, and the next new row gets the id of that one. -/
theorem apply_one_by_one_own_rows :
    let calls : List Call :=
      [.insert { apn := "web" }, .insert { apn := "mms" }, .remove ⟨1⟩]
    let batch : Batch := [.insert { apn := "dun" }, .replace { apn := "ims", id := some ⟨3⟩ },
      .insert { apn := "xcap" }, .delete ⟨2⟩, .delete ⟨4⟩]
    let failing : Batch := [.insert { apn := "dun" }, .delete ⟨1⟩]
    batch.Runnable (run calls {}).Live 3 ∧
      (∃ t', RowStore.apply batch (run calls {}) = (.ok ⟨[⟨3⟩, ⟨4⟩], 1, 2⟩, t') ∧
        t'.rows.map (fun r => (r.1.val, r.2.apn)) = [(3, "ims")] ∧ t'.nextId = 5 ∧
        Carried calls batch ⟨[⟨3⟩, ⟨4⟩], 1, 2⟩ t') ∧
      ¬failing.Runnable (run calls {}).Live 3 ∧
      (run (calls ++ [.apply failing, .insert { apn := "xcap" }]) {}).get? ⟨3⟩ =
        some { apn := "xcap", id := some ⟨3⟩ } := by
  intro calls batch failing
  obtain ⟨hsucceeds, hrunnable, hcarried, -⟩ := apply_one_by_one calls batch
  obtain ⟨hsucceeds', hrunnable', -, hfailed⟩ := apply_one_by_one calls failing
  have h : RowStore.apply batch (run calls {}) =
      (.ok ⟨[⟨3⟩, ⟨4⟩], 1, 2⟩, (RowStore.apply batch (run calls {})).2) := rfl
  have h' : RowStore.apply failing (run calls {}) = (.error (.unknownRow ⟨1⟩), run calls {}) := rfl
  refine ⟨hrunnable.mp (hsucceeds.mp ⟨_, _, h⟩), ⟨_, h, rfl, rfl, hcarried _ _ h⟩, fun hlive => ?_, ?_⟩
  · obtain ⟨outcome, t', hok⟩ := hsucceeds'.mpr (hrunnable'.mpr hlive)
    exact nomatch congrArg Prod.fst (h'.symm.trans hok)
  · rw [(hfailed _ _ h').2]
    rfl

end Table

end ApnRegistry
