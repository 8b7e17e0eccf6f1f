import ApnRegistry.Proofs.AllOrNothing
import ApnRegistry.Proofs.Ledger

/-!
# Calls on a table

Whoever holds a table can change it by five calls, and a call that fails leaves it as it was. So every
table there is comes from the empty one by a run of calls. It is valid, and its next id has only grown on
the way, by one for each new row: an id that is still to be handed out was never live before.

Results:
* `Valid.after`, `Valid.run`: one call keeps a table valid, and so does a run.
* `nextId_after`, `nextId_run`: how far the next id moves in one call, and in a run.
* `not_live_run`: ids to come were not live at any time of the run.
-/

namespace ApnRegistry

namespace Table

/-- There is a row with the id. -/
def Live (t : Table) (id : RowId) : Prop := (t.get? id).isSome

/-- A call that may change a table. -/
inductive Call where
  | insert (p : Profile)
  | replace (p : Profile)
  | remove (id : RowId)
  | deleteMatching (q : Predicate)
  | apply (batch : Batch)

namespace Call

/-- The table that the call makes of the given one, or its failure. -/
def perform (t : Table) : Call → Except Error Table
  | .insert p => (t.insert p).map Prod.snd
  | .replace p => t.replace p
  | .remove id => .ok (t.remove id)
  | .deleteMatching q => .ok (t.deleteMatching q).2
  | .apply batch => (t.apply batch).map Prod.fst

/-- The table after the call. One that fails leaves the table as it was. -/
def after (t : Table) (call : Call) : Table :=
  match call.perform t with
  | .ok t' => t'
  | .error _ => t

/-- How many rows the call inserts if it succeeds. -/
def insertions : Call → Nat
  | .insert _ => 1
  | .apply batch => batch.countP Change.isInsert
  | _ => 0

end Call

/-- The table after the calls, one after the other. -/
def run (calls : List Call) (t : Table) : Table := calls.foldl Call.after t

/-- How many rows the calls insert if all of them succeed. -/
def insertions : List Call → Nat
  | [] => 0
  | call :: calls => call.insertions + insertions calls

variable {t t' : Table} {call : Call} {id : RowId}

/-! ## Live ids -/

theorem live_push (t : Table) (p : Profile) :
    (t.push p).2.Live = fun other => t.Live other ∨ other = ⟨t.nextId⟩ := by
  funext other
  by_cases h : other = ⟨t.nextId⟩ <;> simp [Live, get?_push, h]

theorem live_set (hid : t.Live id) (p : Profile) : (t.set id p).Live = t.Live := by
  funext other
  rw [Live, Live, get?_set]
  by_cases h : other = id
  · subst h
    rw [if_pos rfl]
    exact propext ⟨fun _ => hid, fun _ => rfl⟩
  · rw [if_neg h]

theorem live_remove (t : Table) (id : RowId) :
    (t.remove id).Live = fun other => t.Live other ∧ other ≠ id := by
  funext other
  by_cases h : other = id <;> simp [Live, get?_remove, h]

/-! ## One call -/

theorem Call.after_of_ok (h : call.perform t = .ok t') : call.after t = t' := by
  rw [after, h]

theorem Call.after_of_error {e : Error} (h : call.perform t = .error e) : call.after t = t := by
  rw [after, h]

theorem exists_of_map_eq_ok {α β : Type} {f : α → β} {x : Except Error α} {b : β}
    (h : x.map f = .ok b) : ∃ a, x = .ok a ∧ f a = b := by
  cases x with
  | error e => cases h
  | ok a => exact ⟨a, rfl, Except.ok.inj h⟩

theorem Valid.perform (h : t.Valid) (hp : call.perform t = .ok t') : t'.Valid := by
  cases call with
  | insert p =>
    obtain ⟨r, hi, rfl⟩ := exists_of_map_eq_ok hp
    exact h.insert hi
  | replace p => exact h.replace hp
  | remove id =>
    cases hp
    exact h.remove id
  | deleteMatching q =>
    cases hp
    exact h.deleteMatching q
  | apply batch =>
    obtain ⟨r, ha, rfl⟩ := exists_of_map_eq_ok hp
    exact h.apply ha

/-- **What one call keeps.** -/
theorem Valid.after (h : t.Valid) (call : Call) : (call.after t).Valid := by
  cases hp : call.perform t with
  | error e =>
    rw [Call.after_of_error hp]
    exact h
  | ok t' =>
    rw [Call.after_of_ok hp]
    exact h.perform hp

/-- A call that succeeds moves the next id on by one for each row that it inserts. -/
theorem Call.nextId_of_ok (hp : call.perform t = .ok t') : t'.nextId = t.nextId + call.insertions := by
  cases call with
  | insert p =>
    obtain ⟨⟨id, t'⟩, hi, rfl⟩ := exists_of_map_eq_ok hp
    obtain ⟨-, -, rfl⟩ := insert_eq_ok_iff.mp hi
    rfl
  | replace p =>
    obtain ⟨id, -, -, rfl⟩ := replace_eq_ok_iff.mp hp
    rfl
  | remove id =>
    cases hp
    rfl
  | deleteMatching q =>
    cases hp
    rfl
  | apply batch =>
    obtain ⟨⟨t', outcome⟩, ha, rfl⟩ := exists_of_map_eq_ok hp
    obtain ⟨n, hn, hinserted⟩ := inserted_of_apply ha
    have hlength := length_inserted_steps ha
    rw [hinserted, length_nextIds, List.length_nil, Nat.zero_add] at hlength
    rw [hn, hlength, insertions]

/-- The next id never goes back, and moves on no further than the call inserts rows. -/
theorem nextId_after (call : Call) (t : Table) :
    t.nextId ≤ (call.after t).nextId ∧ (call.after t).nextId ≤ t.nextId + call.insertions := by
  cases hp : call.perform t with
  | error e =>
    rw [Call.after_of_error hp]
    exact ⟨Nat.le_refl _, Nat.le_add_right _ _⟩
  | ok t' =>
    rw [Call.after_of_ok hp, Call.nextId_of_ok hp]
    exact ⟨Nat.le_add_right _ _, Nat.le_refl _⟩

/-! ## Runs -/

theorem run_append (calls more : List Call) (t : Table) : run (calls ++ more) t = run more (run calls t) :=
  List.foldl_append

/-- **What a run keeps.** -/
theorem Valid.run : ∀ (calls : List Call) {t : Table}, t.Valid → (run calls t).Valid
  | [], _, h => h
  | call :: calls, _, h => Valid.run calls (h.after call)

theorem valid_run (calls : List Call) : (Table.run calls {}).Valid := Valid.empty.run calls

/-- **How far the next id moves in a run.** -/
theorem nextId_run : ∀ (calls : List Call) (t : Table),
    t.nextId ≤ (Table.run calls t).nextId ∧ (Table.run calls t).nextId ≤ t.nextId + insertions calls
  | [], _ => ⟨Nat.le_refl _, Nat.le_refl _⟩
  | call :: calls, t => by
    obtain ⟨hle, hge⟩ := nextId_after call t
    obtain ⟨hrun, hbound⟩ := nextId_run calls (call.after t)
    refine ⟨Nat.le_trans hle hrun, ?_⟩
    rw [insertions, ← Nat.add_assoc]
    exact Nat.le_trans hbound (Nat.add_le_add_right hge _)

/-- The next id was never higher before. -/
theorem nextId_run_le {calls past : List Call} (hpast : past <+: calls) :
    (Table.run past {}).nextId ≤ (Table.run calls {}).nextId := by
  obtain ⟨later, rfl⟩ := hpast
  rw [run_append]
  exact (nextId_run later _).1

/-- **An id that is still to come** was not live at any time of the run. -/
theorem not_live_run {calls past : List Call} (hpast : past <+: calls)
    (hid : (Table.run calls {}).nextId ≤ id.val) : ¬(Table.run past {}).Live id := by
  rw [Live, (valid_run past).get?_eq_none (Nat.le_trans (nextId_run_le hpast) hid)]
  exact Bool.noConfusion

end Table

end ApnRegistry
