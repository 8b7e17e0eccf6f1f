import ApnRegistry.Rehearsal
import ApnRegistry.Proofs.Table
import Mathlib.Tactic.SplitIfs

/-!
# Stores that do all or nothing

A store is asked to read without a change, and to carry out a batch as a whole or not at all. It may keep
other things as well, that change with every call. So the contract of a store (`AllOrNothing`) is about
its content only, and says what part of the store that is.

Results:
* `allOrNothing_table`: a table in memory keeps the contract; all of it is content, the next id included.
* `allOrNothing_rehearsal`: so does a table that fails on schedule, unless it is tampered with.
-/

namespace ApnRegistry

/-- The change makes a new row. -/
def Change.isInsert : Change → Bool
  | .insert _ => true
  | _ => false

/-- Calls on the store change its content by a batch that succeeds, or not at all. -/
structure AllOrNothing {σ γ : Type} [RowStore σ] (content : σ → γ) : Prop where
  get : ∀ (id : RowId) (st : σ), content (RowStore.get id st).2 = content st
  query : ∀ (q : Predicate) (order : Order) (st : σ), content (RowStore.query q order st).2 = content st
  /-- A batch that fails is not carried out. -/
  failed : ∀ (batch : Batch) (st : σ) (e : Error), (RowStore.apply batch st).1 = .error e →
    content (RowStore.apply batch st).2 = content st
  /-- Without changes there is nothing to do. -/
  empty : ∀ st : σ, content (RowStore.apply [] st).2 = content st
  /-- Every new row is told. -/
  inserted : ∀ (batch : Batch) (st : σ) (outcome : Batch.Outcome),
    (RowStore.apply batch st).1 = .ok outcome →
      outcome.inserted.length = batch.countP Change.isInsert

/-! ## Tables in memory -/

namespace Table

variable {t t' : Table} {done done' : Batch.Outcome} {change : Change}

theorem length_inserted_step (h : t.step done change = .ok (t', done')) :
    done'.inserted.length = done.inserted.length + [change].countP Change.isInsert := by
  obtain ⟨p, rfl, -, -, rfl⟩ | ⟨id, p, rfl, -, -, -, rfl⟩ | ⟨id, rfl, -, -, rfl⟩ := step_cases h
  · simp [Change.isInsert]
  · rfl
  · rfl

theorem length_inserted_steps : ∀ {batch : Batch} {t : Table} {done : Batch.Outcome},
    t.steps done batch = .ok (t', done') →
    done'.inserted.length = done.inserted.length + batch.countP Change.isInsert
  | [], _, _, h => by
    cases h
    rfl
  | change :: batch, _, _, h => by
    obtain ⟨t₁, done₁, hstep, hsteps⟩ := steps_cons_eq_ok_iff.mp h
    rw [length_inserted_steps hsteps, length_inserted_step hstep, Nat.add_assoc, ← List.countP_append,
      List.singleton_append]

theorem rowStore_apply (batch : Batch) (t : Table) : RowStore.apply batch t =
    match t.apply batch with
    | .ok (t', outcome) => (.ok outcome, t')
    | .error e => (.error e, t) := rfl

theorem rowStore_apply_eq_ok {batch : Batch} {outcome : Batch.Outcome} :
    RowStore.apply batch t = (.ok outcome, t') ↔ t.apply batch = .ok (t', outcome) := by
  rw [rowStore_apply]
  cases t.apply batch with
  | error e => simp
  | ok r => simp [Prod.ext_iff, and_comm]

theorem snd_apply_of_error {batch : Batch} {e : Error}
    (h : (RowStore.apply batch t).1 = .error e) : (RowStore.apply batch t).2 = t := by
  rw [rowStore_apply] at h ⊢
  cases ha : t.apply batch with
  | error e' => rfl
  | ok r =>
    rw [ha] at h
    cases h

theorem length_inserted_apply {batch : Batch} {outcome : Batch.Outcome}
    (h : (RowStore.apply batch t).1 = .ok outcome) :
    outcome.inserted.length = batch.countP Change.isInsert := by
  have happly : RowStore.apply batch t = (.ok outcome, (RowStore.apply batch t).2) := Prod.ext h rfl
  rw [length_inserted_steps (rowStore_apply_eq_ok.mp happly)]
  exact Nat.zero_add _

end Table

/-- **A table in memory** does all or nothing. -/
theorem allOrNothing_table : AllOrNothing (id : Table → Table) where
  get := fun _ _ => rfl
  query := fun _ _ _ => rfl
  failed := fun _ _ _ => Table.snd_apply_of_error
  empty := fun _ => rfl
  inserted := fun _ _ _ => Table.length_inserted_apply

/-! ## Tables that fail on schedule -/

namespace Rehearsal

variable {r : Rehearsal} {method : Method} {α : Type} {act : Table → Except Error α × Table}

/-- The table, if it is not tampered with. -/
def own? (r : Rehearsal) : Option Table := if r.intrusions.isEmpty then some r.table else none

theorem table_of_own?_eq {r' : Rehearsal} (hr : r.intrusions = []) (h : r'.own? = r.own?) :
    r'.table = r.table := by
  unfold own? at h
  rw [hr, List.isEmpty_nil, if_pos rfl] at h
  split_ifs at h
  exact Option.some.inj h

/-- A call is done on the table, unless a failure is due. -/
theorem call_cases (r : Rehearsal) (method : Method) (act : Table → Except Error α × Table) :
    ((∃ e, (r.call method act).1 = .error e) ∧ (r.call method act).2.own? = r.own?) ∨
      (r.call method act).1 = (act r.table).1 ∧
        (r.call method act).2.own? = ({ r with table := (act r.table).2 } : Rehearsal).own? := by
  unfold call
  simp only
  cases takeFailure method r.failures with
  | some due => exact Or.inl ⟨⟨due.1, rfl⟩, rfl⟩
  | none =>
    refine Or.inr ?_
    rcases act r.table with ⟨e | a, t⟩
    · exact ⟨rfl, rfl⟩
    · refine ⟨rfl, ?_⟩
      unfold own?
      cases h : r.intrusions with
      | nil => simp
      | cons i more => rfl

/-- A call that leaves the table leaves the content. -/
theorem own?_call (h : (act r.table).2 = r.table) : (r.call method act).2.own? = r.own? := by
  rcases call_cases r method act with ⟨-, hown⟩ | ⟨-, hown⟩
  · exact hown
  · rw [hown, h]

theorem own?_apply_of_error {batch : Batch} {e : Error}
    (h : (RowStore.apply batch r).1 = .error e) : (RowStore.apply batch r).2.own? = r.own? := by
  rcases call_cases r .apply (RowStore.apply batch) with ⟨-, hown⟩ | ⟨hact, -⟩
  · exact hown
  · exact own?_call (Table.snd_apply_of_error (hact.symm.trans h))

theorem length_inserted_apply {batch : Batch} {outcome : Batch.Outcome}
    (h : (RowStore.apply batch r).1 = .ok outcome) :
    outcome.inserted.length = batch.countP Change.isInsert := by
  rcases call_cases r .apply (RowStore.apply batch) with ⟨⟨e, he⟩, -⟩ | ⟨hact, -⟩
  · exact nomatch h.symm.trans he
  · exact Table.length_inserted_apply (hact.symm.trans h)

end Rehearsal

/-- **A table that fails on schedule** does all or nothing, unless it is tampered with. -/
theorem allOrNothing_rehearsal : AllOrNothing Rehearsal.own? where
  get := fun _ _ => Rehearsal.own?_call rfl
  query := fun _ _ _ => Rehearsal.own?_call rfl
  failed := fun _ _ _ => Rehearsal.own?_apply_of_error
  empty := fun _ => Rehearsal.own?_call rfl
  inserted := fun _ _ _ => Rehearsal.length_inserted_apply

end ApnRegistry
