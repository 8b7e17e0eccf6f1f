import ApnRegistry.Proofs.Batch
import ApnRegistry.Proofs.Correspondence

/-!
# Ledgers: the ids that a table hands out

Which ids were handed out cannot be read off a table: rows go, and their ids with them. A `Ledger` is a
table that also notes the id of every row that a batch inserts. A batch that fails inserts none.

Whatever is called on a ledger does what it does on the table alone (`Action.Mirrors`), and the ledger
*counts*: the ids that were handed out are 1, 2, 3 and so on, and the next one is the next id of the
table. So no id is handed out twice, whether the row that had it is still there or not.

Results:
* `Table.inserted_of_apply`: the ids that a batch hands out.
* `Request.mirrors`: one request.
* `run_ledger`: a run.
-/

namespace ApnRegistry

namespace Table

variable {t t' : Table} {done done' : Batch.Outcome}

@[simp] theorem length_nextIds (t : Table) (n : Nat) : (t.nextIds n).length = n := by
  rw [nextIds, List.length_map, List.length_range]

/-- The next ids go on where the ones before them end. -/
theorem nextIds_add {m : Nat} (n : Nat) (h : t'.nextId = t.nextId + m) :
    t.nextIds (m + n) = t.nextIds m ++ t'.nextIds n := by
  simp only [nextIds, List.range_add, List.map_append, List.map_map, h]
  refine congrArg _ (List.map_congr_left fun i _ => ?_)
  simp only [Function.comp_apply, Nat.add_assoc]

/-- The next ids ascend. -/
theorem pairwise_nextIds (t : Table) (n : Nat) : (t.nextIds n).Pairwise fun a b => a.val < b.val :=
  List.pairwise_map.mpr (List.pairwise_lt_range.imp fun hlt => Nat.add_lt_add_left hlt _)

theorem nodup_nextIds (t : Table) (n : Nat) : (t.nextIds n).Nodup :=
  (t.pairwise_nextIds n).imp fun hlt heq => Nat.ne_of_lt hlt (congrArg RowId.val heq)

theorem mem_nextIds {n : Nat} {id : RowId} :
    id ∈ t.nextIds n ↔ t.nextId ≤ id.val ∧ id.val < t.nextId + n := by
  rw [nextIds, List.mem_map]
  constructor
  · rintro ⟨i, hi, rfl⟩
    exact ⟨Nat.le_add_right _ _, Nat.add_lt_add_left (List.mem_range.mp hi) _⟩
  · rintro ⟨hle, hlt⟩
    exact ⟨id.val - t.nextId, List.mem_range.mpr (by omega),
      congrArg RowId.mk (Nat.add_sub_cancel' hle)⟩

/-- A change hands out the next id, or none. -/
theorem inserted_of_step {change : Change} (h : t.step done change = .ok (t', done')) :
    ∃ n, t'.nextId = t.nextId + n ∧ done'.inserted = done.inserted ++ t.nextIds n := by
  have hnone (ids : List RowId) : ids = ids ++ t.nextIds 0 := (List.append_nil ids).symm
  obtain ⟨p, rfl, -, rfl, rfl⟩ | ⟨id, p, rfl, -, -, rfl, rfl⟩ | ⟨id, rfl, -, rfl, rfl⟩ := step_cases h
  · exact ⟨1, rfl, rfl⟩
  · exact ⟨0, rfl, hnone _⟩
  · exact ⟨0, rfl, hnone _⟩

theorem inserted_of_steps : ∀ {batch : Batch} {t : Table} {done : Batch.Outcome},
    t.steps done batch = .ok (t', done') →
      ∃ n, t'.nextId = t.nextId + n ∧ done'.inserted = done.inserted ++ t.nextIds n
  | [], _, _, h => by
    cases h
    exact ⟨0, rfl, (List.append_nil _).symm⟩
  | change :: batch, t, done, h => by
    obtain ⟨t₁, done₁, hstep, hsteps⟩ := steps_cons_eq_ok_iff.mp h
    obtain ⟨m, hm, hfirst⟩ := inserted_of_step hstep
    obtain ⟨n, hn, hrest⟩ := inserted_of_steps hsteps
    refine ⟨m + n, by rw [hn, hm, Nat.add_assoc], ?_⟩
    rw [hrest, hfirst, List.append_assoc, nextIds_add n hm]

/-- **A batch hands out the next ids**, as many as the next id grows by. -/
theorem inserted_of_apply {batch : Batch} (h : t.apply batch = .ok (t', done)) :
    ∃ n, t'.nextId = t.nextId + n ∧ done.inserted = t.nextIds n :=
  inserted_of_steps h

end Table

/-! ## Ledgers -/

/-- A table and the ids that it has handed out so far, the latest one last. -/
structure Ledger where
  table : Table := {}
  issued : List RowId := []

namespace Ledger

instance : RowStore Ledger where
  get id l := (.ok (l.table.get? id), l)
  query q order l := (.ok (l.table.scan q order), l)
  apply batch l :=
    match l.table.apply batch with
    | .ok (t, outcome) => (.ok outcome, ⟨t, l.issued ++ outcome.inserted⟩)
    | .error e => (.error e, l)

/-- The ids were handed out in order, from 1 upward, and the next id of the table is the next one. -/
structure Counts (l : Ledger) : Prop where
  next : l.table.nextId = l.issued.length + 1
  issued : l.issued = ({} : Table).nextIds l.issued.length

theorem Counts.start : ({} : Ledger).Counts := ⟨rfl, rfl⟩

variable {l : Ledger}

theorem Counts.nodup (h : l.Counts) : l.issued.Nodup := by
  rw [h.issued]
  exact Table.nodup_nextIds _ _

/-- The ids that were handed out are those below the next one. -/
theorem Counts.mem_issued (h : l.Counts) {id : RowId} :
    id ∈ l.issued ↔ 1 ≤ id.val ∧ id.val < l.table.nextId := by
  rw [h.issued, Table.mem_nextIds, h.next, Nat.add_comm]

theorem Counts.apply (h : l.Counts) {batch : Batch} {t : Table} {outcome : Batch.Outcome}
    (ha : l.table.apply batch = .ok (t, outcome)) : Counts ⟨t, l.issued ++ outcome.inserted⟩ := by
  obtain ⟨n, hn, hinserted⟩ := Table.inserted_of_apply ha
  have hnext : l.table.nextId = ({} : Table).nextId + l.issued.length := by
    rw [h.next, Nat.add_comm]
  rw [hinserted]
  constructor
  · simp only [List.length_append, Table.length_nextIds, hn, h.next]
    omega
  · simp only [List.length_append, Table.length_nextIds]
    rw [Table.nextIds_add n hnext, ← h.issued]

end Ledger

namespace Registry

variable {α β : Type}

/-- The state with the table of the ledger alone. -/
def State.tabled (s : State Ledger) : State Table where
  store := s.store.table
  enforced := s.enforced
  preferences := s.preferences
  board := s.board

/-! ## Calls on ledgers -/

/-- On a ledger that counts, the first call does what the second one does on its table, and the ledger
counts afterwards. -/
def Action.Mirrors (a : Action Ledger α) (b : Action Table α) : Prop :=
  ∀ s, s.store.Counts → b.perform s.tabled = ((a.perform s).1, (a.perform s).2.tabled) ∧
    (a.perform s).2.store.Counts

namespace Action

theorem Mirrors.bind {a : Action Ledger α} {b : Action Table α} {f : α → Action Ledger β}
    {g : α → Action Table β} (h : Mirrors a b) (hf : ∀ x, Mirrors (f x) (g x)) :
    Mirrors (a >>= f) (b >>= g) := by
  intro s hs
  obtain ⟨hb, hcounts⟩ := h s hs
  rw [perform_bind, perform_bind, hb]
  rcases ha : a.perform s with ⟨e | x, s'⟩ <;> rw [ha] at hcounts
  · exact ⟨rfl, hcounts⟩
  · exact hf x s' hcounts

/-- A call that leaves the store. -/
theorem Mirrors.of_eq {a : Action Ledger α} {b : Action Table α}
    (h : ∀ s, b.perform s.tabled = ((a.perform s).1, (a.perform s).2.tabled))
    (hstore : ∀ s, (a.perform s).2.store = s.store) : Mirrors a b := by
  intro s hs
  rw [hstore]
  exact ⟨h s, hs⟩

theorem Mirrors.outcomeOf {a : Action Ledger α} {b : Action Table α} (h : Mirrors a b) :
    Mirrors (outcomeOf a) (outcomeOf b) := by
  intro s hs
  obtain ⟨hb, hcounts⟩ := h s hs
  rw [perform_outcomeOf, perform_outcomeOf, hb]
  exact ⟨rfl, hcounts⟩

theorem mirrors_write (batch : Batch) : Mirrors (write batch) (write batch) := by
  intro s hs
  simp only [write, perform_onStore, RowStore.apply, State.tabled]
  cases ha : s.store.table.apply batch with
  | error e => exact ⟨rfl, hs⟩
  | ok r => exact ⟨rfl, hs.apply ha⟩

theorem mirrors_decided (result : Except Error α) : Mirrors (decided result) (decided result) :=
  .of_eq (fun _ => rfl) fun _ => rfl

theorem mirrors_rows (q : Predicate) (order : Order) : Mirrors (rows q order) (rows q order) :=
  .of_eq (fun _ => rfl) fun _ => rfl

end Action

open Registry.Action

/-- **All ways to build a call are mirrored.** -/
def mirrored : Correspondence Ledger Table where
  Rel := Mirrors
  bind := Mirrors.bind
  deciding := mirrors_decided
  reading := mirrors_rows
  fetching _ := .of_eq (fun _ => rfl) fun _ => rfl
  writing := mirrors_write
  publishing _ := .of_eq (fun _ => rfl) fun _ => rfl
  looking h s hs := h s s.tabled rfl rfl s hs
  preferring _ := .of_eq (fun _ => rfl) fun _ => rfl
  restoring _ _ := (mirrors_rows _ _).bind fun _ => (mirrors_decided _).bind fun _ =>
    (mirrors_write _).outcomeOf.bind fun _ => mirrors_decided (.ok _)

theorem mirrors_setEnforced {setup : Setup} {caller : Caller} {value : Bool} :
    Mirrors (setEnforced setup caller value) (setEnforced setup caller value) := by
  refine mirrored.rel_authorize.bind fun _ => mirrored.looking fun s s' he _ => ?_
  dsimp only
  rw [he]
  exact Mirrors.bind (.of_eq (fun _ => rfl) fun _ => rfl) fun _ =>
    mirrored.rel_ite (mirrored.publishing _) (mirrored.rel_pure ())

/-- **Every request on a ledger does what it does on the table**, and the ledger goes on counting. -/
theorem Request.mirrors (setup : Setup) (r : Request) :
    Mirrors (r.action setup) (r.action setup) := by
  by_cases hr : ∀ caller value, r ≠ .setEnforced caller value
  · exact mirrored.rel_request setup r hr
  · obtain ⟨caller, value, rfl⟩ : ∃ caller value, r = .setEnforced caller value := by
      simpa only [not_forall, not_not] using hr
    exact mirrored.rel_map mirrors_setEnforced _

/-- **A run on a ledger is the run on its table**, and the ledger counts after it. -/
theorem run_ledger (setup : Setup) : ∀ (requests : List Request) {s : State Ledger},
    s.store.Counts → (run setup requests s).tabled = run setup requests s.tabled ∧
      (run setup requests s).store.Counts
  | [], _, hs => ⟨rfl, hs⟩
  | r :: requests, s, hs => by
    obtain ⟨hb, hcounts⟩ := r.mirrors setup s hs
    have hafter : (r.after setup s).tabled = r.after setup s.tabled :=
      (congrArg Prod.snd hb).symm
    obtain ⟨htable, hrun⟩ := run_ledger setup requests hcounts
    exact ⟨htable.trans (congrArg (run setup requests) hafter), hrun⟩

end Registry

end ApnRegistry
