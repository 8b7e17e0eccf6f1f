import ApnRegistry.Proofs.Ascending
import ApnRegistry.Proofs.Conditions
import ApnRegistry.Proofs.Rows
import ApnRegistry.Registry.Revision

/-!
# Calls on a table in memory

A table answers every read and stays as it is. So a reading call is a function of the table, and a
second reading finds what the first one found: the rows to be changed can be locked at once
(`perform_lockMatching`).
-/

namespace ApnRegistry

namespace Table

/-- The visible rows that a condition selects. -/
def matching (t : Table) (q : Predicate) : List Profile :=
  (t.scan q .idAscending).filter Profile.isVisible

theorem scan_idAscending (t : Table) (q : Predicate) :
    t.scan q .idAscending = t.rows.profiles.filter q.holds := rfl

/-- A scan without a condition shows all rows. -/
theorem scan_always (t : Table) : t.scan .always .idAscending = t.rows.profiles :=
  List.filter_eq_self.mpr fun p _ => Predicate.holds_always p

/-- A scan shows those of all rows that meet its condition. -/
theorem scan_eq_filter (t : Table) (q : Predicate) (order : Order) :
    t.scan q order = (t.scan .always order).filter q.holds := by
  cases order with
  | idAscending => rw [scan_always, scan_idAscending]
  | idDescending =>
    show (t.scan q .idAscending).reverse = ((t.scan .always .idAscending).reverse).filter q.holds
    rw [scan_always, scan_idAscending, List.filter_reverse]

/-- Scans that show the same rows in one order do so in the other. -/
theorem scan_congr {t t' : Table} {q q' : Predicate}
    (h : t.scan q .idAscending = t'.scan q' .idAscending) (order : Order) :
    t.scan q order = t'.scan q' order := by
  cases order with
  | idAscending => exact h
  | idDescending => exact congrArg List.reverse h

theorem mem_scan {t : Table} {q : Predicate} {order : Order} {p : Profile} :
    p ∈ t.scan q order ↔ p ∈ t.rows.profiles ∧ q.holds p = true := by
  cases order with
  | idAscending => exact List.mem_filter
  | idDescending => exact List.mem_reverse.trans List.mem_filter

theorem mem_matching {t : Table} {q : Predicate} {p : Profile} :
    p ∈ t.matching q ↔ p ∈ t.rows.profiles ∧ q.holds p = true ∧ p.isVisible = true := by
  rw [matching, List.mem_filter, mem_scan, and_assoc]

end Table

namespace Registry

/-- The visible rows of an owner that a target addresses and a condition selects. -/
def chosen (setup : Setup) (owner : Owner) (target : Target) (q : Predicate) (t : Table) :
    List Profile :=
  t.rows.profiles.filter fun r =>
    r.isVisible && r.owner == owner && (targetPredicate setup target).holds r && q.holds r

theorem matching_selected (setup : Setup) (partition : Partition) (target : Target) (q : Predicate)
    (t : Table) :
    t.matching (selected setup partition target q) = chosen setup partition.owner target q t := by
  rw [Table.matching, Table.scan_idAscending, List.filter_filter, chosen]
  refine List.filter_congr fun r _ => ?_
  have hsel : (selected setup partition target q).holds r =
      (r.owner == partition.owner && (targetPredicate setup target).holds r && q.holds r) := by
    rw [Bool.eq_iff_iff, holds_selected]
    simp only [Predicate.holds_and, Bool.and_eq_true, beq_iff_eq, and_assoc]
  rw [hsel, Bool.and_assoc, Bool.and_assoc, Bool.and_assoc]

theorem owner_of_mem_chosen {setup : Setup} {target : Target} {q : Predicate} {owner : Owner}
    {t : Table} {r : Profile}
    (h : r ∈ chosen setup owner target q t) : r.owner = owner := by
  have h := (List.mem_filter.mp h).2
  simp only [Bool.and_eq_true, beq_iff_eq] at h
  exact h.1.1.2

variable (s : State Table)

@[simp] theorem perform_rows (q : Predicate) (order : Order) :
    (rows q order).perform s = (.ok (s.store.scan q order), s) := rfl

@[simp] theorem perform_fetch (id : RowId) :
    (fetch id).perform s = (.ok (s.store.get? id), s) := rfl

/-- A batch that succeeds. -/
theorem perform_write {s : State Table} {batch : Batch} {t : Table} {outcome : Batch.Outcome}
    (h : s.store.apply batch = .ok (t, outcome)) :
    (write batch).perform s = (.ok outcome, { s with store := t }) := by
  have happly : RowStore.apply batch s.store = (.ok outcome, t) := by
    simp only [RowStore.apply, h]
  rw [write, Action.perform_onStore, happly]

/-- A call that makes another table of the stored one, or fails and leaves it as it is. -/
def edits {α : Type} (f : Table → Except Error (α × Table)) : Action Table α :=
  onStore fun t => match f t with
    | .ok (a, t') => (.ok a, t')
    | .error e => (.error e, t)

theorem perform_edits_of_ok {α : Type} {f : Table → Except Error (α × Table)} {s : State Table}
    {a : α} {t : Table} (h : f s.store = .ok (a, t)) :
    (edits f).perform s = (.ok a, { s with store := t }) := by
  rw [edits, Action.perform_onStore, h]

theorem perform_edits_of_error {α : Type} {f : Table → Except Error (α × Table)} {s : State Table}
    {e : Error} (h : f s.store = .error e) : (edits f).perform s = (.error e, s) := by
  rw [edits, Action.perform_onStore, h]

/-- The call, and then a notice if it counted any row. -/
def announcing {σ : Type} (subscription : Option Subscription) (a : Action σ Nat) : Action σ Nat := do
  let n ← a
  if 0 < n then publish (.apnTable subscription)
  return n

theorem perform_announcing {σ : Type} {subscription : Option Subscription} {a : Action σ Nat}
    {s s' : State σ} {n : Nat} (h : a.perform s = (.ok n, s')) :
    (announcing subscription a).perform s = (.ok n, { s' with
      board := if 0 < n then s'.board.post (.apnTable subscription) else s'.board }) := by
  rw [announcing, Action.perform_bind, h]
  show (if 0 < n then _ else _ : Action σ Nat).perform s' = _
  split
  · rfl
  · rfl

/-- **A table is locked at the first attempt**: the rows of the second reading are those of the
first. -/
theorem perform_lockMatching (q : Predicate) (attempts : Nat) :
    (lockMatching q (attempts + 1)).perform s =
      (.ok (if s.store.matching q = [] then none
        else some (Ascending.ofList ((s.store.matching q).map Profile.shard),
          s.store.matching q)), s) := by
  rw [lockMatching, Action.perform_bind, perform_rows]
  show (Action.perform (if (Ascending.ofList ((s.store.matching q).map Profile.shard)).isEmpty
    then _ else _) s) = _
  by_cases hm : s.store.matching q = []
  · rw [hm, if_pos rfl]
    rfl
  · obtain ⟨p, hp⟩ := List.exists_mem_of_ne_nil _ hm
    have hne : (Ascending.ofList ((s.store.matching q).map Profile.shard)).isEmpty = false := by
      rw [List.isEmpty_eq_false_iff_exists_mem]
      exact ⟨p.shard, Ascending.mem_ofList.mpr (List.mem_map_of_mem hp)⟩
    have hall : (s.store.matching q).all
        ((Ascending.ofList ((s.store.matching q).map Profile.shard)).contains ·.shard) = true := by
      refine List.all_eq_true.mpr fun p hp => ?_
      exact List.contains_iff_mem.mpr (Ascending.mem_ofList.mpr (List.mem_map_of_mem hp))
    rw [if_neg hm, if_neg (by rw [hne]; exact Bool.false_ne_true), Action.perform_bind, perform_rows]
    show (Action.perform (if (s.store.matching q).all
      ((Ascending.ofList ((s.store.matching q).map Profile.shard)).contains ·.shard) = true
        then _ else _) s) = _
    rw [if_pos hall]
    rfl

end Registry

end ApnRegistry
