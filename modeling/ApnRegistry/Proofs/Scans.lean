import ApnRegistry.Proofs.QueryOutcome
import ApnRegistry.Proofs.TableCalls

/-!
# Scans of any table there is

A scan shows the rows that meet a condition, by id. A deletion takes out the rows that a scan for its condition
shows, and so a scan of what is left shows the rows that it would have shown before, but for these.

This is true of every table that calls lead to, as it is valid: each row carries the id it stands under,
which was handed out on the way.

Results:
* `fst_deleteMatching`, `scan_deleteMatching`: deletions in terms of scans.
* `Valid.answers`: what scans of a valid table show.
* `answers_after_run`: what any calls lead to.
-/

namespace ApnRegistry.Table

variable {t : Table}

/-! ## Scans and deletions -/

/-- A deletion counts the rows that a scan shows. -/
theorem fst_deleteMatching (t : Table) (q : Predicate) :
    (t.deleteMatching q).1 = (t.scan q .idAscending).length := by
  rw [deleteMatching, scan_idAscending, ← Rows.profiles_filter, Rows.profiles, List.length_map]

/-- After a deletion, a scan shows those of its rows that were not to be deleted. -/
theorem scan_deleteMatching (t : Table) (q r : Predicate) (order : Order) :
    (t.deleteMatching q).2.scan r order = t.scan (q.not.and r) order := by
  refine scan_congr ?_ order
  rw [scan_idAscending, scan_idAscending, deleteMatching, Rows.profiles_filter t.rows fun p => !q.holds p,
    List.filter_filter]
  refine List.filter_congr fun p _ => ?_
  rw [Predicate.holds_and, Predicate.holds_not, Bool.and_comm]

/-- **How a table answers** when it is asked for the rows that meet the condition, and when it deletes
them. -/
structure Answers (t : Table) (q : Predicate) : Prop where
  /-- A scan shows the stored rows that meet the condition, by ascending id. -/
  listing : t.Listing (fun p => q.holds p = true) .idAscending (t.scan q .idAscending)
  reversed : t.scan q .idDescending = (t.scan q .idAscending).reverse
  /-- A deletion counts these rows, takes them out and leaves all other rows. -/
  counted : (t.deleteMatching q).1 = (t.scan q .idAscending).length
  deleted : ∀ order, (t.deleteMatching q).2.scan q order = []
  left : ∀ order, (t.deleteMatching q).2.scan q.not order = t.scan q.not order

theorem Valid.answers (h : t.Valid) (q : Predicate) : t.Answers q where
  listing := h.listing_scan q .idAscending
  reversed := rfl
  counted := t.fst_deleteMatching q
  deleted := fun order => by
    rw [scan_deleteMatching]
    refine List.eq_nil_iff_forall_not_mem.mpr fun p hp => ?_
    have hboth := (mem_scan.mp hp).2
    rw [Predicate.holds_and, Predicate.holds_not, Bool.not_and_self] at hboth
    exact Bool.false_ne_true hboth
  left := fun order => by
    rw [scan_deleteMatching]
    refine scan_congr (List.filter_congr fun p _ => ?_) order
    rw [Predicate.holds_and, Bool.and_self]

/-- **What any calls lead to**, those that fail included. Each row carries the id it stands under, which is
at least 1 and below the next one. The next id has never gone back, and it is at most one above the number
of rows that the calls would have inserted, so that 64 bits hold it while these are fewer than `2 ^ 64 - 1`.
For all conditions, scans show the rows that meet them, and deletions leave the others. -/
theorem answers_after_run (calls : List Call) (q : Predicate) :
    let t := run calls {}
    (∀ id p, t.get? id = some p → p.id = some id ∧ 1 ≤ id.val ∧ id.val < t.nextId) ∧
      (∀ p, p ∈ t.rows.profiles ↔ ∃ id, t.get? id = some p) ∧
      (∀ past, past <+: calls → (run past {}).nextId ≤ t.nextId) ∧
      t.nextId ≤ 1 + insertions calls ∧
      t.Answers q ∧
      run (calls ++ [.deleteMatching q]) {} = (t.deleteMatching q).2 := by
  intro t
  have hv : t.Valid := valid_run calls
  refine ⟨fun id p hg => ⟨hv.id_of_get? hg, hv.bounded _ (hv.mem_iff.mpr hg)⟩,
    fun p => hv.sorted.mem_profiles_iff, fun _ => nextId_run_le, (nextId_run calls {}).2, hv.answers q, ?_⟩
  exact run_append calls [.deleteMatching q] {}

/-- A row with an id is not inserted, and a batch that fails leaves no row and no gap. Then a row is replaced
by one that meets the condition, and a deletion takes out that one. -/
theorem answers_after_run_replaced :
    let calls : List Call := [.insert { apn := "web" }, .insert { apn := "mms", id := some ⟨9⟩ },
      .apply [.insert { apn := "mms" }, .delete ⟨9⟩],
      .apply [.insert { apn := "dun" }, .insert { apn := "ims" }, .delete ⟨1⟩],
      .replace { apn := "web", id := some ⟨3⟩ }]
    let web : Predicate := .equals .apn (.text "web")
    let t := run calls {}
    t.get? ⟨3⟩ = some { apn := "web", id := some ⟨3⟩ } ∧ 3 < t.nextId ∧ t.nextId = 4 ∧
      insertions calls = 5 ∧ (run [.insert { apn := "web" }] {}).nextId ≤ t.nextId ∧
      (t.deleteMatching web).1 = 1 ∧
      (∀ order, (run (calls ++ [.deleteMatching web]) {}).scan web order = []) ∧
      ∀ order, (run (calls ++ [.deleteMatching web]) {}).scan web.not order =
        [{ apn := "dun", id := some ⟨2⟩ }] := by
  intro calls web t
  obtain ⟨hids, -, hpast, -, hanswers, hdelete⟩ := answers_after_run calls web
  have hg : t.get? ⟨3⟩ = some { apn := "web", id := some ⟨3⟩ } := rfl
  have hscan : t.scan web .idAscending = [{ apn := "web", id := some ⟨3⟩ }] := by decide
  refine ⟨hg, (hids _ _ hg).2.2, rfl, rfl, hpast _ (List.prefix_append _ _), ?_, fun order => ?_,
    fun order => ?_⟩
  · rw [hanswers.counted, hscan]
    rfl
  · rw [hdelete, hanswers.deleted]
  · rw [hdelete, hanswers.left]
    cases order <;> decide

end ApnRegistry.Table
