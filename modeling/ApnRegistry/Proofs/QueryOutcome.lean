import ApnRegistry.Proofs.Owners
import ApnRegistry.Proofs.Refresh

/-!
# What a query shows

A registry that is set up to puts the rows of a partition into modern form when they are asked for, and
by that it may rewrite, merge or drop rows that it has read already. It reads them again if it changed
any, and so the rows that it goes on with are always those that are stored by then.

Results:
* `Table.Listing`: the rows of a table that have a property, by id.
* `perform_query_of_modern`: where no row of the partition waits, a query changes nothing.
* `query_lists`: what a query shows of the table that it leaves, and what it leaves.
-/

namespace ApnRegistry

open LegacyCodes

/-- The one id comes before the other one in a list in the given order. -/
def Order.Before : Order → RowId → RowId → Prop
  | .idAscending, a, b => a.val < b.val
  | .idDescending, a, b => b.val < a.val

namespace Table

variable {t : Table} {P P' : Profile → Prop} {order : Order} {ps : List Profile}

/-- The list has exactly the rows of the table of which `P` is true, by id in the given order. -/
structure Listing (t : Table) (P : Profile → Prop) (order : Order) (ps : List Profile) : Prop where
  mem_iff : ∀ p, p ∈ ps ↔ p ∈ t.rows.profiles ∧ P p
  ordered : ps.Pairwise fun p q => ∃ a b, p.id = some a ∧ q.id = some b ∧ order.Before a b

theorem Valid.listing_scan (hv : t.Valid) (q : Predicate) (order : Order) :
    t.Listing (fun p => q.holds p = true) order (t.scan q order) where
  mem_iff := fun _ => mem_scan
  ordered := by
    have hrows : t.rows.profiles.Pairwise fun p q =>
        ∃ a b, p.id = some a ∧ q.id = some b ∧ a.val < b.val := by
      refine List.pairwise_map.mpr (List.Pairwise.imp_of_mem (fun {e e'} he he' hlt => ?_) hv.sorted)
      exact ⟨e.1, e'.1, hv.named e he, hv.named e' he', hlt⟩
    cases order with
    | idAscending => exact hrows.filter _
    | idDescending =>
      refine List.pairwise_reverse.mpr ((hrows.filter _).imp ?_)
      rintro p q ⟨a, b, ha, hb, hlt⟩
      exact ⟨b, a, hb, ha, hlt⟩

theorem Listing.filter (h : t.Listing P order ps) (f : Profile → Bool) :
    t.Listing (fun p => P p ∧ f p = true) order (ps.filter f) where
  mem_iff := fun p => by rw [List.mem_filter, h.mem_iff, and_assoc]
  ordered := h.ordered.filter f

theorem Listing.congr (h : t.Listing P order ps) (hP : ∀ p, P p ↔ P' p) :
    t.Listing P' order ps where
  mem_iff := fun p => by rw [h.mem_iff, hP]
  ordered := h.ordered

/-- The same list has the rows of which `P'` is true iff both are true of the same rows. -/
theorem Listing.listing_iff (h : t.Listing P order ps) :
    t.Listing P' order ps ↔ ∀ p ∈ t.rows.profiles, P p ↔ P' p := by
  constructor
  · intro h' p hp
    rw [← and_iff_right (b := P p) hp, ← h.mem_iff, h'.mem_iff, and_iff_right hp]
  · intro hP
    exact ⟨fun p => (h.mem_iff p).trans (and_congr_right (hP p)), h.ordered⟩

/-- Listed rows are different rows of the table. -/
theorem Listing.lists (h : t.Listing P order ps) (hv : t.Valid) : t.Lists ps where
  different := by
    refine h.ordered.imp ?_
    rintro p q ⟨a, b, ha, hb, hlt⟩ heq
    obtain rfl : a = b := Option.some.inj (ha.symm.trans (heq.trans hb))
    cases order with
    | idAscending => exact Nat.lt_irrefl _ hlt
    | idDescending => exact Nat.lt_irrefl _ hlt
  live := fun p hp => hv.mem_profiles_iff.mp ((h.mem_iff p).mp hp).1

end Table

namespace Registry

open Table

variable {setup : Setup} {caller : Caller} {target : Target} {q : Predicate} {order : Order}
  {owner : Owner} {partition : Partition} {s s' : State Table} {t : Table} {p : Profile}
  {found : List Profile}

/-! ## The rows of the partition -/

theorem mem_scan_predicate : p ∈ t.scan partition.predicate order ↔
    p ∈ t.rows.profiles ∧ p.owner = partition.owner := by
  rw [mem_scan, Partition.holds_predicate]

theorem perform_currentRows_of_not_lazy (hl : setup.config.lazyMccMncMigration = false) :
    (currentRows setup partition order).perform s =
      (.ok (s.store.scan partition.predicate order), s) := by
  unfold currentRows
  rw [hl]
  rfl

theorem perform_currentRows_of_lazy (hv : s.store.Valid)
    (hl : setup.config.lazyMccMncMigration = true) :
    (currentRows setup partition order).perform s =
      match refreshAll setup.device.known (s.store.scan partition.predicate order) s.store with
      | (.error e, t) => (.error e, { s with store := t })
      | (.ok n, t) => (.ok (if 0 < n then t.scan partition.predicate order
          else s.store.scan partition.predicate order), { s with store := t }) := by
  unfold currentRows
  rw [hl, Action.perform_bind, perform_rows]
  show (modernizeRows _ _ >>= _ : Action Table _).perform s = _
  rw [Action.perform_bind, perform_modernizeRows _ _ hv, Action.perform_onStore]
  rcases refreshAll setup.device.known (s.store.scan partition.predicate order) s.store with ⟨e | n, t⟩
  · rfl
  · show (if 0 < n then _ else _ : Action Table _).perform _ = _
    dsimp only
    split_ifs
    · rfl
    · rfl

/-- **Rows in modern form are handed out as they are.** -/
theorem perform_currentRows_of_modern (hv : s.store.Valid)
    (hm : setup.config.lazyMccMncMigration = true →
      AllModern setup.device.known (s.store.scan partition.predicate order)) :
    (currentRows setup partition order).perform s =
      (.ok (s.store.scan partition.predicate order), s) := by
  cases hl : setup.config.lazyMccMncMigration with
  | false => exact perform_currentRows_of_not_lazy hl
  | true =>
    rw [perform_currentRows_of_lazy hv hl, refreshAll_of_allModern (hm hl)]
    rfl

/-- **The rows that are handed out are those that are stored by then**, and if the registry is set up
to, they are in modern form. -/
theorem store_of_perform_currentRows (hv : s.store.Valid)
    (h : (currentRows setup partition order).perform s = (.ok found, s')) :
    found = s'.store.scan partition.predicate order ∧
      Moves (fun shard => shard.owner = partition.owner) s.store s'.store ∧ s'.enforced = s.enforced ∧
      (setup.config.lazyMccMncMigration = true → AllModern setup.device.known found) := by
  cases hl : setup.config.lazyMccMncMigration with
  | false =>
    rw [perform_currentRows_of_not_lazy hl] at h
    cases h
    exact ⟨rfl, Moves.refl _, rfl, nofun⟩
  | true =>
    have hlists := (hv.listing_scan partition.predicate order).lists hv
    have hmoves : Moves (fun shard => shard.owner = partition.owner) s.store
        (refreshAll setup.device.known (s.store.scan partition.predicate order) s.store).2 :=
      moves_of_refreshAll hv fun p hp _ => (mem_scan_predicate.mp hp).2
    rw [perform_currentRows_of_lazy hv hl] at h
    rcases hall : refreshAll setup.device.known (s.store.scan partition.predicate order) s.store with
      ⟨e | n, t⟩
    · rw [hall] at h
      cases h
    · rw [hall] at h hmoves
      -- Where no row was put into modern form, the rows that were read are still those that are stored.
      have hfound : (if 0 < n then t.scan partition.predicate order
          else s.store.scan partition.predicate order) = t.scan partition.predicate order := by
        split_ifs with hpos
        · rfl
        · obtain rfl : n = 0 := Nat.eq_zero_of_not_pos hpos
          rw [eq_of_refreshAll hv hlists hall]
      dsimp only at h
      rw [hfound] at h
      cases h
      refine ⟨rfl, hmoves, rfl, fun _ p hp => ?_⟩
      obtain ⟨hmem, ho⟩ := mem_scan_predicate.mp hp
      obtain ⟨id, -, hg⟩ := (hmoves.valid hv).mem_profiles_iff.mp hmem
      exact pending_of_refreshAll hv hlists hall hg fun hg' =>
        mem_scan_predicate.mpr ⟨hv.mem_profiles hg', ho⟩

/-! ## The call -/

/-- The row is visible, belongs to the owner, and is one that the target addresses and the condition
selects. -/
def Sought (setup : Setup) (owner : Owner) (target : Target) (q : Predicate) (p : Profile) : Prop :=
  p.owner = owner ∧ p.isVisible = true ∧ (targetPredicate setup target).holds p = true ∧
    q.holds p = true

/-- A deletion chooses the stored rows that a query seeks as they are. -/
theorem mem_chosen_iff : p ∈ chosen setup owner target q t ↔
    p ∈ t.rows.profiles ∧ Sought setup owner target q p := by
  rw [chosen, List.mem_filter]
  simp only [Sought, Bool.and_eq_true, beq_iff_eq]
  refine and_congr_right fun _ => ⟨?_, ?_⟩
  · rintro ⟨⟨⟨hvis, ho⟩, ht⟩, hq⟩
    exact ⟨ho, hvis, ht, hq⟩
  · rintro ⟨ho, hvis, ht, hq⟩
    exact ⟨⟨⟨hvis, ho⟩, ht⟩, hq⟩

/-- What a query shows of the rows of its partition. -/
def answer (setup : Setup) (target : Target) (q : Predicate) (found : List Profile) : List Profile :=
  ((found.filter Profile.isVisible).map (shown setup)).filter
    ((targetPredicate setup target).and q).holds

theorem perform_query_of_error {e : Error}
    (ha : partitionFor setup caller target .query s.enforced = .error e) :
    (query setup caller target q order).perform s = (.error e, s) := by
  rw [query, Action.perform_bind, perform_authorizeRows_eq, ha]

/-- A query shows rows of the caller's partition. -/
theorem perform_query (ha : partitionFor setup caller target .query s.enforced = .ok partition) :
    (query setup caller target q order).perform s =
      (answer setup target q <$> currentRows setup partition order).perform s := by
  rw [query, Action.perform_bind, perform_authorizeRows_eq, ha]
  rfl

/-- What a query that succeeds does to the table, where rows are put into modern form for it. -/
theorem store_of_perform_query (hv : s.store.Valid) (hl : setup.config.lazyMccMncMigration = true)
    (ha : partitionFor setup caller target .query s.enforced = .ok partition)
    (h : (query setup caller target q order).perform s = (.ok found, s')) :
    ∃ n, refreshAll setup.device.known (s.store.scan partition.predicate order) s.store =
      (.ok n, s'.store) := by
  rw [perform_query ha, Action.perform_map, perform_currentRows_of_lazy hv hl] at h
  rcases hall : refreshAll setup.device.known (s.store.scan partition.predicate order) s.store with
    ⟨e | n, t⟩
  · rw [hall] at h
    cases h
  · rw [hall] at h
    cases h
    exact ⟨n, rfl⟩

/-- Rows in modern form are shown as they are. -/
theorem listing_answer (hv : t.Valid)
    (hfound : found = t.scan partition.predicate order)
    (hm : setup.config.lazyMccMncMigration = true → AllModern setup.device.known found) :
    t.Listing (Sought setup partition.owner target q) order (answer setup target q found) := by
  have hshown : (found.filter Profile.isVisible).map (shown setup) =
      found.filter Profile.isVisible := by
    refine (List.map_congr_left fun p hp => ?_).trans (List.map_id _)
    unfold shown
    split_ifs with hl
    · exact modernized_of_none (hm hl p (List.mem_filter.mp hp).1)
    · rfl
  unfold answer
  rw [hshown, hfound]
  refine (((hv.listing_scan _ order).filter _).filter _).congr fun p => ?_
  rw [Partition.holds_predicate, Predicate.holds_and, Bool.and_eq_true, and_assoc]
  rfl

/-- **Where no row of the partition waits, a query changes nothing.** -/
theorem perform_query_of_modern (hv : s.store.Valid)
    (ha : partitionFor setup caller target .query s.enforced = .ok partition)
    (hm : setup.config.lazyMccMncMigration = true →
      AllModern setup.device.known (s.store.scan partition.predicate order)) :
    (query setup caller target q order).perform s =
      (.ok (answer setup target q (s.store.scan partition.predicate order)), s) := by
  rw [perform_query ha, Action.perform_map, perform_currentRows_of_modern hv hm]
  rfl

/-- **What a query shows**: if the registry puts rows into modern form when they are asked for, a query
that succeeds lists the rows that it seeks in the table that it leaves, by id, and no row of the
partition waits there. The rows of other owners are as they were, and the same query once more shows the
same and changes nothing. If the registry leaves rows as they are, a query changes nothing whatever
comes of it, and lists the stored rows that it seeks. -/
theorem query_lists (setup : Setup) (caller : Caller) (target : Target) (q : Predicate) (order : Order)
    (s : State Table) (hv : s.store.Valid) :
    let call : Action Table (List Profile) := query setup caller target q order
    (setup.config.lazyMccMncMigration = true → ∀ result s', call.perform s = (.ok result, s') →
      ∃ partition, partitionFor setup caller target .query s.enforced = .ok partition ∧
        s'.store.Listing (Sought setup partition.owner target q) order result ∧
        AllModern setup.device.known (s'.store.only partition.owner).rows.profiles ∧
        (∀ owner, owner ≠ partition.owner → (s'.store.only owner).rows = (s.store.only owner).rows) ∧
        call.perform s' = (.ok result, s')) ∧
    (setup.config.lazyMccMncMigration = false → (call.perform s).2 = s ∧
      ∀ result, (call.perform s).1 = .ok result →
        ∃ partition, partitionFor setup caller target .query s.enforced = .ok partition ∧
          s.store.Listing (Sought setup partition.owner target q) order result) := by
  intro call
  cases ha : partitionFor setup caller target .query s.enforced with
  | error e =>
    have hcall : call.perform s = (.error e, s) := perform_query_of_error ha
    rw [hcall]
    exact ⟨fun _ _ _ => nofun, fun _ => ⟨rfl, fun _ => nofun⟩⟩
  | ok partition =>
    refine ⟨fun hl result s' h => ⟨partition, rfl, ?_⟩, fun hl => ?_⟩
    · rw [show call.perform s = _ from perform_query ha, Action.perform_map] at h
      rcases hcur : (currentRows setup partition order).perform s with ⟨e | found, s₁⟩
      · rw [hcur] at h
        cases h
      · rw [hcur] at h
        cases h
        obtain ⟨rfl, hmoves, henforced, hm⟩ := store_of_perform_currentRows hv hcur
        have hv' := hmoves.valid hv
        refine ⟨listing_answer hv' rfl hm, fun p hp => hm hl p ?_, fun owner ho => ?_,
          perform_query_of_modern hv' (henforced ▸ ha) hm⟩
        · rw [profiles_only, List.mem_filter, beq_iff_eq] at hp
          exact mem_scan_predicate.mpr hp
        · exact hmoves.rows_only_eq hv fun shard hs heq => ho (heq.symm.trans hs)
    · have hcall : call.perform s = _ := perform_query_of_modern hv ha (by rw [hl]; nofun)
      rw [hcall]
      refine ⟨rfl, fun result hresult => ⟨partition, rfl, ?_⟩⟩
      cases hresult
      exact listing_answer hv rfl (by rw [hl]; nofun)

/-- A tombstone with integer codes comes to have the key of a visible row, and hides it. -/
theorem query_lists_web :
    let row : Profile := { apn := "web", numeric := "99905", legacyMcc := some 999, legacyMnc := some 5 }
    let s : State Table := .initial {} (.ofProfiles [{ row with mcc := "999", mnc := "05" },
      { row with status := .userDeleted }, { row with apn := "mms" }])
    let call : Action Table (List Profile) := query {} .system (.table .general none) .always .idDescending
    let mms : Profile := { row with id := some ⟨3⟩, apn := "mms", mcc := "999", mnc := "05" }
    (call.perform s).1 = .ok [mms] ∧
      (call.perform s).2.store.Listing (Sought {} .others (.table .general none) .always)
        .idDescending [mms] ∧
      call.perform (call.perform s).2 = (.ok [mms], (call.perform s).2) := by
  intro row s call mms
  have hresult : (call.perform s).1 = .ok [mms] := by decide +kernel
  generalize hs' : (call.perform s).2 = s'
  have hperform : call.perform s = (.ok [mms], s') := Prod.ext hresult hs'
  obtain ⟨partition, ha, hlist, -, -, hagain⟩ := (query_lists {} .system (.table .general none) .always
    .idDescending s (.ofProfiles _)).1 rfl [mms] s' hperform
  rw [owner_of_partitionFor ha] at hlist
  exact ⟨hresult, hlist, hagain⟩

end Registry

end ApnRegistry
